import Offside.Proofs.Instances.Paths

/-!
# Aliases — which paths a field write changes

Many paths may lead to one instance, also through the instance itself, so that a write to one of its
fields is seen along paths that the statement does not spell out.  This file says which ones:

- `Frame.write`         : the frame in which a field has a new value
- `eval_setField_eq`    : an assignment to a field evaluates the value, finds the instance, and writes
- `write_frames_paths`  : paths that do not read the field lead where they did, and those among them that
  lead to the instance lead to the value when the field is added to them

No count is kept of the paths to an instance, and the value may be the instance itself.  Frames are asked
to be listed in a census, as in `Paths`: an instance without a place in the store has no fields.
-/

namespace Offside

namespace Frame

/-- What a path leads to in this frame. -/
def lookup (f : Frame) (path : List String) : Except RuntimeError Value :=
  f.scope.lookup f.machine.store path

/-- The fields that the look-up of a path reads in this frame. -/
def reads (f : Frame) (path : List String) : List (Address × String) :=
  f.scope.reads f.machine.store path

/-- The frame with a value in a field of the instance at an address. -/
def write (f : Frame) (address : Address) (field : String) (value : Value) : Frame :=
  { f with machine := { f.machine with store := f.machine.store.setField address field value } }

end Frame

/-! ## The steps of an assignment to a field -/

/-- Once the value is there, the instance is looked for in the frame that the value has left. -/
theorem eval_setField_eq {depth : Nat} (path : List String) (field : String) {x : Node} {f f₁ : Frame}
    {v : Value} (hvalue : eval depth x f = .ok v f₁) :
    eval (depth + 1) (.setField path field x) f
      = match f₁.scope.lookupInstance f₁.machine.store path with
        | .ok address => .ok v (f₁.write address field v)
        | .error e => .error (.fault (.error e)) f₁ := by
  have hlookup : Exec.lookupInstance path f₁
      = Exec.ofExcept (f₁.scope.lookupInstance f₁.machine.store path) f₁ := rfl
  rw [eval, bind_of_ok hvalue]
  cases hpath : f₁.scope.lookupInstance f₁.machine.store path with
  | ok address =>
      rw [hpath] at hlookup
      exact bind_of_ok hlookup
  | error e =>
      rw [hpath] at hlookup
      exact bind_of_error hlookup

/-- A path that leads to no instance gives the failure of its look-up, or that of a value without
fields. -/
theorem exists_error_of_lookup_ne {s : Scope} {store : Store}
    (h : ∀ c address, s.lookup store path ≠ .ok (.inst c address)) :
    ∃ e, s.lookupInstance store path = .error e := by
  cases hpath : s.lookupInstance store path with
  | ok address =>
      rcases Scope.lookupInstance_eq_ok_iff.mp hpath with ⟨c, hlookup⟩
      exact absurd hlookup (h c address)
  | error e => exact ⟨e, rfl⟩

/-! ## The paths afterwards -/

/-- An assignment to a field of the instance at a path. Of all paths, those that have not read the field
of the instance on their way lead where they led, be it to a failure. Those of them that lead to the
instance, under whatever names, lead to the value when the field is added. Where there is no instance at
the path, the assignment fails and leaves what the evaluation of the value has left. -/
theorem write_frames_paths {depth : Nat} (path : List String) (field : String) {x : Node}
    {f f₁ : Frame} {v : Value} {κ : Census} (hvalue : eval depth x f = .ok v f₁)
    (hlisted : f₁.Listed κ) :
    (∀ c address, f₁.lookup path = .ok (.inst c address) →
        eval (depth + 1) (.setField path field x) f = .ok v (f₁.write address field v)
          ∧ (∀ q, (address, field) ∉ f₁.reads q →
            (f₁.write address field v).lookup q = f₁.lookup q)
          ∧ ∀ q d, f₁.lookup q = .ok (.inst d address) → (address, field) ∉ f₁.reads q →
            (f₁.write address field v).lookup (q ++ [field]) = .ok v)
      ∧ ((∀ c address, f₁.lookup path ≠ .ok (.inst c address)) →
        ∃ e, f₁.scope.lookupInstance f₁.machine.store path = .error e
          ∧ eval (depth + 1) (.setField path field x) f = .error (.fault (.error e)) f₁) := by
  have hassign := eval_setField_eq path field hvalue
  constructor
  · intro c address hpath
    have hinstance : f₁.scope.lookupInstance f₁.machine.store path = .ok address :=
      Scope.lookupInstance_eq_ok_iff.mpr ⟨c, hpath⟩
    rw [hinstance] at hassign
    refine ⟨hassign, ?_, ?_⟩
    · intro q hq
      exact Scope.lookup_setField_of_notMem hq
    · intro q d hlookup hq
      -- The last step reads the field from the cell that the write has changed.
      exact Scope.lookup_setField_append (hlisted.in_store hlookup) hlookup hq []
  · intro hnone
    rcases exists_error_of_lookup_ne hnone with ⟨e, he⟩
    rw [he] at hassign
    exact ⟨e, he, hassign⟩

/-- The instance at `a` is at `a.twin.back` too, and becomes its own field. Both paths lead to it through the
field then, and `a.twin` leads where it did. At `a.lost` there is nothing to write to. -/
theorem write_frames_paths_of_alias :
    let c : Class := ⟨"A", none, []⟩
    let near : Address := ⟨0, 0⟩
    let far : Address := ⟨1, 1⟩
    let made : Store := (Store.empty id).allocate.allocate
    let store : Store := (made.setField near "twin" (.inst c far)).setField far "back" (.inst c near)
    let f : Frame :=
      ⟨Scope.empty.insert "a" (.inst c near), { Machine.writingTo .unlimited id with store }⟩
    let x : Node := .variable ["a", "twin", "back"]
    (∃ g, eval 2 (.setField ["a"] "f" x) f = .ok (.inst c near) g
      ∧ g.lookup ["a", "f"] = .ok (.inst c near)
      ∧ g.lookup ["a", "twin", "back", "f"] = .ok (.inst c near)
      ∧ g.lookup ["a", "twin"] = .ok (.inst c far))
      ∧ ∃ e, eval 2 (.setField ["a", "lost"] "f" x) f = .error (.fault (.error e)) f := by
  intro c near far made store f x
  let κ := (Census.empty.add near c).add far c
  have hfirst : (Census.empty.add near c).Extends κ := Census.extends_add rfl c
  have hnear : (Value.inst c near).Listed κ := hfirst near c (Census.add_self _ near c)
  have hfar : (Value.inst c far).Listed κ := Census.add_self _ far c
  have hmade : made.Listed κ := ((Store.listed_empty id).allocate c).allocate c
  have hlisted : f.Listed κ :=
    ⟨Scope.listed_empty.insert "a" hnear, (hmade.setField near "twin" hfar).setField far "back" hnear⟩
  have hvalue : eval 1 x f = .ok (.inst c near) f := rfl
  constructor
  · have hwrite := (write_frames_paths ["a"] "f" hvalue hlisted).1 c near rfl
    rcases hwrite with ⟨hrun, hsame, halias⟩
    refine ⟨_, hrun, ?_, ?_, ?_⟩
    · exact halias ["a"] c rfl (by decide)
    · exact halias ["a", "twin", "back"] c rfl (by decide)
    · exact hsame ["a", "twin"] (by decide)
  · have hnone : ∀ d address, f.lookup ["a", "lost"] ≠ .ok (.inst d address) := nofun
    rcases (write_frames_paths _ "f" hvalue hlisted).2 hnone with ⟨e, -, hfails⟩
    exact ⟨e, hfails⟩

end Offside
