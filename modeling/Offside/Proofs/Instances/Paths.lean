import Offside.Proofs.Instances.Keeping

/-!
# Paths — a field is written, and a path is looked up again

A dotted path is looked up by reading one field after the other.  This file says what a look-up reads and
what becomes of it when a field is written:

- `Scope.reads`                      : the fields that the look-up of a path reads, each with its instance
- `Scope.lookup_setField_of_notMem`  : a write to a field that is not read does not change the look-up
- `lookup_after_write`               : what the look-up of a path gives that has just been written

The path of a write may lead through the very field that is written.  Then the path leads elsewhere
afterwards, and the look-up goes on from the new value (`lookup_of_cyclic_path`).

Frames are asked to be listed in a census, so that every handle is of an instance that there is.  A run
starts in such a frame, and evaluation does not leave them (`keepsCensus`).
-/

namespace Offside

/-! ## What a look-up reads -/

/-- The fields that are read on the way along fields from a value, each with the address of its
instance. -/
def Store.readsFrom (s : Store) (value : Value) : List String → List (Address × String)
  | [] => []
  | field :: rest =>
      match value with
      | .inst _ address =>
          match (s.fields address).get? field with
          | some next => (address, field) :: s.readsFrom next rest
          | none => [(address, field)]
      | _ => []

namespace Scope

/-- The fields that the look-up of a path reads, each with the address of its instance. -/
def reads (s : Scope) (store : Store) : List String → List (Address × String)
  | [] => []
  | first :: rest =>
      match s.get? first with
      | some value => store.readsFrom value rest
      | none => []

/-! ### Paths in two parts -/

section Append

variable {store : Store}

theorem follow_append {xs : List String} :
    ∀ {walked : List String} {value found : Value} (ys : List String),
      follow store walked value xs = .ok found →
        follow store walked value (xs ++ ys) = follow store (walked ++ xs) found ys := by
  induction xs with
  | nil =>
      intro walked value found ys h
      cases h
      rw [List.nil_append, List.append_nil]
  | cons field xs ih =>
      intro walked value found ys h
      cases value with
      | inst c address =>
          rw [follow] at h
          rw [List.cons_append, follow]
          cases hnext : (store.fields address).get? field with
          | none =>
              rw [hnext] at h
              cases h
          | some next =>
              rw [hnext] at h
              have hrest := ih ys h
              rw [List.append_assoc] at hrest
              exact hrest
      | _ => cases h

theorem lookup_append {s : Scope} {path : List String} {found : Value} (rest : List String)
    (h : s.lookup store path = .ok found) :
    s.lookup store (path ++ rest) = follow store path found rest := by
  cases path with
  | nil => cases h
  | cons first path =>
      rw [lookup] at h
      rw [List.cons_append, lookup]
      cases hfirst : s.get? first with
      | none =>
          rw [hfirst] at h
          cases h
      | some value =>
          rw [hfirst] at h
          exact follow_append rest h

end Append

/-! ### The first read of a field -/

section Read

variable {store : Store} {address : Address} {field : String}

theorem exists_first_readsFrom {rest : List String} :
    ∀ (walked : List String) {value : Value}, (address, field) ∈ store.readsFrom value rest →
      ∃ before after c, rest = before ++ field :: after
        ∧ follow store walked value before = .ok (.inst c address)
        ∧ (address, field) ∉ store.readsFrom value before := by
  induction rest with
  | nil =>
      intro walked value h
      cases h
  | cons name rest ih =>
      intro walked value h
      cases value with
      | inst c a =>
          by_cases hhere : (address, field) = (a, name)
          · cases hhere
            exact ⟨[], rest, c, rfl, rfl, List.not_mem_nil⟩
          · rw [Store.readsFrom] at h
            cases hnext : (store.fields a).get? name with
            | none =>
                rw [hnext] at h
                exact absurd (List.mem_singleton.mp h) hhere
            | some next =>
                rw [hnext] at h
                have hlater := (List.mem_cons.mp h).resolve_left hhere
                rcases ih (walked ++ [name]) hlater
                  with ⟨before, after, d, hrest, hfollow, hnot⟩
                refine ⟨name :: before, after, d, congrArg _ hrest, ?_, ?_⟩
                · rw [follow, hnext]
                  exact hfollow
                · rw [Store.readsFrom, hnext]
                  exact fun hmem => (List.mem_cons.mp hmem).elim hhere hnot
      | _ => cases h

theorem exists_first_read {s : Scope} {path : List String} (h : (address, field) ∈ s.reads store path) :
    ∃ before after c, path = before ++ field :: after
      ∧ s.lookup store before = .ok (.inst c address)
      ∧ (address, field) ∉ s.reads store before := by
  cases path with
  | nil => cases h
  | cons first path =>
      rw [reads] at h
      cases hfirst : s.get? first with
      | none =>
          rw [hfirst] at h
          cases h
      | some value =>
          rw [hfirst] at h
          rcases exists_first_readsFrom [first] h
            with ⟨before, after, c, hpath, hfollow, hnot⟩
          refine ⟨first :: before, after, c, congrArg _ hpath, ?_, ?_⟩
          · rw [lookup, hfirst]
            exact hfollow
          · rw [reads, hfirst]
            exact hnot

end Read

/-! ## A look-up after a write -/

section Write

variable {store : Store} {address : Address} {field : String} {written : Value}

theorem follow_setField_of_notMem {rest : List String} :
    ∀ {walked : List String} {value : Value}, (address, field) ∉ store.readsFrom value rest →
      follow (store.setField address field written) walked value rest
        = follow store walked value rest := by
  induction rest with
  | nil =>
      intro walked value _
      rfl
  | cons name rest ih =>
      intro walked value h
      cases value with
      | inst c a =>
          have hne : (a, name) ≠ (address, field) := by
            rintro heq
            refine h ?_
            rw [Store.readsFrom, ← heq]
            cases (store.fields a).get? name <;> exact List.mem_cons_self
          rw [follow, follow, Store.get?_setField_of_ne store hne]
          cases hnext : (store.fields a).get? name with
          | none => rfl
          | some next =>
              rw [Store.readsFrom, hnext] at h
              exact ih fun hmem => h (List.mem_cons_of_mem _ hmem)
      | _ => rfl

/-- A write to a field that is not read does not change what a path leads to. -/
theorem lookup_setField_of_notMem {s : Scope} {path : List String}
    (h : (address, field) ∉ s.reads store path) :
    s.lookup (store.setField address field written) path = s.lookup store path := by
  cases path with
  | nil => rfl
  | cons first rest =>
      rw [lookup, lookup]
      rw [reads] at h
      cases hfirst : s.get? first with
      | none => rfl
      | some value =>
          rw [hfirst] at h
          exact follow_setField_of_notMem h

/-- The look-up goes on from the written value where it reads the written field first. -/
theorem lookup_setField_append {s : Scope} {before : List String} {c : Class}
    (hin : store.Holds address)
    (hbefore : s.lookup store before = .ok (.inst c address))
    (hnot : (address, field) ∉ s.reads store before) (after : List String) :
    s.lookup (store.setField address field written) (before ++ field :: after)
      = follow (store.setField address field written) (before ++ [field]) written after := by
  have hstill : s.lookup (store.setField address field written) before = .ok (.inst c address) := by
    rw [lookup_setField_of_notMem hnot, hbefore]
  have hfield : ((store.setField address field written).fields address).get? field
      = some written := by
    rw [Store.fields_setField_self store hin, get?_insert_self]
  rw [lookup_append _ hstill, follow, hfield]

end Write

end Scope

/-! ## The path of a write -/

theorem Exec.eq_of_lookupInstance_eq_ok {path : List String} {f g : Frame} {address : Address}
    (h : Exec.lookupInstance path f = .ok address g) :
    f.scope.lookupInstance f.machine.store path = .ok address ∧ g = f := by
  replace h : Exec.ofExcept (f.scope.lookupInstance f.machine.store path) f = .ok address g := h
  cases hfound : f.scope.lookupInstance f.machine.store path with
  | ok found =>
      rw [hfound] at h
      cases h
      exact ⟨rfl, rfl⟩
  | error e =>
      rw [hfound] at h
      cases h

/-- In a listed frame a path leads to instances that there are. -/
theorem Frame.Listed.in_store {κ : Census} {f : Frame} (hf : f.Listed κ) {path : List String}
    {c : Class} {address : Address}
    (h : f.scope.lookup f.machine.store path = .ok (.inst c address)) :
    f.machine.store.Holds address := by
  have hvalue : (Value.inst c address).Listed κ := Scope.listed_lookup hf.scope hf.store h
  have hsome : κ address = some c := hvalue
  exact (hf.store.domain address).mp (hsome ▸ rfl)

/-- A path that a value has been written to leads to the value, or else it reads the written field on the
way already; then the look-up goes on from the value after the first time that it does. -/
theorem lookup_after_write {depth : Nat} {path : List String} {field : String} {x : Node}
    {f g : Frame} {v : Value} {κ : Census} {K : Class → Prop} (hclosed : κ.Closed K)
    (hlisted : f.Listed κ) (hbacked : x.All (Node.Backed κ K))
    (h : eval depth (.setField path field x) f = .ok v g) :
    ∃ d f₁ address, depth = d + 1 ∧ eval d x f = .ok v f₁
      ∧ f₁.scope.lookupInstance f₁.machine.store path = .ok address
      ∧ g = { f₁ with
          machine := { f₁.machine with store := f₁.machine.store.setField address field v } }
      ∧ (((address, field) ∉ f₁.scope.reads f₁.machine.store path
          ∧ g.scope.lookup g.machine.store (path ++ [field]) = .ok v)
        ∨ ∃ before after, path = before ++ field :: after
          ∧ f₁.scope.lookupInstance f₁.machine.store before = .ok address
          ∧ (address, field) ∉ f₁.scope.reads f₁.machine.store before
          ∧ g.scope.lookup g.machine.store (path ++ [field])
            = Scope.follow g.machine.store (before ++ [field]) v (after ++ [field])) := by
  cases depth with
  | zero =>
      rw [eval] at h
      cases h
  | succ d =>
      rw [eval] at h
      rcases bind_eq_ok h with ⟨a, f₁, hvalue, h⟩
      rcases bind_eq_ok h with ⟨address, f₂, hinstance, h⟩
      rcases bind_eq_ok h with ⟨_, f₃, hwrite, h⟩
      rcases eq_of_pure_eq_ok h with ⟨rfl, rfl⟩
      rcases Exec.eq_of_lookupInstance_eq_ok hinstance with ⟨hpath, rfl⟩
      cases hwrite
      refine ⟨d, f₂, address, rfl, hvalue, hpath, rfl, ?_⟩
      -- The value may have been made by methods, so the frame is listed in a census that has grown.
      have hlisted₂ : ∃ κ', f₂.Listed κ' := by
        rcases (keepsCensus K d).eval hbacked hclosed f hlisted with ⟨κ', -, -, hends, -⟩
        rw [Recorded.step_eval, hvalue] at hends
        exact ⟨κ', hends.2⟩
      rcases hlisted₂ with ⟨κ', hlisted₂⟩
      rcases Scope.lookupInstance_eq_ok_iff.mp hpath with ⟨c, hlookup⟩
      have hin := hlisted₂.in_store hlookup
      by_cases hread : (address, field) ∈ f₂.scope.reads f₂.machine.store path
      · rcases Scope.exists_first_read hread with ⟨before, after, b, rfl, hbefore, hnot⟩
        have hfirst := Scope.lookupInstance_eq_ok_iff.mpr ⟨b, hbefore⟩
        refine .inr ⟨before, after, rfl, hfirst, hnot, ?_⟩
        rw [List.append_assoc]
        exact Scope.lookup_setField_append hin hbefore hnot (after ++ [field])
      · exact .inl ⟨hread, Scope.lookup_setField_append hin hlookup hread []⟩

/-- A field is written that the path reads: the path leads through an instance that is its own field. -/
theorem lookup_after_write_cycle :
    let c : Class := ⟨"A", none, []⟩
    let here : Address := ⟨0, 0⟩
    let store : Store := (Store.empty id).allocate.setField here "f" (.inst c here)
    let f : Frame :=
      ⟨Scope.empty.insert "a" (.inst c here), { Machine.writingTo .unlimited id with store }⟩
    ∃ g, eval 9 (.setField ["a", "f"] "f" (.constant (.int 5))) f = .ok (.int 5) g
      ∧ ∃ before after, ["a", "f"] = before ++ "f" :: after
        ∧ g.scope.lookup g.machine.store ["a", "f", "f"]
          = Scope.follow g.machine.store (before ++ ["f"]) (.int 5) (after ++ ["f"]) := by
  intro c here store f
  let κ := Census.empty.add here c
  have hinst : (Value.inst c here).Listed κ := Census.add_self _ here c
  have hempty : Census.empty.Closed (· = c) := by
    refine ⟨nofun, ?_⟩
    rintro _ name m rfl hm
    cases hm
  have hclosed : κ.Closed (· = c) := hempty.add rfl rfl
  have hlisted : f.Listed κ :=
    ⟨Scope.listed_empty.insert "a" hinst,
      ((Store.listed_empty id).allocate c).setField here "f" hinst⟩
  have hbacked : (Node.constant (.int 5)).All (Node.Backed κ (· = c)) := .mk trivial nofun
  have hrun : ∃ g, eval 9 (.setField ["a", "f"] "f" (.constant (.int 5))) f = .ok (.int 5) g :=
    ⟨_, rfl⟩
  rcases hrun with ⟨g, hg⟩
  refine ⟨g, hg, ?_⟩
  rcases lookup_after_write hclosed hlisted hbacked hg
    with ⟨d, f₁, address, hd, hvalue, hpath, -, ⟨hnot, -⟩ | ⟨before, after, hsplit, -, -, hlookup⟩⟩
  · cases hd
    cases hvalue
    cases hpath
    exact absurd (by decide) hnot
  · exact ⟨before, after, hsplit, hlookup⟩

/-! ## A write that is not read back -/

/-- Whether a reading gives three statements and a write that succeeds after them, and the path of the
write then leads nowhere. -/
def losesWrite : Except ParseError Program → Bool
  | .ok ⟨[first, second, third, .setField path field x]⟩ =>
      match Exec.block (eval 9) [first, second, third] ⟨.empty, .writingTo .unlimited id⟩ with
      | .ok _ f =>
          match eval 9 (.setField path field x) f with
          | .ok _ g => !(g.scope.lookup g.machine.store (path ++ [field])).isOk
          | .error .. => false
      | .error .. => false
  | _ => false

theorem exists_of_losesWrite {reading : Except ParseError Program} (h : losesWrite reading = true) :
    ∃ p before path field x w f v g, reading = .ok p ∧ p.statements = before ++ [.setField path field x]
      ∧ Exec.block (eval 9) before ⟨.empty, .writingTo .unlimited id⟩ = .ok w f
      ∧ eval 9 (.setField path field x) f = .ok v g
      ∧ (g.scope.lookup g.machine.store (path ++ [field])).isOk = false := by
  unfold losesWrite at h
  split at h
  next first second third path field x =>
    split at h
    next w f hbefore =>
      split at h
      next v g hwrite =>
        have hlost := Bool.not_eq_true' _ ▸ h
        exact ⟨_, [first, second, third], path, field, x, w, f, v, g, rfl, rfl, hbefore, hwrite, hlost⟩
      next => cases h
    next => cases h
  next => cases h

/-- An instance becomes its own field `f`. Through this field the number 5 is written to the field itself,
so that afterwards the path leads through a number. -/
theorem lookup_of_cyclic_path :
    ¬ ∀ (source : String) (p : Program) (before : List Node) (path : List String) (field : String)
      (x : Node) (depth : Nat) (w v : Value) (f g : Frame),
      Program.parse source = .ok p → p.statements = before ++ [.setField path field x] →
      Exec.block (eval depth) before ⟨.empty, .writingTo .unlimited id⟩ = .ok w f →
      eval depth (.setField path field x) f = .ok v g →
        g.scope.lookup g.machine.store (path ++ [field]) = .ok v := by
  intro hall
  have hread : losesWrite (Program.parse
      "class A:\n  def f():\n    return 1\na = A()\na.f = a\na.f.f = 5\n") = true := by
    decide +kernel
  rcases exists_of_losesWrite hread
    with ⟨p, before, path, field, x, w, f, v, g, hparse, hstatements, hbefore, hwrite, hlost⟩
  rw [hall _ p before path field x 9 w v f g hparse hstatements hbefore hwrite] at hlost
  cases hlost

end Offside
