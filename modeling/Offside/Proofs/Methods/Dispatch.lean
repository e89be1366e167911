import Offside.Proofs.Evaluation.Effects
import Offside.Proofs.Evaluation.Growth

/-!
# Dispatch — which definition a call runs

A method is looked for along the chain of parents, and only what is found is asked how many arguments it
takes.  This file shows what comes of a call:

- `Class.Chooses`  : the first class of the chain that defines the name does so by this method
- `Order.Alike`    : two callers do the same for the calls that pass both checks
- `Class.Dispatch` : which calls run a body and which fail before it, also where the receiver is `self`,
  and that those who ask first whether a method is there do not fail

A call that fails before the body leaves everything as it was, and no other does: the body of a method
never runs unnoticed (`notes_composition`).  What the body itself does is left out here, so that it may well
fail with one of the two errors for a call of its own.
-/

namespace Offside

/-! ## The choice -/

namespace Class

variable {c : Class} {name : String} {method : Method}

/-- Going from the class upward, the first one that defines the name does so by this method. -/
def Chooses (c : Class) (name : String) (method : Method) : Prop :=
  ∃ before d after, c.lineage = before ++ d :: after ∧ (∀ b ∈ before, b.own? name = none)
    ∧ d.own? name = some method

theorem chooses_iff : c.Chooses name method ↔ c.method? name = some method := by
  rw [c.method?_eq_findSome?, List.findSome?_eq_some_iff]
  constructor
  · rintro ⟨before, d, after, hlineage, hbefore, hd⟩
    exact ⟨before, d, after, hlineage, hd, hbefore⟩
  · rintro ⟨before, d, after, hlineage, hd, hbefore⟩
    exact ⟨before, d, after, hlineage, hbefore, hd⟩

theorem method?_eq_none_iff : c.method? name = none ↔ ∀ d ∈ c.lineage, d.own? name = none := by
  rw [c.method?_eq_findSome?, List.findSome?_eq_none_iff]

theorem understands_iff {arguments : Nat} :
    c.understands name arguments = true ↔ ∃ m, c.method? name = some m ∧ m.arity = arguments := by
  simp [understands, Option.any_eq_true]

end Class

/-! ## The checks of a call -/

section Checks

variable {c : Class} {name : String} {args : List Value}

theorem dispatch_eq_ok_iff {method : Method} :
    Run.dispatch c name args = .ok method
      ↔ c.method? name = some method ∧ method.arity = args.length := by
  unfold Run.dispatch
  cases c.method? name with
  | none => simp
  | some m =>
      by_cases h : m.arity = args.length
      · simp only [if_pos h, Except.ok.injEq, Option.some.injEq]
        exact ⟨fun hm => ⟨hm, hm ▸ h⟩, And.left⟩
      · simp only [if_neg h, reduceCtorEq, Option.some.injEq, false_iff, not_and]
        exact fun hm => hm ▸ h

theorem dispatch_eq_undefined_iff :
    Run.dispatch c name args = .error (.undefinedMethod c.name name) ↔ c.method? name = none := by
  unfold Run.dispatch
  cases c.method? name with
  | none => simp
  | some m =>
      by_cases h : m.arity = args.length
      · simp [if_pos h]
      · simp [if_neg h]

theorem dispatch_eq_mismatch_iff {expected : Nat} :
    Run.dispatch c name args = .error (.arityMismatch c.name name expected args.length)
      ↔ ∃ m, c.method? name = some m ∧ m.arity = expected ∧ expected ≠ args.length := by
  unfold Run.dispatch
  cases c.method? name with
  | none => simp
  | some m =>
      by_cases h : m.arity = args.length
      · simp only [if_pos h, reduceCtorEq, Option.some.injEq, false_iff]
        rintro ⟨_, rfl, rfl, hne⟩
        exact hne h
      · simp only [if_neg h, Except.error.injEq, RuntimeError.arityMismatch.injEq, Option.some.injEq,
          true_and, and_true]
        constructor
        · rintro rfl
          exact ⟨m, rfl, rfl, h⟩
        · rintro ⟨_, rfl, hm, -⟩
          exact hm

/-- A call fails one of the two checks, in this order. -/
theorem eq_of_dispatch_eq_error {e : RuntimeError} (h : Run.dispatch c name args = .error e) :
    e = .undefinedMethod c.name name
      ∨ ∃ expected, e = .arityMismatch c.name name expected args.length := by
  unfold Run.dispatch at h
  split at h
  · cases h
    exact .inl rfl
  · next m _ =>
      split at h
      · cases h
      · cases h
        exact .inr ⟨m.arity, rfl⟩

theorem understands_iff_dispatch (c : Class) (name : String) (args : List Value) :
    c.understands name args.length = true ↔ ∃ method, Run.dispatch c name args = .ok method := by
  simp only [Class.understands_iff, dispatch_eq_ok_iff]

/-- A call that passes the checks runs the body. -/
theorem invoke_of_dispatch_ok {method : Method} (h : Run.dispatch c name args = .ok method)
    (depth : Nat) (address : Address) :
    invoke (depth + 1) (.inst c address) name args = (do
      Run.notice (.calling c.name name args.length)
      Run.body (eval depth method.body) (method.locals (.inst c address) args)) := by
  rw [invoke, h]
  rfl

theorem invoke_of_dispatch_error {e : RuntimeError} (h : Run.dispatch c name args = .error e)
    (depth : Nat) (address : Address) (m : Machine) :
    invoke (depth + 1) (.inst c address) name args m = .error (.error e) m := by
  rw [invoke, h]
  rfl

end Checks

/-! ## Calls that leave everything as it was -/

/-- There are at least as many notices on the second machine. -/
def Machine.Notes (m m' : Machine) : Prop :=
  m.notices.size ≤ m'.notices.size

theorem Machine.Notes.refl (m : Machine) : m.Notes m :=
  Nat.le_refl _

theorem Machine.Notes.trans {m₁ m₂ m₃ : Machine} (h : m₁.Notes m₂) (h' : m₂.Notes m₃) :
    m₁.Notes m₃ :=
  Nat.le_trans h h'

/-- No step takes a notice back. -/
theorem notes_composition :
    Composition (fun p => Moves Machine.Notes p)
      (fun p => Moves (fun f g => f.machine.Notes g.machine) p) where
  runPure _ := .refl
  runBind := Moves.bind .trans
  runThrow _ := .refl
  notice n m := by
    show m.notices.size ≤ (m.notices.push n).size
    rw [Array.size_push]
    exact Nat.le_succ _
  create _ := .refl
  setField _ _ _ := .refl
  writeLine text m := by
    unfold Run.writeLine
    split
    · exact .refl m
    · exact .refl m
  body hstep locals m := by
    rw [body_eq_leave, endOf_leave]
    exact hstep ⟨locals, m⟩
  pure _ _ := .refl _
  bind := Moves.bind .trans
  throw _ _ := .refl _
  ofRun hp f := by
    show f.machine.Notes (endOf (Exec.ofRun _ f)).machine
    rw [endOf_ofRun]
    exact hp f.machine
  lookup path :=
    moves_look (fun _ => .refl _) (fun f => f.scope.lookup f.machine.store path) fun _ => rfl
  lookupInstance path :=
    moves_look (fun _ => .refl _) (fun f => f.scope.lookupInstance f.machine.store path) fun _ => rfl
  assign _ _ _ := .refl _

section Refusal

variable {c : Class} {name : String} {args : List Value}

/-- A call that goes on to a body leaves a notice. -/
theorem endOf_invoke_ne {method : Method} (h : Run.dispatch c name args = .ok method)
    (depth : Nat) (address : Address) (m : Machine) :
    endOf (invoke (depth + 1) (.inst c address) name args m) ≠ m := by
  intro hend
  let noticed : Machine := { m with notices := m.notices.push (.calling c.name name args.length) }
  have hbody := notes_composition.body ((notes_composition.evaluation depth).eval method.body)
    (method.locals (.inst c address) args) noticed
  have hinvoke : invoke (depth + 1) (.inst c address) name args m
      = Run.body (eval depth method.body) (method.locals (.inst c address) args) noticed := by
    rw [invoke_of_dispatch_ok h]
    rfl
  rw [← hinvoke, hend] at hbody
  have hgrown : (m.notices.push (.calling c.name name args.length)).size ≤ m.notices.size := hbody
  rw [Array.size_push] at hgrown
  exact Nat.not_succ_le_self _ hgrown

/-- A call that fails and leaves everything as it was has not passed the checks. -/
theorem ofRun_invoke_eq_error_iff (depth : Nat) (address : Address) (f : Frame) (e : RuntimeError) :
    Exec.ofRun (invoke (depth + 1) (.inst c address) name args) f = .error (.fault (.error e)) f
      ↔ Run.dispatch c name args = .error e := by
  constructor
  · intro hrun
    have hend : endOf (invoke (depth + 1) (.inst c address) name args f.machine) = f.machine := by
      rw [← endOf_ofRun, hrun]
      rfl
    cases hdispatch : Run.dispatch c name args with
    | ok method => exact absurd hend (endOf_invoke_ne hdispatch depth address f.machine)
    | error e' =>
        rw [ofRun_eq, invoke_of_dispatch_error hdispatch] at hrun
        cases hrun
        rfl
  · intro hdispatch
    rw [ofRun_eq, invoke_of_dispatch_error hdispatch]

end Refusal

/-! ## Those who ask first -/

namespace Order

variable {σ : Type} {call call' : Caller σ}

/-- The two callers do the same for the calls that pass the checks. -/
def Alike (call call' : Caller σ) : Prop :=
  ∀ (c : Class) (address : Address) (name : String) (args : List Value) (method : Method),
    Run.dispatch c name args = .ok method →
      call (.inst c address) name args = call' (.inst c address) name args

theorem ask_congr (h : Alike call call') (left right : Value) (method : String) :
    ask call left right method = ask call' left right method := by
  cases left with
  | inst c address =>
      rw [ask, ask]
      by_cases hunderstands : c.understands method 1 = true
      · rcases (understands_iff_dispatch c method [right]).mp hunderstands with ⟨m, hm⟩
        rw [h c address method [right] m hm]
      · rw [if_neg hunderstands, if_neg hunderstands]
  | _ => rfl

theorem less_congr (h : Alike call call') (left right : Value) :
    less call left right = less call' left right := by
  rw [less, less, ask_congr h]

theorem equal_congr (h : Alike call call') (left right : Value) :
    equal call left right = equal call' left right := by
  rw [equal, equal, ask_congr h]

theorem lessEqual_congr (h : Alike call call') (left right : Value) :
    lessEqual call left right = lessEqual call' left right := by
  rw [lessEqual, lessEqual, less_congr h, equal_congr h]

theorem greater_congr (h : Alike call call') (left right : Value) :
    greater call left right = greater call' left right := by
  rw [greater, greater, less_congr h, equal_congr h]

/-- A comparison makes no call that does not pass the checks. -/
theorem compare_congr (h : Alike call call') (op : Relation) (left right : Value) :
    compare call op left right = compare call' op left right := by
  cases op with
  | less => exact less_congr h left right
  | lessEqual => exact lessEqual_congr h left right
  | greater => exact greater_congr h left right
  | greaterEqual => rw [compare, compare, less_congr h]
  | equal => exact equal_congr h left right
  | notEqual => rw [compare, compare, equal_congr h]

end Order

section Rendering

variable {c : Class}

theorem render_of_dispatch_ok {method : Method} (h : Run.dispatch c "__str__" [] = .ok method)
    (depth : Nat) (address : Address) :
    render (depth + 2) (.inst c address) = (do
      Run.notice (.calling c.name "__str__" 0)
      let shown ← Run.body (eval depth method.body) (method.locals (.inst c address) [])
      render (depth + 1) shown) := by
  have hunderstands : c.understands "__str__" 0 = true :=
    (understands_iff_dispatch c "__str__" []).mpr ⟨method, h⟩
  rw [render]
  simp only [if_pos hunderstands]
  rw [invoke_of_dispatch_ok h]
  rfl

theorem render_of_not_understands (h : ¬c.understands "__str__" 0 = true) (depth : Nat) (address : Address) :
    render (depth + 1) (.inst c address) = pure (Value.inst c address).text := by
  rw [render]
  simp only [if_neg h]

end Rendering

/-! ## Calls on the receiver -/

theorem eval_each_keeps (depth : Nat) {args : List Node} {name : String}
    (h : ∀ x ∈ args, ¬x.Binds name) (f : Frame) :
    (endOf (Exec.each (eval depth) args f)).scope.get? name = f.scope.get? name := by
  let binds (other : String) : Prop := other ≠ name
  have hwithin : Exec.Within (fun _ => True) binds (Exec.each (eval depth) args) := by
    refine (Exec.closed_within _ _).each fun x hx => (within_eval depth x).mono (fun _ _ => trivial) ?_
    rintro other hbinds rfl
    exact h x hx hbinds
  exact hwithin.get?_eq f fun hne => hne rfl

/-- The value of a bound name is looked up once more each time. -/
theorem lookup_name {name : String} {value : Value} {f : Frame}
    (h : f.scope.get? name = some value) : Exec.lookup [name] f = .ok value f := by
  have hlookup : f.scope.lookup f.machine.store [name] = .ok value := by
    rw [Scope.lookup, h]
    rfl
  show Exec.ofExcept (f.scope.lookup f.machine.store [name]) f = _
  rw [hlookup]
  rfl

/-- Where a name is bound to a value, a call on the name is one of the method of that value. -/
theorem eval_call_name {name : String} {value : Value} {f : Frame}
    (h : f.scope.get? name = some value) (depth : Nat) (method : String) {args : List Node}
    (hargs : ∀ x ∈ args, ¬x.Binds name) :
    eval (depth + 1) (.call (.variable [name]) method args) f
      = (do
          let values ← Exec.each (eval depth) args
          Exec.ofRun (invoke depth value method values) : Exec Value) f := by
  have hkept := eval_each_keeps depth hargs f
  rw [eval]
  cases hvalues : Exec.each (eval depth) args f with
  | error e g => rw [bind_of_error hvalues, bind_of_error hvalues]
  | ok values g =>
      rw [bind_of_ok hvalues, bind_of_ok hvalues]
      rw [hvalues] at hkept
      cases depth with
      | zero =>
          rw [eval, invoke]
          rfl
      | succ depth =>
          have hreceiver : eval (depth + 1) (.variable [name]) g = .ok value g := by
            rw [eval]
            exact lookup_name (hkept.trans h)
          exact bind_of_ok hreceiver

/-! ## Dispatch -/

/-- What calls of the methods of an instance come to whose exact class is this one. -/
structure Class.Dispatch (c : Class) : Prop where
  /-- The chosen method runs if it takes that many arguments. Its body knows the instance as `self`. -/
  run (name : String) (method : Method) (args : List Value) (h : c.Chooses name method)
    (harity : method.arity = args.length) (depth : Nat) (address : Address) :
    (invoke (depth + 1) (.inst c address) name args = do
      Run.notice (.calling c.name name args.length)
      Run.body (eval depth method.body) (method.locals (.inst c address) args))
    ∧ (receiverName ∉ method.explicitParams →
      (method.locals (.inst c address) args).get? receiverName = some (.inst c address))
  /-- The call fails with everything as it was, for want of a method, exactly when no class of the chain
  has one. -/
  undefined (name : String) (args : List Value) (depth : Nat) (address : Address) (f : Frame) :
    Exec.ofRun (invoke (depth + 1) (.inst c address) name args) f
        = .error (.fault (.error (.undefinedMethod c.name name))) f
      ↔ ∀ d ∈ c.lineage, d.own? name = none
  /-- It does so for its arguments exactly when the chosen method takes another number of them, whatever
  classes farther up define. -/
  mismatch (name : String) (args : List Value) (depth : Nat) (address : Address) (f : Frame)
      (expected : Nat) :
    Exec.ofRun (invoke (depth + 1) (.inst c address) name args) f
        = .error (.fault (.error (.arityMismatch c.name name expected args.length))) f
      ↔ ∃ method, c.Chooses name method ∧ method.arity = expected ∧ expected ≠ args.length
  /-- It does so for no other reason. -/
  noOther (name : String) (args : List Value) (depth : Nat) (address : Address) (f : Frame)
      (e : RuntimeError) :
    Exec.ofRun (invoke (depth + 1) (.inst c address) name args) f = .error (.fault (.error e)) f →
      e = .undefinedMethod c.name name
        ∨ ∃ expected, e = .arityMismatch c.name name expected args.length
  /-- Where `self` is this instance, a call on it goes the same way. It is so until the name is bound
  anew. -/
  onReceiver (depth : Nat) (address : Address) (f : Frame)
    (hself : f.scope.get? receiverName = some (.inst c address)) :
    (∀ name args, (∀ x ∈ args, ¬x.Binds receiverName) →
      eval (depth + 1) (.call (.variable [receiverName]) name args) f
        = (do
            let values ← Exec.each (eval depth) args
            Exec.ofRun (invoke depth (.inst c address) name values) : Exec Value) f)
    ∧ ∀ x, ¬x.Binds receiverName →
      (endOf (eval depth x f)).scope.get? receiverName = some (.inst c address)
  /-- Asking whether there is a method answers whether a call passes both checks. -/
  understood (name : String) (args : List Value) :
    c.understands name args.length = true
      ↔ ∃ method, c.Chooses name method ∧ Run.dispatch c name args = .ok method
  /-- No comparison makes a call that fails before the body. -/
  compared {σ : Type} (call call' : Caller σ) (h : Order.Alike call call') (op : Relation)
    (address : Address) (right : Value) :
    Order.compare call op (.inst c address) right = Order.compare call' op (.inst c address) right
  /-- Nor does the rendering of the instance, which is by a chosen method without parameters, if there is
  one. -/
  rendered (address : Address) :
    (∃ method, c.Chooses "__str__" method ∧ method.arity = 0
      ∧ ∀ depth, render (depth + 2) (.inst c address) = do
        Run.notice (.calling c.name "__str__" 0)
        let shown ← Run.body (eval depth method.body) (method.locals (.inst c address) [])
        render (depth + 1) shown)
    ∨ ((∀ method, c.Chooses "__str__" method → method.arity ≠ 0)
      ∧ ∀ depth, render (depth + 1) (.inst c address) = pure (Value.inst c address).text)

/-- Calls go to the nearest class that defines the method, and to no other. -/
theorem Class.dispatches_to_nearest (c : Class) : c.Dispatch where
  run name method args h harity depth address := by
    have hdispatch := dispatch_eq_ok_iff.mpr ⟨chooses_iff.mp h, harity⟩
    exact ⟨invoke_of_dispatch_ok hdispatch depth address, (Method.holdsLast_locals harity).receiver⟩
  undefined name args depth address f := by
    rw [ofRun_invoke_eq_error_iff, dispatch_eq_undefined_iff, method?_eq_none_iff]
  mismatch name args depth address f expected := by
    rw [ofRun_invoke_eq_error_iff, dispatch_eq_mismatch_iff]
    simp only [chooses_iff]
  noOther name args depth address f e h :=
    eq_of_dispatch_eq_error ((ofRun_invoke_eq_error_iff depth address f e).mp h)
  onReceiver depth address f hself :=
    ⟨fun name args hargs => eval_call_name hself depth name hargs, fun x hx =>
      ((within_eval depth x).get?_eq f hx).trans hself⟩
  understood name args := by
    simp only [understands_iff_dispatch, dispatch_eq_ok_iff, chooses_iff, and_self_left]
  compared _ _ h op address right := Order.compare_congr h op (.inst c address) right
  rendered address := by
    by_cases hunderstands : c.understands "__str__" 0 = true
    · rcases (understands_iff_dispatch c "__str__" []).mp hunderstands with ⟨method, hdispatch⟩
      rcases dispatch_eq_ok_iff.mp hdispatch with ⟨hmethod, harity⟩
      exact .inl ⟨method, chooses_iff.mpr hmethod, harity, fun depth =>
        render_of_dispatch_ok hdispatch depth address⟩
    · refine .inr ⟨fun method hchosen harity => hunderstands ?_, fun depth =>
        render_of_not_understands hunderstands depth address⟩
      exact understands_iff.mpr ⟨method, chooses_iff.mp hchosen, harity⟩

/-- A method is overridden by one of another arity, and an inherited method calls it on `self`. -/
theorem Class.dispatches_to_nearest_override :
    let far : Method := ⟨"f", ["self"], .block [.ret (.constant (.int 1))]⟩
    let near : Method := ⟨"f", ["self", "x"], .block [.ret (.variable ["x"])]⟩
    let caller : Method := ⟨"g", ["self"], .block [.ret (.call (.variable ["self"]) "f" [])]⟩
    let a : Class := ⟨"A", none, [far, caller]⟩
    let b : Class := ⟨"B", some a, [near]⟩
    let here : Address := ⟨0, 0⟩
    let f : Frame := ⟨caller.locals (.inst b here) [], .writingTo .unlimited id⟩
    b.Chooses "g" caller ∧ a.Chooses "f" far ∧ b.Chooses "f" near
      ∧ eval 3 (.call (.variable ["self"]) "f" []) f
        = .error (.fault (.error (.arityMismatch "B" "f" 1 0))) f
      ∧ Exec.ofRun (invoke 3 (.inst b here) "h" []) f
        = .error (.fault (.error (.undefinedMethod "B" "h"))) f
      ∧ b.understands "f" 1 = true := by
  intro far near caller a b here f
  have hcaller : b.Chooses "g" caller := chooses_iff.mpr rfl
  have hfar : a.Chooses "f" far := chooses_iff.mpr rfl
  have hnear : b.Chooses "f" near := chooses_iff.mpr rfl
  have hself : f.scope.get? receiverName = some (.inst b here) :=
    ((dispatches_to_nearest b).run "g" caller [] hcaller rfl 0 here).2 (by decide)
  have hmismatch : Exec.ofRun (invoke 2 (.inst b here) "f" []) f
      = .error (.fault (.error (.arityMismatch "B" "f" 1 0))) f :=
    ((dispatches_to_nearest b).mismatch "f" [] 1 here f 1).mpr ⟨near, hnear, rfl, by decide⟩
  have hcall := ((dispatches_to_nearest b).onReceiver 2 here f hself).1 "f" [] (by simp)
  refine ⟨hcaller, hfar, hnear, hcall.trans hmismatch, ?_, ?_⟩
  · refine ((dispatches_to_nearest b).undefined "h" [] 2 here f).mpr fun d hd => ?_
    have hlineage : b.lineage = [b, a] := rfl
    rw [hlineage] at hd
    rcases List.mem_cons.mp hd with rfl | hd
    · rfl
    · cases List.mem_singleton.mp hd
      rfl
  · exact ((dispatches_to_nearest b).understood "f" [.none]).mpr ⟨near, hnear, rfl⟩

end Offside
