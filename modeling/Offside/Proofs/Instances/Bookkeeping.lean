import Offside.Proofs.Evaluation.Record
import Offside.Proofs.Instances.Census

/-!
# Bookkeeping — what holds of evaluations that follow the census

Some statements about a step need to know which instances there are when it starts, and say in turn which
ones there are when it has ended.  This file treats such statements without saying what they are:

- `Bookkeeping` : in each census the statement holds of the steps of the evaluator and of what is composed
  of them; what a step gives in the end may be used by the steps behind it, in a census that may have grown
- `Bookkeeping.eval_succ`, `Bookkeeping.invoke_succ` : the statement holds of a node if it holds of its
  children, and of a call if it holds of the bodies that there are

The steps are given for all depths together, as the statement may be about one depth or about all of them.
How nodes, calls and renderings depend on each other is left open: one may go down from depth to depth, or
from a node to its children.
-/

namespace Offside

open Recorded (silent)

/-- Evaluating the node by itself runs no method. -/
def Node.isQuiet : Node → Bool
  | .call .. | .construct .. | .stringify _ | .print _ | .comparison .. => false
  | _ => true

/-- What holds in a census holds when it grows. -/
def Persists {α : Type} (Q : Census → α → Prop) : Prop :=
  ∀ (κ κ' : Census) (x : α), κ.Extends κ' → Q κ x → Q κ' x

theorem persists_listed : Persists fun κ value => Value.Listed κ value :=
  fun _ _ _ hκ h => h.extend hκ

/-- In each census the statement `R` holds of the steps of a machine and the statement `E` of those of a
frame, with what holds of the values that they give, and both hold of what is composed of such steps. -/
structure Bookkeeping (K : Class → Prop)
    (R : ∀ {α : Type}, Census → (Census → α → Prop) → (Nat → RecordedRun α) → Prop)
    (E : ∀ {α : Type}, Census → (Census → α → Prop) → (Nat → RecordedExec α) → Prop) : Prop where
  runPure {α : Type} {κ : Census} {Q : Census → α → Prop} {x : α} (h : Q κ x) :
    R κ Q fun _ => (pure x : RecordedRun α)
  runBind {α β : Type} {κ : Census} {Q : Census → α → Prop} {S : Census → β → Prop}
    {P : Nat → RecordedRun α} {F : Nat → α → RecordedRun β} (hp : R κ Q P)
    (hf : ∀ κ', κ.Extends κ' → ∀ x, Q κ' x → R κ' S fun depth => F depth x) :
    R κ S fun depth => P depth >>= F depth
  runOfExcept {α : Type} {κ : Census} {Q : Census → α → Prop} {x : Except RuntimeError α}
    (hx : κ.Closed K → ∀ a, x = .ok a → Q κ a) : R κ Q fun _ => silent (Run.ofExcept x)
  notice {κ : Census} (n : Notice) : R κ (fun _ _ => True) fun _ => silent (Run.notice n)
  create {κ : Census} {c : Class} (hc : K c) :
    R κ (fun κ value => value.Listed κ) fun _ => Recorded.create c
  setField {κ : Census} {c : Class} {address : Address} (haddress : (Value.inst c address).Listed κ)
    (field : String) {value : Value} (hvalue : value.Listed κ) :
    R κ (fun _ _ => True) fun _ => Recorded.setField address field value
  writeTexts {κ : Census} (texts : List String) :
    R κ (fun _ _ => True) fun _ => Recorded.writeTexts texts
  body {κ : Census} {P : Nat → RecordedExec Value} {locals : Scope}
    (hp : E κ (fun κ value => value.Listed κ) P) (hlocals : locals.Listed κ) :
    R κ (fun κ value => value.Listed κ) fun depth => Recorded.body (P depth) locals
  pure {α : Type} {κ : Census} {Q : Census → α → Prop} {x : α} (h : Q κ x) :
    E κ Q fun _ => (pure x : RecordedExec α)
  bind {α β : Type} {κ : Census} {Q : Census → α → Prop} {S : Census → β → Prop}
    {P : Nat → RecordedExec α} {F : Nat → α → RecordedExec β} (hp : E κ Q P)
    (hf : ∀ κ', κ.Extends κ' → ∀ x, Q κ' x → E κ' S fun depth => F depth x) :
    E κ S fun depth => P depth >>= F depth
  returned {α : Type} {κ : Census} {Q : Census → α → Prop} {value : Value}
    (hvalue : value.Listed κ) : E κ Q fun _ => silent (throw (.returned value))
  ofRun {α : Type} {κ : Census} {Q : Census → α → Prop} {P : Nat → RecordedRun α} (hp : R κ Q P) :
    E κ Q fun depth => Recorded.ofRun (P depth)
  lookup {κ : Census} (path : List String) :
    E κ (fun κ value => value.Listed κ) fun _ => silent (Exec.lookup path)
  lookupInstance {κ : Census} (path : List String) :
    E κ (fun κ address => ∃ c, (Value.inst c address).Listed κ)
      fun _ => silent (Exec.lookupInstance path)
  assign {κ : Census} (name : String) {value : Value} (hvalue : value.Listed κ) :
    E κ (fun _ _ => True) fun _ => silent (Exec.bind name value)

/-- The statement holds of the calls on listed values. -/
def OnCalls (R : ∀ {α : Type}, Census → (Census → α → Prop) → (Nat → RecordedRun α) → Prop) : Prop :=
  ∀ {κ : Census} {receiver : Value} (name : String) {args : List Value}, receiver.Listed κ →
    (∀ a ∈ args, a.Listed κ) →
      R κ (fun κ value => value.Listed κ) fun depth => Recorded.invoke depth receiver name args

/-- The statement holds of the renderings of listed values. -/
def OnRenderings (R : ∀ {α : Type}, Census → (Census → α → Prop) → (Nat → RecordedRun α) → Prop) :
    Prop :=
  ∀ {κ : Census} {value : Value}, value.Listed κ →
    R κ (fun _ _ => True) fun depth => Recorded.render depth value

/-- The statement holds of the evaluations of a node in all that the census can grow to. -/
def OnNode (E : ∀ {α : Type}, Census → (Census → α → Prop) → (Nat → RecordedExec α) → Prop)
    (κ : Census) (x : Node) : Prop :=
  ∀ κ', κ.Extends κ' → E κ' (fun κ value => value.Listed κ) fun depth => Recorded.eval depth x

namespace Bookkeeping

variable {K : Class → Prop}
  {R : ∀ {α : Type}, Census → (Census → α → Prop) → (Nat → RecordedRun α) → Prop}
  {E : ∀ {α : Type}, Census → (Census → α → Prop) → (Nat → RecordedExec α) → Prop} {κ : Census}

theorem runFail (h : Bookkeeping K @R @E) {α : Type} {Q : Census → α → Prop} (e : RuntimeError) :
    R κ Q fun _ => silent (throw (.error e)) :=
  h.runOfExcept (x := .error e) fun _ _ hx => absurd hx nofun

theorem ofExcept (h : Bookkeeping K @R @E) {α : Type} {Q : Census → α → Prop}
    {x : Except RuntimeError α} (hx : ∀ a, x = .ok a → Q κ a) :
    E κ Q fun _ => silent (Exec.ofExcept x) :=
  h.ofRun (P := fun _ => silent (Run.ofExcept x)) (h.runOfExcept fun _ => hx)

/-! ## Repetition -/

theorem block (h : Bookkeeping K @R @E) {statements : List Node}
    (hstatements : ∀ x ∈ statements, OnNode @E κ x) :
    E κ (fun κ value => value.Listed κ)
      fun depth => Recorded.block (Recorded.eval depth) statements := by
  induction statements generalizing κ with
  | nil => exact h.pure trivial
  | cons statement rest ih =>
      have hfirst := hstatements statement List.mem_cons_self κ (.refl κ)
      refine h.bind hfirst fun κ₁ hκ₁ _ _ => ih fun x hx κ₂ hκ₂ => ?_
      exact hstatements x (List.mem_cons_of_mem _ hx) κ₂ (hκ₁.trans hκ₂)

theorem each (h : Bookkeeping K @R @E) {α β : Type} {S : Census → β → Prop} (hS : Persists S)
    {F : Nat → α → RecordedExec β} {xs : List α}
    (hF : ∀ κ', κ.Extends κ' → ∀ x ∈ xs, E κ' S fun depth => F depth x) :
    E κ (fun κ ys => ∀ y ∈ ys, S κ y) fun depth => Recorded.each (F depth) xs := by
  induction xs generalizing κ with
  | nil => exact h.pure fun y hy => absurd hy List.not_mem_nil
  | cons x xs ih =>
      refine h.bind (hF κ (.refl κ) x List.mem_cons_self) fun κ₁ hκ₁ y hy => ?_
      have hrest := ih fun κ₂ hκ₂ x hx => hF κ₂ (hκ₁.trans hκ₂) x (List.mem_cons_of_mem _ hx)
      refine h.bind hrest fun κ₂ hκ₂ ys hys => h.pure ?_
      exact List.forall_mem_cons.mpr ⟨hS _ _ y hκ₂ hy, hys⟩

/-- The values of arguments, one after the other. -/
theorem values (h : Bookkeeping K @R @E) {args : List Node} (hargs : ∀ x ∈ args, OnNode @E κ x) :
    E κ (fun κ values => ∀ value ∈ values, value.Listed κ)
      fun depth => Recorded.each (Recorded.eval depth) args :=
  h.each persists_listed fun κ' hκ' x hx => hargs x hx κ' hκ'

/-! ## Comparison -/

section Comparison

variable {left right : Value}

theorem ask (h : Bookkeeping K @R @E) (hcalls : OnCalls @R) (hleft : left.Listed κ)
    (hright : right.Listed κ) (method : String) :
    R κ (fun _ _ => True) fun depth => Recorded.ask (Recorded.invoke depth) left right method := by
  cases left with
  | inst c address =>
      by_cases hunderstands : c.understands method 1 = true
      · simp only [Recorded.ask, if_pos hunderstands]
        have hargs : ∀ a ∈ [right], a.Listed κ := List.forall_mem_singleton.mpr hright
        exact h.runBind (hcalls method hleft hargs) fun _ _ _ _ => h.runPure trivial
      · simp only [Recorded.ask, if_neg hunderstands]
        exact h.runPure trivial
  | _ => exact h.runPure trivial

theorem less (h : Bookkeeping K @R @E) (hcalls : OnCalls @R) (hleft : left.Listed κ)
    (hright : right.Listed κ) :
    R κ (fun _ _ => True) fun depth => Recorded.less (Recorded.invoke depth) left right := by
  unfold Recorded.less
  cases left.order? right with
  | some o => exact h.runPure trivial
  | none =>
      refine h.runBind (h.ask hcalls hleft hright "__lt__") fun _ _ answer _ => ?_
      cases answer with
      | some answer => exact h.runPure trivial
      | none => exact h.runFail _

theorem equal (h : Bookkeeping K @R @E) (hcalls : OnCalls @R) (hleft : left.Listed κ)
    (hright : right.Listed κ) :
    R κ (fun _ _ => True) fun depth => Recorded.equal (Recorded.invoke depth) left right := by
  unfold Recorded.equal
  cases left.order? right with
  | some o => exact h.runPure trivial
  | none =>
      refine h.runBind (h.ask hcalls hleft hright "__eq__") fun _ _ answer _ => ?_
      cases answer with
      | some answer => exact h.runPure trivial
      | none =>
          by_cases hnone : (left.isNone && right.isNone) = true
          · simp only [if_pos hnone]
            exact h.runPure trivial
          · simp only [if_neg hnone]
            exact h.runFail _

theorem lessEqual (h : Bookkeeping K @R @E) (hcalls : OnCalls @R) (hleft : left.Listed κ)
    (hright : right.Listed κ) :
    R κ (fun _ _ => True) fun depth => Recorded.lessEqual (Recorded.invoke depth) left right := by
  refine h.runBind (h.less hcalls hleft hright) fun κ' hκ' smaller _ => ?_
  cases smaller with
  | true => exact h.runPure trivial
  | false => exact h.equal hcalls (hleft.extend hκ') (hright.extend hκ')

theorem greater (h : Bookkeeping K @R @E) (hcalls : OnCalls @R) (hleft : left.Listed κ)
    (hright : right.Listed κ) :
    R κ (fun _ _ => True) fun depth => Recorded.greater (Recorded.invoke depth) left right := by
  refine h.runBind (h.less hcalls hleft hright) fun κ' hκ' smaller _ => ?_
  cases smaller with
  | true => exact h.runPure trivial
  | false =>
      exact h.runBind (h.equal hcalls (hleft.extend hκ') (hright.extend hκ')) fun _ _ _ _ =>
        h.runPure trivial

theorem compare (h : Bookkeeping K @R @E) (hcalls : OnCalls @R) (op : Relation)
    (hleft : left.Listed κ) (hright : right.Listed κ) :
    R κ (fun _ _ => True) fun depth => Recorded.compare (Recorded.invoke depth) op left right := by
  have hless := h.less hcalls hleft hright
  have hequal := h.equal hcalls hleft hright
  cases op with
  | less => exact hless
  | lessEqual => exact h.lessEqual hcalls hleft hright
  | greater => exact h.greater hcalls hleft hright
  | greaterEqual => exact h.runBind hless fun _ _ _ _ => h.runPure trivial
  | equal => exact hequal
  | notEqual => exact h.runBind hequal fun _ _ _ _ => h.runPure trivial

end Comparison

/-! ## Nodes -/

theorem construct_succ (h : Bookkeeping K @R @E) (hcalls : OnCalls @R) {c : Class} (hc : K c)
    {args : List Node} (hargs : ∀ x ∈ args, OnNode @E κ x) :
    E κ (fun κ value => value.Listed κ)
      fun depth => Recorded.eval (depth + 1) (.construct c args) := by
  simp only [Recorded.eval]
  refine h.bind (h.ofRun (h.notice _)) fun κ₁ hκ₁ _ _ => ?_
  refine h.bind (h.ofRun (h.create hc)) fun κ₂ hκ₂ created hcreated => ?_
  cases c.method? "__init__" with
  | none => exact h.pure hcreated
  | some m =>
      have hvalues := h.values (κ := κ₂) fun x hx κ₃ hκ₃ =>
        hargs x hx κ₃ ((hκ₁.trans hκ₂).trans hκ₃)
      refine h.bind hvalues fun κ₃ hκ₃ values hvalues => ?_
      have hcreated := hcreated.extend hκ₃
      exact h.bind (h.ofRun (hcalls "__init__" hcreated hvalues)) fun κ₄ hκ₄ _ _ =>
        h.pure (hcreated.extend hκ₄)

theorem ifElse_succ (h : Bookkeeping K @R @E) {condition thenBody : Node} {elseBody : Option Node}
    (hchildren : ∀ x ∈ (Node.ifElse condition thenBody elseBody).children, OnNode @E κ x) :
    E κ (fun κ value => value.Listed κ)
      fun depth => Recorded.eval (depth + 1) (.ifElse condition thenBody elseBody) := by
  have hcondition := hchildren condition List.mem_cons_self κ (.refl κ)
  have hbody : ∀ body ∈ (Node.ifElse condition thenBody elseBody).children, ∀ κ', κ.Extends κ' →
      E κ' (fun κ value => value.Listed κ)
        fun depth => (do let _ ← Recorded.eval depth body; return Value.none) := by
    intro body hmem κ' hκ'
    exact h.bind (hchildren body hmem κ' hκ') fun _ _ _ _ => h.pure trivial
  cases elseBody with
  | none =>
      simp only [Recorded.eval]
      refine h.bind hcondition fun κ' hκ' a _ => ?_
      by_cases ha : a.truthy = true
      · simp only [if_pos ha]
        exact hbody thenBody (by simp [Node.children]) κ' hκ'
      · simp only [if_neg ha]
        exact h.pure trivial
  | some body =>
      simp only [Recorded.eval]
      refine h.bind hcondition fun κ' hκ' a _ => ?_
      by_cases ha : a.truthy = true
      · simp only [if_pos ha]
        exact hbody thenBody (by simp [Node.children]) κ' hκ'
      · simp only [if_neg ha]
        exact hbody body (by simp [Node.children]) κ' hκ'

/-- The statement holds of a node that hands on listed values if it holds of its children, and of calls
and renderings if the node runs methods. -/
theorem eval_succ (h : Bookkeeping K @R @E) {x : Node} (hx : x.Backed κ K)
    (hcalls : x.isQuiet = false → OnCalls @R) (hrenderings : OnRenderings @R)
    (hchildren : ∀ y ∈ x.children, OnNode @E κ y) :
    E κ (fun κ value => value.Listed κ) fun depth => Recorded.eval (depth + 1) x := by
  -- Each child is evaluated in the census that the children before it have left.
  cases x with
  | construct c args => exact h.construct_succ (hcalls rfl) hx hchildren
  | ifElse condition thenBody elseBody => exact h.ifElse_succ hchildren
  | constant value =>
      simp only [Recorded.eval]
      exact h.pure hx
  | none =>
      simp only [Recorded.eval]
      exact h.pure trivial
  | «variable» path =>
      simp only [Recorded.eval]
      exact h.lookup path
  | arithmetic op left right =>
      simp only [Recorded.eval]
      refine h.bind (hchildren left List.mem_cons_self κ (.refl κ)) fun κ₁ hκ₁ a _ => ?_
      refine h.bind (hchildren right (by simp [Node.children]) κ₁ hκ₁) fun _ _ b _ => ?_
      exact h.ofExcept fun value => Arithmetic.listed_apply
  | signed sign operand =>
      simp only [Recorded.eval]
      refine h.bind (hchildren operand List.mem_cons_self κ (.refl κ)) fun _ _ a _ => ?_
      exact h.ofExcept fun value => Sign.listed_apply
  | not operand =>
      simp only [Recorded.eval]
      exact h.bind (hchildren operand List.mem_cons_self κ (.refl κ)) fun _ _ _ _ => h.pure trivial
  | logical op left right =>
      simp only [Recorded.eval]
      refine h.bind (hchildren left List.mem_cons_self κ (.refl κ)) fun κ₁ hκ₁ a _ => ?_
      exact h.bind (hchildren right (by simp [Node.children]) κ₁ hκ₁) fun _ _ _ _ => h.pure trivial
  | comparison op left right =>
      simp only [Recorded.eval]
      refine h.bind (hchildren left List.mem_cons_self κ (.refl κ)) fun κ₁ hκ₁ a ha => ?_
      refine h.bind (hchildren right (by simp [Node.children]) κ₁ hκ₁) fun κ₂ hκ₂ b hb => ?_
      have hanswer := h.compare (hcalls rfl) op (ha.extend hκ₂) hb
      exact h.bind (h.ofRun hanswer) fun _ _ _ _ => h.pure trivial
  | assign name value =>
      simp only [Recorded.eval]
      refine h.bind (hchildren value List.mem_cons_self κ (.refl κ)) fun _ _ a ha => ?_
      exact h.bind (h.assign name ha) fun _ hκ _ _ => h.pure (ha.extend hκ)
  | setField path field value =>
      simp only [Recorded.eval]
      refine h.bind (hchildren value List.mem_cons_self κ (.refl κ)) fun _ _ a ha => ?_
      refine h.bind (h.lookupInstance path) fun κ₂ hκ₂ address haddress => ?_
      rcases haddress with ⟨c, hlisted⟩
      have ha := ha.extend hκ₂
      exact h.bind (h.ofRun (h.setField hlisted field ha)) fun _ hκ _ _ => h.pure (ha.extend hκ)
  | block statements =>
      simp only [Recorded.eval]
      exact h.block hchildren
  | print args =>
      simp only [Recorded.eval]
      have htexts := h.each (κ := κ) (S := fun _ (_ : String) => True)
        (F := fun depth arg => do
          let a ← Recorded.eval depth arg
          Recorded.ofRun (Recorded.render depth a))
        (fun _ _ _ _ _ => trivial) fun κ' hκ' y hy =>
          h.bind (hchildren y hy κ' hκ') fun _ _ a ha => h.ofRun (hrenderings ha)
      refine h.bind htexts fun _ _ texts _ => ?_
      exact h.bind (h.ofRun (h.writeTexts texts)) fun _ _ _ _ => h.pure trivial
  | call receiver method args =>
      simp only [Recorded.eval]
      have hall := List.forall_mem_cons.mp hchildren
      refine h.bind (h.values hall.2) fun κ₁ hκ₁ values hvalues => ?_
      refine h.bind (hall.1 κ₁ hκ₁) fun κ₂ hκ₂ target htarget => ?_
      exact h.ofRun (hcalls rfl method htarget fun a ha => (hvalues a ha).extend hκ₂)
  | stringify operand =>
      simp only [Recorded.eval]
      refine h.bind (hchildren operand List.mem_cons_self κ (.refl κ)) fun _ _ a ha => ?_
      exact h.bind (h.ofRun (hrenderings ha)) fun _ _ _ _ => h.pure trivial
  | ret value =>
      simp only [Recorded.eval]
      exact h.bind (hchildren value List.mem_cons_self κ (.refl κ)) fun _ _ a ha => h.returned ha
  | classDef c =>
      simp only [Recorded.eval]
      have hclass : (Value.cls c).Listed κ := trivial
      exact h.bind (h.assign c.name hclass) fun _ _ _ _ => h.pure trivial

/-! ## Calls -/

/-- The statement holds of a call on listed values if it holds of the bodies of the methods that there
are. -/
theorem invoke_succ (h : Bookkeeping K @R @E)
    (hbodies : ∀ c name m, κ.Closed K → K c → c.method? name = some m → OnNode @E κ m.body)
    {receiver : Value} (name : String) {args : List Value} (hreceiver : receiver.Listed κ)
    (hargs : ∀ a ∈ args, a.Listed κ) :
    R κ (fun κ value => value.Listed κ)
      fun depth => Recorded.invoke (depth + 1) receiver name args := by
  cases receiver with
  | inst c address =>
      simp only [Recorded.invoke]
      have hmethod : R κ (fun κ m => OnNode @E κ m.body)
          fun _ => silent (Run.ofExcept (Run.dispatch c name args)) := by
        refine h.runOfExcept fun hclosed m hm => ?_
        -- The class of the receiver is in the census, so it is one of those whose methods can run.
        unfold Run.dispatch at hm
        split at hm
        next => cases hm
        next method hmethod =>
          split at hm
          next =>
            cases hm
            exact hbodies c name m hclosed (hclosed.known address c hreceiver) hmethod
          next => cases hm
      refine h.runBind hmethod fun κ₁ hκ₁ m hm => h.runBind (h.notice _) fun κ₂ hκ₂ _ _ => ?_
      have hκ := hκ₁.trans hκ₂
      exact h.body (hm κ₂ hκ₂)
        (m.listed_locals (hreceiver.extend hκ) fun a ha => (hargs a ha).extend hκ)
  | _ => exact h.runFail _

end Bookkeeping

end Offside
