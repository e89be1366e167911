import Offside.Proofs.Evaluation.Output
import Offside.Proofs.Instances.Bookkeeping

/-!
# Keeping — evaluation keeps the census

A step may create instances and write fields of those that there are.  This file shows that this is all
that happens to them:

- `Event.Leads`     : the events of a record, each where it can happen, lead from one store to another
- `Keeps`           : a step adds to the census at most, all that it hands on is listed, and its events
  lead from the store before it to the store after it
- `keepsCensus`     : all evaluations, calls and renderings keep the census
-/

namespace Offside

open Recorded (silent)

variable {κ κ' : Census} {K : Class → Prop}

/-! ## Events that happen -/

namespace Event

/-- What an event changes in the store. -/
def apply : Event → Store → Store
  | creates _ _, s => s.allocate
  | stores address field value, s => s.setField address field value
  | shows _ _, s | prints _, s => s

/-- An instance gets the next address, and fields are written of instances that there are. -/
def Fits : Event → Store → Prop
  | creates _ address, s => address = s.next
  | stores address _ _, s => s.Holds address
  | shows _ _, _ | prints _, _ => True

/-- The events lead from one store to the other. -/
inductive Leads : Store → List Event → Store → Prop where
  | nil {s : Store} : Leads s [] s
  | cons {s t : Store} {event : Event} {events : List Event} (hfits : event.Fits s)
      (h : Leads (event.apply s) events t) : Leads s (event :: events) t

namespace Leads

variable {s t u : Store} {event : Event} {events later : List Event}

theorem single (h : event.Fits s) : Leads s [event] (event.apply s) :=
  .cons h .nil

theorem append (h : Leads s events t) (h' : Leads t later u) : Leads s (events ++ later) u := by
  induction h with
  | nil => exact h'
  | cons hfits _ ih => exact .cons hfits (ih h')

theorem split (h : Leads s (events ++ later) u) : ∃ t, Leads s events t ∧ Leads t later u := by
  induction events generalizing s with
  | nil => exact ⟨s, .nil, h⟩
  | cons event events ih =>
      cases h with
      | cons hfits h =>
          rcases ih h with ⟨t, hfirst, hlater⟩
          exact ⟨t, .cons hfits hfirst, hlater⟩

end Leads

end Event

/-! ## Steps that keep the census -/

/-- What a step works on: when the state is listed, the store in it, when a failure is listed, and which
failure says that the depth is used up. -/
structure Household (ε σ : Type) where
  Listed : Census → σ → Prop
  store : σ → Store
  Fails : Census → ε → Prop
  cutOff : ε

/-- Steps of a machine by itself. -/
def machines : Household Fault Machine where
  Listed κ m := m.store.Listed κ
  store := Machine.store
  Fails _ _ := True
  cutOff := .exhausted

/-- Steps of a machine within a frame, which a value may leave. -/
def frames : Household Exit Frame where
  Listed κ f := f.Listed κ
  store f := f.machine.store
  Fails κ
    | .returned value => value.Listed κ
    | .fault _ => True
  cutOff := .fault .exhausted

section Steps

variable {ε σ α β : Type} {H : Household ε σ} {Q : Census → α → Prop} {R : Census → β → Prop}

/-- The state is listed, and so is what the step gives. -/
def Household.Ends (H : Household ε σ) (κ : Census) (Q : Census → α → Prop) :
    EStateM.Result ε σ α → Prop
  | .ok x s => Q κ x ∧ H.Listed κ s
  | .error e s => H.Fails κ e ∧ H.Listed κ s

/-- From a listed state the step leads to one, with all that there was in the census. -/
def Keeps (H : Household ε σ) (K : Class → Prop) (κ : Census) (Q : Census → α → Prop)
    (p : Recorded ε σ α) : Prop :=
  κ.Closed K → ∀ s, H.Listed κ s → ∃ κ', κ.Extends κ' ∧ κ'.Closed K ∧ H.Ends κ' Q (p.step s)
    ∧ Event.Leads (H.store s) (p.events s) (H.store (endOf (p.step s)))

namespace Keeps

theorem pure {x : α} (h : Q κ x) : Keeps H K κ Q (pure x : Recorded ε σ α) :=
  fun hclosed _ hs => ⟨κ, .refl κ, hclosed, ⟨h, hs⟩, .nil⟩

theorem throw {e : ε} (h : H.Fails κ e) : Keeps H K κ Q (silent (throw e)) :=
  fun hclosed _ hs => ⟨κ, .refl κ, hclosed, ⟨h, hs⟩, .nil⟩

theorem bind {p : Recorded ε σ α} {f : α → Recorded ε σ β} (hp : Keeps H K κ Q p)
    (hf : ∀ κ', κ.Extends κ' → ∀ x, Q κ' x → Keeps H K κ' R (f x)) :
    Keeps H K κ R (p >>= f) := by
  intro hclosed s hs
  rcases hp hclosed s hs with ⟨κ₁, hκ₁, hclosed₁, hends, hleads⟩
  cases hstep : p.step s with
  | ok x t =>
      rw [hstep] at hends hleads
      rcases hf κ₁ hκ₁ x hends.1 hclosed₁ t hends.2 with ⟨κ₂, hκ₂, hclosed₂, hends₂, hleads₂⟩
      refine ⟨κ₂, hκ₁.trans hκ₂, hclosed₂, ?_, ?_⟩
      · rw [Recorded.step_bind, bind_of_ok hstep]
        exact hends₂
      · rw [Recorded.step_bind, bind_of_ok hstep, Recorded.events_bind_of_ok hstep]
        exact hleads.append hleads₂
  | error e t =>
      rw [hstep] at hends hleads
      refine ⟨κ₁, hκ₁, hclosed₁, ?_, ?_⟩
      · rw [Recorded.step_bind, bind_of_error hstep]
        exact hends
      · rw [Recorded.step_bind, bind_of_error hstep, Recorded.events_bind_of_error hstep]
        exact hleads

/-- A step that changes nothing that is listed. -/
theorem of_store_eq {p : EStateM ε σ α}
    (hends : κ.Closed K → ∀ s, H.Listed κ s → H.Ends κ Q (p s))
    (hstore : ∀ s, H.store (endOf (p s)) = H.store s) : Keeps H K κ Q (silent p) := by
  intro hclosed s hs
  refine ⟨κ, .refl κ, hclosed, hends hclosed s hs, ?_⟩
  rw [Recorded.step_silent, hstore]
  exact .nil

/-- The same where the step is an event that has no part in the store. -/
theorem of_noted {p : EStateM ε σ α} {event : σ → Event}
    (hends : ∀ s, H.Listed κ s → H.Ends κ Q (p s))
    (hstore : ∀ s, H.store (endOf (p s)) = H.store s)
    (hfits : ∀ s, (event s).Fits (H.store s))
    (happly : ∀ s, (event s).apply (H.store s) = H.store s) :
    Keeps H K κ Q (Recorded.noted event p) := by
  intro hclosed s hs
  refine ⟨κ, .refl κ, hclosed, hends s hs, ?_⟩
  rw [Recorded.step_noted, hstore]
  cases hstep : p s with
  | ok x t =>
      have hleads := Event.Leads.single (hfits s)
      rw [happly] at hleads
      rw [Recorded.events_noted_of_ok hstep]
      exact hleads
  | error e t =>
      rw [Recorded.events_noted_of_error hstep]
      exact .nil

theorem announced {p : Recorded ε σ α} {event : σ → Event} (hp : Keeps H K κ Q p)
    (hfits : ∀ s, (event s).Fits (H.store s)) (happly : ∀ s, (event s).apply (H.store s) = H.store s) :
    Keeps H K κ Q (Recorded.announced event p) := by
  intro hclosed s hs
  rcases hp hclosed s hs with ⟨κ', hκ', hclosed', hends, hleads⟩
  refine ⟨κ', hκ', hclosed', hends, .cons (hfits s) ?_⟩
  rw [happly]
  exact hleads

end Keeps

end Steps

/-! ### Steps of a machine -/

section Machines

theorem keeps_notice (n : Notice) :
    Keeps machines K κ (fun _ _ => True) (silent (Run.notice n)) :=
  .of_store_eq (fun _ _ hs => ⟨trivial, hs⟩) fun _ => rfl

theorem keeps_create {c : Class} (hc : K c) :
    Keeps machines K κ (fun κ value => value.Listed κ) (Recorded.create c) := by
  intro hclosed m hm
  have hnone : κ m.store.next = none := hm.next_eq_none
  exact ⟨κ.add m.store.next c, Census.extends_add hnone c, hclosed.add hnone hc,
    ⟨Census.add_self κ _ c, hm.allocate c⟩, .single rfl⟩

theorem keeps_setField {c : Class} {address : Address} (haddress : (Value.inst c address).Listed κ)
    (field : String) {value : Value} (hvalue : value.Listed κ) :
    Keeps machines K κ (fun _ _ => True) (Recorded.setField address field value) := by
  intro hclosed m hm
  have hdomain : (κ address).isSome = true := by
    rw [show κ address = some c from haddress]
    rfl
  have hfits : (Event.stores address field value).Fits m.store := (hm.domain address).mp hdomain
  exact ⟨κ, .refl κ, hclosed, ⟨trivial, hm.setField address field hvalue⟩, .single hfits⟩

theorem keeps_writeTexts (texts : List String) :
    Keeps machines K κ (fun _ _ => True) (Recorded.writeTexts texts) := by
  have hstore : ∀ text m, (endOf (Run.writeLine text m)).store = m.store := by
    intro text m
    unfold Run.writeLine
    split <;> rfl
  refine .of_noted (fun m hm => ?_) (hstore _) (fun _ => trivial) fun _ => rfl
  have hline := hstore (String.intercalate " " texts) m
  cases hwrite : Run.writeLine (String.intercalate " " texts) m with
  | ok x m' =>
      rw [hwrite] at hline
      exact ⟨trivial, show m'.store.Listed κ from hline ▸ hm⟩
  | error e m' =>
      rw [hwrite] at hline
      exact ⟨trivial, show m'.store.Listed κ from hline ▸ hm⟩

theorem keeps_runOfExcept {α : Type} {Q : Census → α → Prop} {x : Except RuntimeError α}
    (hx : κ.Closed K → ∀ a, x = .ok a → Q κ a) : Keeps machines K κ Q (silent (Run.ofExcept x)) := by
  intro hclosed
  cases x with
  | ok a => exact Keeps.pure (hx hclosed a rfl) hclosed
  | error e => exact Keeps.throw (e := Fault.error e) trivial hclosed

/-- A body runs in a scope of its own, and what it leaves there is lost. -/
theorem ends_body {p : Exec Value} {locals : Scope} {m : Machine}
    (h : frames.Ends κ (fun κ value => value.Listed κ) (p ⟨locals, m⟩)) :
    machines.Ends κ (fun κ value => value.Listed κ) (Run.body p locals m) := by
  rw [Run.body]
  cases hstep : p ⟨locals, m⟩ with
  | ok x f =>
      rw [hstep] at h
      exact ⟨trivial, h.2.store⟩
  | error e f =>
      rw [hstep] at h
      cases e with
      | returned value => exact ⟨h.1, h.2.store⟩
      | fault e => exact ⟨trivial, h.2.store⟩

theorem keeps_body {p : RecordedExec Value} {locals : Scope}
    (hp : Keeps frames K κ (fun κ value => value.Listed κ) p)
    (hlocals : locals.Listed κ) :
    Keeps machines K κ (fun κ value => value.Listed κ) (Recorded.body p locals) := by
  intro hclosed m hm
  rcases hp hclosed ⟨locals, m⟩ ⟨hlocals, hm⟩ with ⟨κ', hκ', hclosed', hends, hleads⟩
  refine ⟨κ', hκ', hclosed', ends_body hends, ?_⟩
  show Event.Leads m.store (p.events ⟨locals, m⟩) (endOf (Run.body p.step locals m)).store
  rw [body_eq_leave, endOf_leave]
  exact hleads

end Machines

/-! ### Steps of a frame -/

theorem ends_ofRun {α : Type} {Q : Census → α → Prop} {p : Run α} {f : Frame}
    (h : machines.Ends κ Q (p f.machine)) (hscope : f.scope.Listed κ) :
    frames.Ends κ Q (Exec.ofRun p f) := by
  rw [Exec.ofRun]
  cases hstep : p f.machine with
  | ok x m =>
      rw [hstep] at h
      exact ⟨h.1, hscope, h.2⟩
  | error e m =>
      rw [hstep] at h
      exact ⟨trivial, hscope, h.2⟩

theorem keeps_ofRun {α : Type} {Q : Census → α → Prop} {p : RecordedRun α}
    (hp : Keeps machines K κ Q p) : Keeps frames K κ Q (Recorded.ofRun p) := by
  intro hclosed f hf
  rcases hp hclosed f.machine hf.store with ⟨κ', hκ', hclosed', hends, hleads⟩
  refine ⟨κ', hκ', hclosed', ends_ofRun hends (hf.scope.extend hκ'), ?_⟩
  show Event.Leads f.machine.store (p.events f.machine) (endOf (Exec.ofRun p.step f)).machine.store
  rw [endOf_ofRun]
  exact hleads

/-- A look-up in a frame, which leaves the frame as it is. -/
theorem keeps_look {α : Type} {Q : Census → α → Prop} {p : Exec α}
    (find : Frame → Except RuntimeError α) (hp : ∀ f, p f = Exec.ofExcept (find f) f)
    (hfind : ∀ f, f.Listed κ → ∀ a, find f = .ok a → Q κ a) : Keeps frames K κ Q (silent p) := by
  refine .of_store_eq (fun _ f hf => ?_) fun f => ?_
  · rw [hp]
    cases hfound : find f with
    | ok a => exact ⟨hfind f hf a hfound, hf⟩
    | error e => exact ⟨trivial, hf⟩
  · rw [hp, endOf_ofExcept]

theorem keeps_lookup (path : List String) :
    Keeps frames K κ (fun κ value => value.Listed κ) (silent (Exec.lookup path)) :=
  keeps_look (fun f => f.scope.lookup f.machine.store path) (fun _ => rfl) fun _ hf _ hfound =>
    Scope.listed_lookup hf.scope hf.store hfound

theorem keeps_lookupInstance (path : List String) :
    Keeps frames K κ (fun κ address => ∃ c, (Value.inst c address).Listed κ)
      (silent (Exec.lookupInstance path)) := by
  refine keeps_look (fun f => f.scope.lookupInstance f.machine.store path) (fun _ => rfl) ?_
  intro f hf address hfound
  rcases Scope.lookupInstance_eq_ok_iff.mp hfound with ⟨c, hlookup⟩
  exact ⟨c, Scope.listed_lookup hf.scope hf.store hlookup⟩

theorem keeps_assign (name : String) {value : Value} (hvalue : value.Listed κ) :
    Keeps frames K κ (fun _ _ => True) (silent (Exec.bind name value)) :=
  .of_store_eq (fun _ _ hf => ⟨trivial, hf.scope.insert name hvalue, hf.store⟩) fun _ => rfl

/-! ## The evaluator -/

/-- Keeping the census at one depth is a matter of bookkeeping. -/
theorem keeps_bookkeeping (K : Class → Prop) (n : Nat) :
    Bookkeeping K (fun κ Q P => Keeps machines K κ Q (P n)) (fun κ Q P => Keeps frames K κ Q (P n)) where
  runPure := .pure
  runBind hp hf := hp.bind hf
  runOfExcept := keeps_runOfExcept
  notice := keeps_notice
  create := keeps_create
  setField := keeps_setField
  writeTexts := keeps_writeTexts
  body := keeps_body
  pure := .pure
  bind hp hf := hp.bind hf
  returned hvalue := Keeps.throw (H := frames) hvalue
  ofRun := keeps_ofRun
  lookup := keeps_lookup
  lookupInstance := keeps_lookupInstance
  assign := keeps_assign

/-- Evaluations, method calls and renderings to a depth keep the census. -/
structure KeepsCensus (K : Class → Prop) (n : Nat) : Prop where
  eval {κ : Census} {x : Node} (hx : x.All (Node.Backed κ K)) :
    Keeps frames K κ (fun κ value => value.Listed κ) (Recorded.eval n x)
  invoke {κ : Census} {receiver : Value} (name : String) {args : List Value}
    (hreceiver : receiver.Listed κ) (hargs : ∀ a ∈ args, a.Listed κ) :
    Keeps machines K κ (fun κ value => value.Listed κ) (Recorded.invoke n receiver name args)
  render {κ : Census} {value : Value} (hvalue : value.Listed κ) :
    Keeps machines K κ (fun _ _ => True) (Recorded.render n value)

namespace KeepsCensus

variable {n : Nat}

theorem eval_succ (ih : KeepsCensus K n) {x : Node} (hx : x.All (Node.Backed κ K)) :
    Keeps frames K κ (fun κ value => value.Listed κ) (Recorded.eval (n + 1) x) :=
  (keeps_bookkeeping K n).eval_succ hx.here (fun _ => ih.invoke) ih.render
    fun _ hy _ hκ => ih.eval ((hx.child hy).extend hκ)

theorem invoke_succ (ih : KeepsCensus K n) {receiver : Value} (name : String) {args : List Value}
    (hreceiver : receiver.Listed κ) (hargs : ∀ a ∈ args, a.Listed κ) :
    Keeps machines K κ (fun κ value => value.Listed κ) (Recorded.invoke (n + 1) receiver name args) := by
  refine (keeps_bookkeeping K n).invoke_succ ?_ name hreceiver hargs
  intro c name m hclosed hc hm κ' hκ
  exact ih.eval ((hclosed.bodies c name m hc hm).extend hκ)

theorem render_succ (ih : KeepsCensus K n) {value : Value} (hvalue : value.Listed κ) :
    Keeps machines K κ (fun _ _ => True) (Recorded.render (n + 1) value) := by
  cases value with
  | inst c address =>
      rw [Recorded.render]
      refine Keeps.announced ?_ (fun _ => trivial) fun _ => rfl
      by_cases hshown : c.understands "__str__" 0 = true
      · rw [if_pos hshown]
        have hcall := ih.invoke "__str__" hvalue fun a ha => absurd ha List.not_mem_nil
        exact hcall.bind fun _ _ shown hlisted => ih.render hlisted
      · rw [if_neg hshown]
        exact .pure trivial
  | _ => exact Keeps.announced (.pure trivial) (fun _ => trivial) fun _ => rfl

end KeepsCensus

theorem keepsCensus (K : Class → Prop) (n : Nat) : KeepsCensus K n := by
  -- Evaluation, calls and rendering use each other one level further down.
  induction n with
  | zero =>
      exact {
        eval := fun _ => by
          rw [Recorded.eval]
          exact .throw trivial
        invoke := by
          intro κ receiver name args _ _
          rw [Recorded.invoke]
          exact .throw trivial
        render := fun _ => by
          rw [Recorded.render]
          exact .throw trivial }
  | succ n ih => exact ⟨ih.eval_succ, ih.invoke_succ, ih.render_succ⟩

end Offside
