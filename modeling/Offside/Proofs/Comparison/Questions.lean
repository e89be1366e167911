import Offside.Exec.Order
import Offside.Proofs.Results

/-!
# Questions — the calls that a comparison makes

A comparison may call methods of its left operand, which may change the state, fail, and answer anything.
This file follows the calls:

- `Order.listing`    : a caller that does what another one does and keeps a list of the calls
- `Order.Follows`    : a step with one caller and the same step with the other one
- `Order.Inquiry`    : the lists of calls that a comparison can make

Complementary relations are one step with two readings of its answer (`compare_complement`), whoever the
caller is.  The main statement, `complement_inquires_alike`, puts this together with what the calls are.
Nothing is said of what the methods answer; `TotalOrder` is about answers that come from an order.
-/

namespace Offside

/-- A call of a method, and the value or the failure that it ended with. -/
structure Question where
  receiver : Value
  method : String
  args : List Value
  answer : Except Fault Value

namespace Order

variable {σ : Type}

/-- Does what the caller does and adds each call to a list. -/
def listing (call : Caller σ) : Caller (σ × List Question) := fun receiver method args s =>
  match call receiver method args s.1 with
  | .ok value t => .ok value (t, s.2 ++ [⟨receiver, method, args, .ok value⟩])
  | .error e t => .error e (t, s.2 ++ [⟨receiver, method, args, .error e⟩])

/-- The end of a step, by its outcome and its state. -/
def ending {α : Type} : Except Fault α → σ → EStateM.Result Fault σ α
  | .ok x, s => .ok x s
  | .error e, s => .error e s

/-! ## Steps with a list -/

/-- The second step does what the first one does and adds some calls to the list. The outcome and these
calls are as told. -/
def Follows {α : Type} (told : Except Fault α → List Question → Prop) (p : EStateM Fault σ α)
    (q : EStateM Fault (σ × List Question) α) : Prop :=
  ∀ s before, ∃ outcome t calls, p s = ending outcome t
    ∧ q (s, before) = ending outcome (t, before ++ calls) ∧ told outcome calls

namespace Follows

variable {α β : Type} {told told' : Except Fault α → List Question → Prop}

theorem mono {p : EStateM Fault σ α} {q : EStateM Fault (σ × List Question) α}
    (h : Follows told p q) (htold : ∀ outcome calls, told outcome calls → told' outcome calls) :
    Follows told' p q := by
  intro s before
  rcases h s before with ⟨outcome, t, calls, hp, hq, hcalls⟩
  exact ⟨outcome, t, calls, hp, hq, htold _ _ hcalls⟩

theorem pure (x : α) (h : told (.ok x) []) :
    Follows told (pure x : EStateM Fault σ α) (pure x) := by
  intro s before
  refine ⟨.ok x, s, [], rfl, ?_, h⟩
  rw [List.append_nil]
  rfl

theorem throw (e : Fault) (h : told (.error e) []) :
    Follows told (throw e : EStateM Fault σ α) (throw e) := by
  intro s before
  refine ⟨.error e, s, [], rfl, ?_, h⟩
  rw [List.append_nil]
  rfl

/-- The calls of two steps follow each other, and if the first one fails there are no others. -/
theorem bind {next : α → Except Fault β → List Question → Prop}
    {p : EStateM Fault σ α} {q : EStateM Fault (σ × List Question) α}
    {f : α → EStateM Fault σ β} {g : α → EStateM Fault (σ × List Question) β}
    (hp : Follows told p q) (hf : ∀ x, Follows (next x) (f x) (g x)) :
    Follows (fun outcome calls =>
      (∃ e, outcome = .error e ∧ told (.error e) calls)
        ∨ ∃ x first later, calls = first ++ later ∧ told (.ok x) first ∧ next x outcome later)
      (p >>= f) (q >>= g) := by
  intro s before
  rcases hp s before with ⟨outcome, t, first, hps, hqs, hfirst⟩
  cases outcome with
  | error e =>
      exact ⟨.error e, t, first, bind_of_error hps, bind_of_error hqs, .inl ⟨e, rfl, hfirst⟩⟩
  | ok x =>
      -- The second step finds the calls of the first one on its list.
      rcases hf x t (before ++ first) with ⟨outcome, u, later, hfs, hgs, hlater⟩
      rw [List.append_assoc] at hgs
      exact ⟨outcome, u, first ++ later, (bind_of_ok hps).trans hfs, (bind_of_ok hqs).trans hgs,
        .inr ⟨x, first, later, rfl, hfirst, hlater⟩⟩

/-- What is made of the outcome afterwards takes no calls. -/
theorem read {p : EStateM Fault σ α} {q : EStateM Fault (σ × List Question) α}
    (h : Follows told p q) (f : α → β) :
    Follows (fun _ calls => ∃ outcome, told outcome calls) (do return f (← p)) (do return f (← q)) := by
  have hlater : ∀ x, Follows (fun _ calls => calls = []) (Pure.pure (f x) : EStateM Fault σ β)
      (Pure.pure (f x)) := fun x => .pure (f x) rfl
  refine (h.bind hlater).mono fun _ calls hcalls => ?_
  rcases hcalls with ⟨e, -, htold⟩ | ⟨x, first, later, rfl, htold, rfl⟩
  · exact ⟨_, htold⟩
  · rw [List.append_nil]
    exact ⟨_, htold⟩

end Follows

/-! ## What is asked -/

/-- Either no method was called, or this one was, and the truth of its answer is the outcome. -/
def Asked (left right : Value) (method : String) (outcome : Except Fault Bool)
    (calls : List Question) : Prop :=
  calls = [] ∨ ∃ answer, calls = [⟨left, method, [right], answer⟩]
    ∧ outcome = answer.map Value.truthy

/-- The calls of a comparison: at most the method for less and then the one for equality, the latter after
the former only if the answer of the former was false. -/
inductive Inquiry (left right : Value) : List Question → Prop where
  | nothing : Inquiry left right []
  | less (answer : Except Fault Value) : Inquiry left right [⟨left, "__lt__", [right], answer⟩]
  | equal (answer : Except Fault Value) : Inquiry left right [⟨left, "__eq__", [right], answer⟩]
  | both {value : Value} (hvalue : value.truthy = false) (answer : Except Fault Value) :
      Inquiry left right [⟨left, "__lt__", [right], .ok value⟩, ⟨left, "__eq__", [right], answer⟩]

section Comparison

variable (call : Caller σ) (left right : Value)

theorem follows_call (method : String) :
    Follows (fun outcome calls => calls = [⟨left, method, [right], outcome⟩])
      (call left method [right]) (listing call left method [right]) := by
  intro s before
  cases hcall : call left method [right] s with
  | ok value t => exact ⟨.ok value, t, _, rfl, by simp only [listing, hcall, ending], rfl⟩
  | error e t => exact ⟨.error e, t, _, rfl, by simp only [listing, hcall, ending], rfl⟩

/-- The left operand is asked first, and something without calls is done if it has no answer. -/
theorem follows_ask (method : String) {p : EStateM Fault σ Bool}
    {q : EStateM Fault (σ × List Question) Bool} (hsilent : Follows (fun _ calls => calls = []) p q) :
    Follows (Asked left right method)
      (do match ← ask call left right method with
          | some answer => return answer
          | none => p)
      (do match ← ask (listing call) left right method with
          | some answer => return answer
          | none => q) := by
  have hnone : Follows (Asked left right method) p q := hsilent.mono fun _ _ h => .inl h
  cases left with
  | inst c address =>
      by_cases hunderstands : c.understands method 1 = true
      · simp only [ask, if_pos hunderstands, bind_assoc, pure_bind]
        have hlater : ∀ answer : Value,
            Follows (fun outcome calls => outcome = .ok answer.truthy ∧ calls = [])
              (pure answer.truthy : EStateM Fault σ Bool) (pure answer.truthy) :=
          fun answer => .pure answer.truthy ⟨rfl, rfl⟩
        have hanswer := (follows_call call (.inst c address) right method).bind hlater
        refine hanswer.mono fun outcome calls h => .inr ?_
        rcases h with ⟨e, rfl, hcalls⟩ | ⟨answer, first, later, rfl, rfl, rfl, rfl⟩
        · exact ⟨.error e, hcalls, rfl⟩
        · exact ⟨.ok answer, rfl, rfl⟩
      · simp only [ask, if_neg hunderstands, pure_bind]
        exact hnone
  | _ => exact hnone

theorem follows_less :
    Follows (Asked left right "__lt__") (less call left right) (less (listing call) left right) := by
  rw [less, less]
  cases left.order? right with
  | some o => exact .pure _ (.inl rfl)
  | none => exact follows_ask call left right "__lt__" (.throw _ rfl)

theorem follows_equal :
    Follows (Asked left right "__eq__") (equal call left right)
      (equal (listing call) left right) := by
  rw [equal, equal]
  cases left.order? right with
  | some o => exact .pure _ (.inl rfl)
  | none =>
      refine follows_ask call left right "__eq__" ?_
      -- Two `None` are equal without a call, once nobody has answered.
      by_cases hnone : (left.isNone && right.isNone) = true
      · rw [if_pos hnone, if_pos hnone]
        exact .pure _ rfl
      · rw [if_neg hnone, if_neg hnone]
        exact .throw _ rfl

variable {left right}

theorem Asked.inquiry_less {outcome : Except Fault Bool} {calls : List Question}
    (h : Asked left right "__lt__" outcome calls) : Inquiry left right calls := by
  rcases h with rfl | ⟨answer, rfl, -⟩
  · exact .nothing
  · exact .less answer

theorem Asked.inquiry_equal {outcome : Except Fault Bool} {calls : List Question}
    (h : Asked left right "__eq__" outcome calls) : Inquiry left right calls := by
  rcases h with rfl | ⟨answer, rfl, -⟩
  · exact .nothing
  · exact .equal answer

/-- Equality is asked after less only where the answer was false. -/
theorem Asked.inquiry_append {first later : List Question} {outcome : Except Fault Bool}
    (hfirst : Asked left right "__lt__" (.ok false) first)
    (hlater : Asked left right "__eq__" outcome later) : Inquiry left right (first ++ later) := by
  rcases hfirst with rfl | ⟨answer, rfl, hanswer⟩
  · exact hlater.inquiry_equal
  · rcases hlater with rfl | ⟨answer', rfl, -⟩
    · exact .less answer
    · cases answer with
      | ok value => exact .both (Except.ok.inj hanswer).symm answer'
      | error e => cases hanswer

variable (left right)

/-- A step that asks for less, and for equality where the answer is false. -/
theorem follows_less_then (x : Bool) (f : Bool → Bool) :
    Follows (fun _ calls => Inquiry left right calls)
      (do if ← less call left right then return x else return f (← equal call left right))
      (do if ← less (listing call) left right then return x
          else return f (← equal (listing call) left right)) := by
  have hlater : ∀ smaller : Bool, Follows (fun _ calls =>
      if smaller then calls = [] else ∃ outcome, Asked left right "__eq__" outcome calls)
      (if smaller then return x else return f (← equal call left right))
      (if smaller then return x else return f (← equal (listing call) left right)) := by
    intro smaller
    cases smaller with
    | true => exact .pure x rfl
    | false => exact (follows_equal call left right).read f
  -- After a failure or a true answer the calls are those for less alone.
  refine ((follows_less call left right).bind hlater).mono fun outcome calls h => ?_
  rcases h with ⟨e, -, hcalls⟩ | ⟨smaller, first, later, rfl, hfirst, hcalls⟩
  · exact hcalls.inquiry_less
  · cases smaller with
    | true =>
        cases hcalls
        rw [List.append_nil]
        exact hfirst.inquiry_less
    | false =>
        rcases hcalls with ⟨_, hcalls⟩
        exact hfirst.inquiry_append hcalls

/-- Whatever the relation, a comparison with a list of its calls is the comparison, and the calls are an
inquiry. -/
theorem follows_compare (op : Relation) :
    Follows (fun _ calls => Inquiry left right calls) (compare call op left right)
      (compare (listing call) op left right) := by
  have hless := follows_less call left right
  have hequal := follows_equal call left right
  cases op with
  | less => exact hless.mono fun _ _ h => h.inquiry_less
  | lessEqual =>
      have hthen := follows_less_then call left right true id
      simp only [id, bind_pure] at hthen
      exact hthen
  | greater => exact follows_less_then call left right false not
  | greaterEqual => exact (hless.read not).mono fun _ _ ⟨_, h⟩ => h.inquiry_less
  | equal => exact hequal.mono fun _ _ h => h.inquiry_equal
  | notEqual => exact (hequal.read not).mono fun _ _ ⟨_, h⟩ => h.inquiry_equal

/-! ## Complementary relations -/

/-- The complementary relation is the same step, whose answer is read the other way round. -/
theorem compare_complement (op : Relation) :
    compare call op.complement left right = (do return !(← compare call op left right)) := by
  cases op with
  | less | equal => rfl
  | greaterEqual | notEqual =>
      simp only [Relation.complement, compare, bind_assoc, pure_bind, Bool.not_not, bind_pure]
  | lessEqual =>
      -- Both ask for less first and stop at a true answer, and then ask for equality.
      simp only [Relation.complement, compare, lessEqual, greater, bind_assoc]
      refine congrArg _ (funext fun smaller => ?_)
      cases smaller with
      | true => rfl
      | false => rfl
  | greater =>
      simp only [Relation.complement, compare, lessEqual, greater, bind_assoc]
      refine congrArg _ (funext fun smaller => ?_)
      cases smaller with
      | true => rfl
      | false => simp

end Comparison

/-- What a step gives after another one has been read the other way round. -/
theorem read_ending {α β : Type} {p : EStateM Fault σ α} {s t : σ} {outcome : Except Fault α}
    (h : p s = ending outcome t) (f : α → β) :
    (do return f (← p) : EStateM Fault σ β) s = ending (outcome.map f) t := by
  cases outcome with
  | ok x => exact bind_of_ok h
  | error e => exact bind_of_error h

/-- A comparison and the one by the complementary relation, from the same state and with the same caller.
Both make the same calls in the same order, leave the same state, and fail in the same way or answer the
opposite. The calls are one for less and then one for equality at most, both of the left operand with the
right one, and the second of them is made only if the first one answered what counts as false. -/
theorem complement_inquires_alike (call : Caller σ) (op : Relation) (left right : Value) (s : σ) :
    ∃ outcome t calls,
      compare (listing call) op left right (s, []) = ending outcome (t, calls)
        ∧ compare (listing call) op.complement left right (s, [])
          = ending (outcome.map not) (t, calls)
        ∧ compare call op left right s = ending outcome t
        ∧ compare call op.complement left right s = ending (outcome.map not) t
        ∧ Inquiry left right calls := by
  rcases follows_compare call left right op s [] with ⟨outcome, t, calls, hplain, hlisted, hcalls⟩
  refine ⟨outcome, t, calls, hlisted, ?_, hplain, ?_, hcalls⟩
  · rw [compare_complement]
    exact read_ending hlisted not
  · rw [compare_complement]
    exact read_ending hplain not

end Order

end Offside
