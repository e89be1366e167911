import Mathlib.Order.Compare
import Offside.Proofs.Comparison.CodePoints
import Offside.Proofs.Comparison.Questions
import Offside.Proofs.Evaluation.Returns

/-!
# Total order — comparisons that come from an order

Six relations are made of two questions, whether the left operand is less and whether it is equal, and no
relation swaps its operands.  This file says when the six belong together:

- `Order.Tells`   : whenever it is made, a step answers whether a statement holds
- `Order.Keyed`   : instances whose methods answer by the order of their keys
- `Order.Ordered` : integers, texts, booleans, or instances with such keys
- `OfTotalOrder`  : six relations that are those of one total order

The main statement, `compare_total_order`, says that the comparisons of ordered values are such relations, by
what the primitive kinds are ordered, and how comparisons fail that have nobody to ask.  What methods of
other instances answer is not said here, and then the six may well contradict each other.
-/

namespace Offside

/-! ## Relations of an order -/

namespace Relation

/-- What the relation says of two elements of an ordered type. -/
def Holds {K : Type} [LinearOrder K] (op : Relation) (x y : K) : Prop :=
  match op with
  | less => x < y
  | lessEqual => x ≤ y
  | greater => x > y
  | greaterEqual => x ≥ y
  | equal => x = y
  | notEqual => x ≠ y

/-- The question that is asked first. -/
def basis : Relation → Basis
  | less | lessEqual | greater | greaterEqual => .less
  | equal | notEqual => .equality

end Relation

/-- The method that answers a question. -/
def Basis.method : Basis → String
  | less => "__lt__"
  | equality => "__eq__"

/-- Six relations on some values are those of one total order. -/
structure OfTotalOrder (D : Value → Prop) (holds : Relation → Value → Value → Prop) : Prop where
  trichotomy {a b : Value} (ha : D a) (hb : D b) :
    (holds .less a b ∧ ¬holds .equal a b ∧ ¬holds .greater a b)
      ∨ (¬holds .less a b ∧ holds .equal a b ∧ ¬holds .greater a b)
      ∨ (¬holds .less a b ∧ ¬holds .equal a b ∧ holds .greater a b)
  lessEqual {a b : Value} (ha : D a) (hb : D b) :
    holds .lessEqual a b ↔ holds .less a b ∨ holds .equal a b
  greaterEqual {a b : Value} (ha : D a) (hb : D b) :
    holds .greaterEqual a b ↔ holds .lessEqual b a
  greater {a b : Value} (ha : D a) (hb : D b) : holds .greater a b ↔ holds .less b a
  notEqual {a b : Value} (ha : D a) (hb : D b) : holds .notEqual a b ↔ ¬holds .equal a b
  trans {a b c : Value} (ha : D a) (hb : D b) (hc : D c) (hab : holds .less a b)
    (hbc : holds .less b c) : holds .less a c

/-- Keys in an ordered type make six such relations. -/
theorem OfTotalOrder.of_key {K : Type} [LinearOrder K] (D : Value → Prop) (key : Value → K) :
    OfTotalOrder D fun op a b => op.Holds (key a) (key b) where
  trichotomy {a b} _ _ := by
    rcases lt_trichotomy (key a) (key b) with h | h | h
    · exact .inl ⟨h, h.ne, h.not_gt⟩
    · exact .inr (.inl ⟨h.not_lt, h, h.not_gt⟩)
    · exact .inr (.inr ⟨h.not_gt, h.ne', h⟩)
  lessEqual _ _ := le_iff_lt_or_eq
  greaterEqual _ _ := Iff.rfl
  greater _ _ := Iff.rfl
  notEqual _ _ := Iff.rfl
  trans _ _ _ := lt_trans

namespace Order

variable {σ : Type}

/-! ## Answers -/

/-- Whenever it is made in one of these states, the step answers whether the statement holds, and ends in
one of them. -/
def Tells (states : σ → Prop) (p : EStateM Fault σ Bool) (statement : Prop) : Prop :=
  ∀ s, states s → ∃ answer t, p s = .ok answer t ∧ states t ∧ (answer = true ↔ statement)

namespace Tells

variable {states : σ → Prop} {p q : EStateM Fault σ Bool} {P Q : Prop}

theorem congr (h : Tells states p P) (hPQ : P ↔ Q) : Tells states p Q := by
  intro s hs
  rcases h s hs with ⟨answer, t, hp, ht, hanswer⟩
  exact ⟨answer, t, hp, ht, hanswer.trans hPQ⟩

theorem pure {answer : Bool} (h : answer = true ↔ P) : Tells states (pure answer) P :=
  fun s hs => ⟨answer, s, rfl, hs, h⟩

theorem bind {f : Bool → EStateM Fault σ Bool} (hp : Tells states p P)
    (htrue : P → Tells states (f true) Q) (hfalse : ¬P → Tells states (f false) Q) :
    Tells states (p >>= f) Q := by
  intro s hs
  rcases hp s hs with ⟨answer, t, hps, ht, hanswer⟩
  rw [bind_of_ok hps]
  cases answer with
  | true => exact htrue (hanswer.mp rfl) t ht
  | false => exact hfalse (fun hP => nomatch hanswer.mpr hP) t ht

theorem not (h : Tells states p P) : Tells states (do return !(← p)) (¬P) :=
  h.bind (fun hP => .pure (by simp [hP])) fun hP => .pure (by simp [hP])

end Tells

/-! ## The six relations -/

section Relations

variable {call : Caller σ} {states : σ → Prop} {a b : Value} {K : Type} [LinearOrder K] {x y : K}

/-- All relations follow from the two questions, as a left key that is neither less nor equal is
greater. -/
theorem tells_compare (hless : Tells states (less call a b) (x < y))
    (hequal : Tells states (equal call a b) (x = y)) (op : Relation) :
    Tells states (compare call op a b) (op.Holds x y) := by
  -- The right operand is never asked. Where the left one is not less, totality says what is left.
  cases op with
  | less => exact hless
  | lessEqual =>
      refine hless.bind (fun hlt => .pure ?_) fun hlt => hequal.congr ?_
      · exact iff_of_true rfl hlt.le
      · exact ⟨fun heq => heq.le, fun hle => hle.eq_of_not_lt hlt⟩
  | greater =>
      refine hless.bind (fun hlt => .pure ?_) fun hlt => hequal.not.congr ?_
      · exact iff_of_false Bool.false_ne_true hlt.not_gt
      · exact ⟨fun hne => lt_of_le_of_ne (not_lt.mp hlt) (Ne.symm hne), fun hgt => hgt.ne'⟩
  | greaterEqual => exact hless.not.congr not_lt
  | equal => exact hequal
  | notEqual => exact hequal.not

/-- Values of one primitive kind are not asked. -/
theorem tells_compare_of_order? {o : Ordering} (horder : a.order? b = some o) (h : o.Compares x y)
    (op : Relation) : Tells states (compare call op a b) (op.Holds x y) := by
  have hless : less call a b = pure (o == .lt) := by rw [less, horder]
  have hequal : equal call a b = pure (o == .eq) := by rw [equal, horder]
  refine tells_compare ?_ ?_ op
  · rw [hless]
    exact .pure (beq_iff_eq.trans h.eq_lt)
  · rw [hequal]
    exact .pure (beq_iff_eq.trans h.eq_eq)

end Relations

/-! ## The primitive kinds -/

theorem compares_toInt (m n : Int64) : (Ord.compare m n).Compares m.toInt n.toInt := by
  cases h : Ord.compare m n with
  | lt => exact Int64.lt_iff_toInt_lt.mp (Std.compare_eq_lt.mp h)
  | eq => exact congrArg Int64.toInt (Std.compare_eq_iff_eq.mp h)
  | gt => exact Int64.lt_iff_toInt_lt.mp (Std.compare_eq_gt.mp h)

theorem compares_bool : ∀ x y : Bool, (Ord.compare x y).Compares x y
  | false, false | true, true => rfl
  | false, true | true, false => Bool.false_lt_true

/-- An order of texts that goes by what their characters are written as is theirs. -/
theorem compares_text {key : String → List Nat} (hkey : ∀ {t u}, t < u → key t < key u)
    (t u : String) : (Ord.compare t u).Compares (key t) (key u) := by
  show (compareOfLessAndEq t u).Compares (key t) (key u)
  -- Texts are tested for less and for equality, so that greater means what is left.
  unfold compareOfLessAndEq
  split
  next hlt => exact hkey hlt
  next hlt =>
    split
    next heq => exact congrArg key heq
    next hne => exact hkey (Scope.lt_of_not_lt_of_ne hlt hne)

section Kinds

variable {call : Caller σ} {states : σ → Prop}

theorem tells_compare_int (op : Relation) (m n : Int64) :
    Tells states (compare call op (.int m) (.int n)) (op.Holds m.toInt n.toInt) :=
  tells_compare_of_order? rfl (compares_toInt m n) op

theorem tells_compare_str {key : String → List Nat} (hkey : ∀ {t u}, t < u → key t < key u)
    (op : Relation) (t u : String) :
    Tells states (compare call op (.str t) (.str u)) (op.Holds (key t) (key u)) :=
  tells_compare_of_order? rfl (compares_text hkey t u) op

theorem tells_compare_bool (op : Relation) (x y : Bool) :
    Tells states (compare call op (.bool x) (.bool y)) (op.Holds x y) :=
  tells_compare_of_order? rfl (compares_bool x y) op

/-! ## Instances with keys -/

/-- The value is an instance that has the method, with one argument. -/
def Understands (a : Value) (method : String) : Prop :=
  ∃ c address, a = .inst c address ∧ c.understands method 1 = true

/-- The values are instances that have both methods, and in the states in question these answer by the order
of the keys. A call may change the state, but not what the methods answer later. -/
structure Keyed (call : Caller σ) (states : σ → Prop) {K : Type} [LinearOrder K] (key : Value → K)
    (D : Value → Prop) : Prop where
  understands {a : Value} (ha : D a) : Understands a "__lt__" ∧ Understands a "__eq__"
  less {a b : Value} (ha : D a) (hb : D b) {s : σ} (hs : states s) :
    ∃ value t, call a "__lt__" [b] s = .ok value t ∧ states t
      ∧ (value.truthy = true ↔ key a < key b)
  equal {a b : Value} (ha : D a) (hb : D b) {s : σ} (hs : states s) :
    ∃ value t, call a "__eq__" [b] s = .ok value t ∧ states t
      ∧ (value.truthy = true ↔ key a = key b)

theorem order?_of_understands {a b : Value} {method : String} (h : Understands a method) :
    a.order? b = none := by
  rcases h with ⟨c, address, rfl, -⟩
  cases b <;> rfl

/-- An operand that has the method is called, and whether its answer is true is the answer. -/
theorem ask_of_understands {a b : Value} {method : String} (h : Understands a method) :
    ask call a b method = (do
      let answer ← call a method [b]
      return some answer.truthy) := by
  rcases h with ⟨c, address, rfl, hunderstands⟩
  rw [ask, if_pos hunderstands]

theorem less_of_understands {a b : Value} (h : Understands a "__lt__") :
    less call a b = (do return (← call a "__lt__" [b]).truthy) := by
  rw [less, order?_of_understands h]
  simp only [ask_of_understands h, bind_assoc, pure_bind]

theorem equal_of_understands {a b : Value} (h : Understands a "__eq__") :
    equal call a b = (do return (← call a "__eq__" [b]).truthy) := by
  rw [equal, order?_of_understands h]
  simp only [ask_of_understands h, bind_assoc, pure_bind]

theorem Keyed.tells_compare {K : Type} [LinearOrder K] {key : Value → K} {D : Value → Prop}
    (h : Keyed call states key D) {a b : Value} (ha : D a) (hb : D b) (op : Relation) :
    Tells states (compare call op a b) (op.Holds (key a) (key b)) := by
  have hunderstands := h.understands ha
  -- Each question is one call of the left operand, and nothing else is done.
  refine Order.tells_compare ?_ ?_ op
  · intro s hs
    rcases h.less ha hb hs with ⟨value, t, hcall, ht, hvalue⟩
    rw [less_of_understands hunderstands.1, bind_of_ok hcall]
    exact ⟨value.truthy, t, rfl, ht, hvalue⟩
  · intro s hs
    rcases h.equal ha hb hs with ⟨value, t, hcall, ht, hvalue⟩
    rw [equal_of_understands hunderstands.2, bind_of_ok hcall]
    exact ⟨value.truthy, t, rfl, ht, hvalue⟩

/-! ## Ordered values -/

/-- The values are of one kind that is ordered. -/
inductive Ordered (call : Caller σ) (states : σ → Prop) : (Value → Prop) → Prop where
  | integers : Ordered call states fun a => ∃ n, a = .int n
  | texts : Ordered call states fun a => ∃ t, a = .str t
  | booleans : Ordered call states fun a => ∃ x, a = .bool x
  | instances {K : Type} [LinearOrder K] {key : Value → K} {D : Value → Prop}
      (h : Keyed call states key D) : Ordered call states D

/-- What ordered values are is settled by keys. -/
theorem Ordered.exists_key {D : Value → Prop} (h : Ordered call states D) :
    ∃ (K : Type) (_ : LinearOrder K) (key : Value → K), ∀ op a b, D a → D b →
      Tells states (compare call op a b) (op.Holds (key a) (key b)) := by
  cases h with
  | integers =>
      refine ⟨Int, inferInstance, fun a => (a.int?.getD 0).toInt, ?_⟩
      rintro op _ _ ⟨m, rfl⟩ ⟨n, rfl⟩
      exact tells_compare_int op m n
  | texts =>
      refine ⟨List Nat, inferInstance, fun a => Text.codePoints (a.str?.getD ""), ?_⟩
      rintro op _ _ ⟨t, rfl⟩ ⟨u, rfl⟩
      exact tells_compare_str Text.lt_codePoints op t u
  | booleans =>
      refine ⟨Bool, inferInstance, fun a => a.bool?.getD false, ?_⟩
      rintro op _ _ ⟨x, rfl⟩ ⟨y, rfl⟩
      exact tells_compare_bool op x y
  | @instances K order key D h =>
      exact ⟨K, order, key, fun op a b ha hb => h.tells_compare ha hb op⟩

/-! ## Values that cannot be compared -/

/-- Both values are integers, or texts, or booleans. -/
def OneKind (a b : Value) : Prop :=
  (∃ m n, a = .int m ∧ b = .int n) ∨ (∃ t u, a = .str t ∧ b = .str u)
    ∨ ∃ x y, a = .bool x ∧ b = .bool y

theorem order?_of_not_oneKind {a b : Value} (h : ¬OneKind a b) : a.order? b = none := by
  unfold Value.order?
  split
  next x y => exact absurd (.inr (.inr ⟨x, y, rfl, rfl⟩)) h
  next m n => exact absurd (.inl ⟨m, n, rfl, rfl⟩) h
  next t u => exact absurd (.inr (.inl ⟨t, u, rfl, rfl⟩)) h
  next => rfl

theorem ask_of_not_understands {a b : Value} {method : String} (h : ¬Understands a method) :
    ask call a b method = pure none := by
  cases a with
  | inst c address => exact if_neg fun hunderstands => h ⟨c, address, rfl, hunderstands⟩
  | _ => rfl

theorem less_of_not_understands {a b : Value} (hkind : ¬OneKind a b) (h : ¬Understands a "__lt__") :
    less call a b = cannotCompare .less a b := by
  rw [less, order?_of_not_oneKind hkind]
  simp only [ask_of_not_understands h, pure_bind]

theorem equal_of_not_understands {a b : Value} (hkind : ¬OneKind a b)
    (h : ¬Understands a "__eq__") (hnone : ¬(a = .none ∧ b = .none)) :
    equal call a b = cannotCompare .equality a b := by
  have hisNone : ¬(a.isNone && b.isNone) = true := by
    intro hboth
    cases a with
    | none =>
        cases b with
        | none => exact hnone ⟨rfl, rfl⟩
        | _ => cases hboth
    | _ => cases hboth
  rw [equal, order?_of_not_oneKind hkind]
  simp only [ask_of_not_understands h, pure_bind, if_neg hisNone]

/-- A comparison whose first question nobody answers is no more than its failure. -/
theorem compare_of_not_understands {op : Relation} {a b : Value} (hkind : ¬OneKind a b)
    (h : ¬Understands a op.basis.method)
    (hnone : ¬(op.basis = .equality ∧ a = .none ∧ b = .none)) :
    compare call op a b = cannotCompare op.basis a b := by
  cases op with
  | less => exact less_of_not_understands hkind h
  | lessEqual =>
      rw [compare, lessEqual, less_of_not_understands hkind h]
      rfl
  | greater =>
      rw [compare, greater, less_of_not_understands hkind h]
      rfl
  | greaterEqual =>
      rw [compare, less_of_not_understands hkind h]
      rfl
  | equal => exact equal_of_not_understands hkind h fun hboth => hnone ⟨rfl, hboth⟩
  | notEqual =>
      rw [compare, equal_of_not_understands hkind h fun hboth => hnone ⟨rfl, hboth⟩]
      rfl

/-- A comparison whose second question nobody answers fails after the first answer. -/
theorem compare_of_less_false {op : Relation} (hop : op = .lessEqual ∨ op = .greater) {a b : Value}
    (hless : Understands a "__lt__") (hequal : ¬Understands a "__eq__") {s t : σ} {value : Value}
    (hcall : call a "__lt__" [b] s = .ok value t) (hvalue : value.truthy = false) :
    compare call op a b s = .error (.error (.cannotCompare .equality a.kind b.kind)) t := by
  have hfalse : less call a b s = .ok false t := by
    rw [less_of_understands hless, bind_of_ok hcall, hvalue]
    rfl
  have hfails : equal call a b = cannotCompare .equality a b := by
    refine equal_of_not_understands ?_ hequal ?_
    -- An operand that was asked for less is an instance: no primitive value, and not `None`.
    · rcases hless with ⟨c, address, rfl, -⟩
      rintro (⟨m, n, h, -⟩ | ⟨t, u, h, -⟩ | ⟨x, y, h, -⟩) <;> cases h
    · rcases hless with ⟨c, address, rfl, -⟩
      exact fun h => nomatch h.1
  rcases hop with rfl | rfl
  · rw [compare, lessEqual, bind_of_ok hfalse, hfails]
    rfl
  · rw [compare, greater, bind_of_ok hfalse, hfails]
    rfl

end Kinds

/-! ## Comparisons -/

/-- What comes of comparisons with a caller. -/
structure Comparisons (call : Caller σ) : Prop where
  /-- Ordered values are compared by one total order. -/
  ordered (states : σ → Prop) (D : Value → Prop) (h : Ordered call states D) :
    ∃ holds, OfTotalOrder D holds
      ∧ ∀ op a b, D a → D b → Tells states (compare call op a b) (holds op a b)
  integers (op : Relation) (m n : Int64) (s : σ) :
    Tells (· = s) (compare call op (.int m) (.int n)) (op.Holds m.toInt n.toInt)
  /-- The order of texts is that of their code points, and that of their bytes in UTF-8 as well. -/
  texts (op : Relation) (t u : String) (s : σ) :
    Tells (· = s) (compare call op (.str t) (.str u))
        (op.Holds (Text.codePoints t) (Text.codePoints u))
      ∧ Tells (· = s) (compare call op (.str t) (.str u)) (op.Holds (Text.bytes t) (Text.bytes u))
  /-- False comes before true. -/
  booleans (op : Relation) (x y : Bool) (s : σ) :
    Tells (· = s) (compare call op (.bool x) (.bool y)) (op.Holds x y)
  nones : compare call .equal .none .none = pure true ∧ compare call .notEqual .none .none = pure false
  /-- Where the first question has no answer, the comparison fails without a call. -/
  refused (op : Relation) (a b : Value) (s : σ) (before : List Question) (hkind : ¬OneKind a b)
    (h : ¬Understands a op.basis.method)
    (hnone : ¬(op.basis = .equality ∧ a = .none ∧ b = .none)) :
    compare (listing call) op a b (s, before)
      = .error (.error (.cannotCompare op.basis a.kind b.kind)) (s, before)
  /-- Where the left operand is not less and the second question has no answer, it fails without another
  call. -/
  refused_later (op : Relation) (hop : op = .lessEqual ∨ op = .greater) (a b value : Value) (s t : σ)
    (before : List Question) (hless : Understands a "__lt__") (hequal : ¬Understands a "__eq__")
    (hcall : call a "__lt__" [b] s = .ok value t) (hvalue : value.truthy = false) :
    compare (listing call) op a b (s, before)
      = .error (.error (.cannotCompare .equality a.kind b.kind))
          (t, before ++ [⟨a, "__lt__", [b], .ok value⟩])

/-- The comparisons of integers, of texts, of booleans, and of instances whose methods answer by keys are the
six relations of a total order, and never fail. Other comparisons fail as soon as nobody answers. -/
theorem compare_total_order (call : Caller σ) : Comparisons call where
  ordered states D h := by
    rcases h.exists_key with ⟨K, order, key, hkey⟩
    exact ⟨_, .of_key D key, hkey⟩
  integers op m n s := tells_compare_int op m n
  texts op t u s :=
    ⟨tells_compare_str Text.lt_codePoints op t u, tells_compare_str Text.lt_bytes op t u⟩
  booleans op x y s := tells_compare_bool op x y
  nones := ⟨rfl, rfl⟩
  refused op a b s before hkind h hnone := by
    rw [compare_of_not_understands hkind h hnone]
    rfl
  refused_later op hop a b value s t before hless hequal hcall hvalue := by
    refine compare_of_less_false hop hless hequal ?_ hvalue
    simp only [listing, hcall]

end Order

/-! ## Instances that compare by a field -/

/-- A method that compares the field `v` of the receiver with that of its argument. -/
def Method.comparesField (name : String) (op : Relation) : Method :=
  ⟨name, ["self", "other"],
    .block [.ret (.comparison op (.variable ["self", "v"]) (.variable ["other", "v"]))]⟩

theorem Frame.eval_field {f : Frame} {first : String} {c : Class} {address : Address} {n : Nat}
    {value : Value}
    (hfirst : f.scope.get? first = some (.inst c address))
    (hfield : (f.machine.store.fields address).get? "v" = some value) :
    eval (n + 1) (.variable [first, "v"]) f = .ok value f := by
  have hlookup : f.scope.lookup f.machine.store [first, "v"] = .ok value := by
    rw [Scope.lookup, hfirst]
    simp only [Scope.follow, hfield]
  rw [eval]
  show Exec.ofExcept (f.scope.lookup f.machine.store [first, "v"]) f = _
  rw [hlookup]
  rfl

/-- A comparison of two expressions that are integers, and that change nothing, changes nothing either. -/
theorem Frame.eval_comparison_int {f : Frame} {op : Relation} {left right : Node} {n : Nat} {x y : Int64}
    (hleft : eval n left f = .ok (.int x) f) (hright : eval n right f = .ok (.int y) f) :
    ∃ answer, eval (n + 1) (.comparison op left right) f = .ok (.bool answer) f
      ∧ (answer = true ↔ op.Holds x.toInt y.toInt) := by
  have htells : Order.Tells (· = f.machine) (Order.compare (invoke n) op (.int x) (.int y))
      (op.Holds x.toInt y.toInt) := Order.tells_compare_int op x y
  rcases htells f.machine rfl with ⟨answer, last, hrun, rfl, hanswer⟩
  refine ⟨answer, ?_, hanswer⟩
  rw [eval, bind_of_ok hleft, bind_of_ok hright]
  refine bind_of_ok ?_
  rw [ofRun_eq, hrun]

/-- Such a method answers by the integers in the two fields, and writes to its journal only. -/
theorem invoke_comparesField {c d : Class} {name : String} {op : Relation} {i j : Address} {x y : Int64}
    {machine : Machine} (hm : c.method? name = some (.comparesField name op))
    (hx : (machine.store.fields i).get? "v" = some (.int x))
    (hy : (machine.store.fields j).get? "v" = some (.int y)) :
    ∃ value last, invoke 7 (.inst c i) name [.inst d j] machine = .ok value last
      ∧ last.store = machine.store ∧ (value.truthy = true ↔ op.Holds x.toInt y.toInt) := by
  let m := Method.comparesField name op
  let f := m.entry c i name [.inst d j] machine
  have hdispatch : Run.dispatch c name [.inst d j] = .ok m := by
    rw [Run.dispatch, hm]
    rfl
  have hscope : f.scope = (Scope.empty.insert "self" (.inst c i)).insert "other" (.inst d j) := rfl
  have hself : f.scope.get? "self" = some (.inst c i) := by
    rw [hscope, Scope.get?_insert_of_ne _ (by decide), Scope.get?_insert_self]
  have hother : f.scope.get? "other" = some (.inst d j) := by
    rw [hscope, Scope.get?_insert_self]
  -- The frame of the call has the store of the caller, so that the fields hold the same integers there.
  have hleft : eval 3 (.variable ["self", "v"]) f = .ok (.int x) f := Frame.eval_field hself hx
  have hright : eval 3 (.variable ["other", "v"]) f = .ok (.int y) f := Frame.eval_field hother hy
  rcases Frame.eval_comparison_int hleft hright with ⟨answer, hcompare, hanswer⟩
  have hreturn : eval 5 (.ret (.comparison op (.variable ["self", "v"]) (.variable ["other", "v"]))) f
      = .error (.returned (.bool answer)) f := by
    rw [eval]
    exact bind_of_ok hcompare
  have hbody : eval 6 m.body f = .error (.returned (.bool answer)) f := by
    show eval 6 (.block [.ret _]) f = _
    rw [eval]
    exact bind_of_error hreturn
  refine ⟨.bool answer, f.machine, ?_, rfl, hanswer⟩
  rw [invoke_eq hdispatch, hbody]

/-- Two instances of a class that compare by their fields. -/
theorem compare_total_order_of_fields :
    let c : Class := ⟨"V", none, [.comparesField "__lt__" .less, .comparesField "__eq__" .equal]⟩
    let low : Address := ⟨0, 0⟩
    let high : Address := ⟨1, 1⟩
    let made : Store := (Store.empty id).allocate.allocate
    let store : Store := (made.setField low "v" (.int 1)).setField high "v" (.int 2)
    let states : Machine → Prop := fun m => m.store = store
    let D : Value → Prop := fun a => a = .inst c low ∨ a = .inst c high
    Order.Ordered (invoke 7) states D
      ∧ ∃ holds, OfTotalOrder D holds ∧ ∀ op a b, D a → D b →
        Order.Tells states (Order.compare (invoke 7) op a b) (holds op a b) := by
  intro c low high made store states D
  classical
  -- The key of an instance is the integer in its field.
  let key : Value → Int := fun a => if a = .inst c low then 1 else 2
  have hfield : ∀ a, D a → ∃ (i : Address) (x : Int64), a = .inst c i ∧ key a = x.toInt
      ∧ (store.fields i).get? "v" = some (.int x) := by
    rintro a (rfl | rfl)
    · exact ⟨low, 1, rfl, if_pos rfl, rfl⟩
    · exact ⟨high, 2, rfl, if_neg (by simp [low, high]), rfl⟩
  have hcall : ∀ (name : String) (op : Relation), c.method? name = some (.comparesField name op) →
      ∀ {a b : Value}, D a → D b → ∀ {s : Machine}, states s →
        ∃ value t, invoke 7 a name [b] s = .ok value t ∧ states t
          ∧ (value.truthy = true ↔ op.Holds (key a) (key b)) := by
    intro name op hm a b ha hb s hs
    rcases hfield a ha with ⟨i, x, rfl, hkey, hx⟩
    rcases hfield b hb with ⟨j, y, rfl, hkey', hy⟩
    rw [← show s.store = store from hs] at hx hy
    rcases invoke_comparesField hm hx hy with ⟨value, t, hrun, ht, hvalue⟩
    rw [hkey, hkey']
    exact ⟨value, t, hrun, ht.trans hs, hvalue⟩
  have hkeyed : Order.Keyed (invoke 7) states key D := by
    refine ⟨?_, hcall "__lt__" .less rfl, hcall "__eq__" .equal rfl⟩
    intro a ha
    rcases hfield a ha with ⟨i, -, rfl, -⟩
    exact ⟨⟨c, i, rfl, rfl⟩, ⟨c, i, rfl, rfl⟩⟩
  have hordered : Order.Ordered (invoke 7) states D := .instances hkeyed
  exact ⟨hordered, (Order.compare_total_order (invoke 7)).ordered states D hordered⟩

end Offside
