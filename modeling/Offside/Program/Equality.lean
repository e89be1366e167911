import Offside.Program.Syntax

/-!
# Equality of programs — same shape, same classes

This file decides whether two trees are the same program. Classes agree when they have the same name,
the same parent and the same methods in whatever order; instances agree when they are the same one.
-/

namespace Offside

mutual

/-- Whether two values are the same one. The classes that a tree defines or constructs are compared by
their structure, and so is a class that is a value, which a host that shares its objects would compare by
identity. No tree that is read tells these apart: its literals are integers, texts and truth values, and
never a class or an instance (`Value.isLiteral`). -/
def Value.same : Value → Value → Bool
  | .none, .none => true
  | .int m, .int n => m == n
  | .str s, .str t => s == t
  | .bool a, .bool b => a == b
  | .cls c, .cls d => c.same d
  | .inst _ m, .inst _ n => m == n
  | _, _ => false

def Node.same : Node → Node → Bool
  | .constant v, .constant w => v.same w
  | .none, .none => true
  | .variable p, .variable q => p == q
  | .arithmetic o l r, .arithmetic o' l' r' => o == o' && l.same l' && r.same r'
  | .signed s x, .signed s' x' => s == s' && x.same x'
  | .not x, .not x' => x.same x'
  | .logical o l r, .logical o' l' r' => o == o' && l.same l' && r.same r'
  | .comparison o l r, .comparison o' l' r' => o == o' && l.same l' && r.same r'
  | .assign n x, .assign n' x' => n == n' && x.same x'
  | .setField p f x, .setField p' f' x' => p == p' && f == f' && x.same x'
  | .block xs, .block ys => Node.sameAll xs ys
  | .print xs, .print ys => Node.sameAll xs ys
  | .call x m xs, .call x' m' ys => x.same x' && m == m' && Node.sameAll xs ys
  | .construct c xs, .construct d ys => c.same d && Node.sameAll xs ys
  | .stringify x, .stringify x' => x.same x'
  | .ret x, .ret x' => x.same x'
  | .ifElse c t e, .ifElse c' t' e' => c.same c' && t.same t' && Node.sameOption e e'
  | .classDef c, .classDef d => c.same d
  | _, _ => false

def Node.sameAll : List Node → List Node → Bool
  | [], [] => true
  | x :: xs, y :: ys => x.same y && Node.sameAll xs ys
  | _, _ => false

def Node.sameOption : Option Node → Option Node → Bool
  | .none, .none => true
  | .some x, .some y => x.same y
  | _, _ => false

def Method.same : Method → Method → Bool
  | ⟨n, ps, b⟩, ⟨n', ps', b'⟩ => n == n' && ps == ps' && b.same b'

/-- Whether each method has the same method among others. -/
def Method.allAmong : List Method → List Method → Bool
  | [], _ => true
  | m :: ms, others => others.any (fun o => m.same o) && Method.allAmong ms others

def Class.same : Class → Class → Bool
  | ⟨n, p, ms⟩, ⟨n', p', ms'⟩ =>
      n == n' && Class.sameOption p p' && ms.length == ms'.length && Method.allAmong ms ms'

def Class.sameOption : Option Class → Option Class → Bool
  | .none, .none => true
  | .some c, .some d => c.same d
  | _, _ => false

end

/-- Whether two programs have the same statements in the same order. -/
def Program.same (p q : Program) : Bool :=
  Node.sameAll p.statements q.statements

/-! ## Reflexivity -/

mutual

theorem Value.same_self : ∀ v : Value, v.same v = true
  | .none => by rw [Value.same]
  | .int n => by rw [Value.same, beq_self_eq_true]
  | .str s => by rw [Value.same, beq_self_eq_true]
  | .bool b => by rw [Value.same, beq_self_eq_true]
  | .cls c => by rw [Value.same, Class.same_self c]
  | .inst _ address => by rw [Value.same, beq_self_eq_true]

theorem Node.same_self : ∀ n : Node, n.same n = true
  | .constant v => by rw [Node.same, Value.same_self v]
  | .none => by rw [Node.same]
  | .variable path => by rw [Node.same, beq_self_eq_true]
  | .arithmetic op l r => by
      simp only [Node.same, beq_self_eq_true, Node.same_self l, Node.same_self r, Bool.and_self]
  | .signed sign x => by
      simp only [Node.same, beq_self_eq_true, Node.same_self x, Bool.and_self]
  | .not x => by rw [Node.same, Node.same_self x]
  | .logical op l r => by
      simp only [Node.same, beq_self_eq_true, Node.same_self l, Node.same_self r, Bool.and_self]
  | .comparison op l r => by
      simp only [Node.same, beq_self_eq_true, Node.same_self l, Node.same_self r, Bool.and_self]
  | .assign name x => by
      simp only [Node.same, beq_self_eq_true, Node.same_self x, Bool.and_self]
  | .setField path field x => by
      simp only [Node.same, beq_self_eq_true, Node.same_self x, Bool.and_self]
  | .block body => by rw [Node.same, Node.sameAll_self body]
  | .print args => by rw [Node.same, Node.sameAll_self args]
  | .call x method args => by
      simp only [Node.same, beq_self_eq_true, Node.same_self x, Node.sameAll_self args, Bool.and_self]
  | .construct c args => by
      simp only [Node.same, Class.same_self c, Node.sameAll_self args, Bool.and_self]
  | .stringify x => by rw [Node.same, Node.same_self x]
  | .ret x => by rw [Node.same, Node.same_self x]
  | .ifElse c t e => by
      simp only [Node.same, Node.same_self c, Node.same_self t, Node.sameOption_self e, Bool.and_self]
  | .classDef c => by rw [Node.same, Class.same_self c]

theorem Node.sameAll_self : ∀ nodes : List Node, Node.sameAll nodes nodes = true
  | [] => by rw [Node.sameAll]
  | n :: later => by rw [Node.sameAll, Node.same_self n, Node.sameAll_self later, Bool.and_self]

theorem Node.sameOption_self : ∀ node : Option Node, Node.sameOption node node = true
  | .none => by rw [Node.sameOption]
  | .some n => by rw [Node.sameOption, Node.same_self n]

theorem Method.same_self : ∀ m : Method, m.same m = true
  | ⟨name, params, body⟩ => by
      simp only [Method.same, beq_self_eq_true, Node.same_self body, Bool.and_self]

/-- Methods are among others that include them. -/
theorem Method.allAmong_of_subset : ∀ (methods : List Method) {others : List Method},
    methods ⊆ others → Method.allAmong methods others = true
  | [], _, _ => by rw [Method.allAmong]
  | m :: later, others, h => by
      -- The other methods include the first one itself, wherever it stands.
      have hm : others.any (fun o => m.same o) = true :=
        List.any_eq_true.mpr ⟨m, h List.mem_cons_self, Method.same_self m⟩
      have hlater := Method.allAmong_of_subset later (List.subset_of_cons_subset h)
      rw [Method.allAmong, hm, hlater, Bool.and_self]

theorem Class.same_self : ∀ c : Class, c.same c = true
  | ⟨name, parent, methods⟩ => by
      simp only [Class.same, beq_self_eq_true, Class.sameOption_self parent,
        Method.allAmong_of_subset methods (List.Subset.refl methods), Bool.and_self]

theorem Class.sameOption_self : ∀ c : Option Class, Class.sameOption c c = true
  | .none => by rw [Class.sameOption]
  | .some c => by rw [Class.sameOption, Class.same_self c]

end

/-- Equal programs are the same. -/
theorem Program.same_self (p : Program) : p.same p = true :=
  Node.sameAll_self p.statements

end Offside
