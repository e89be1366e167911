import Offside.Proofs.Lexis.Rendering
import Offside.Proofs.Trees.WellFormed

/-!
# Source — the text of an expression

This file writes expressions down, with parentheses only where the form of the tree asks for them:

- `Rung.height` : how loosely the operators of a rung bind, primaries at the bottom
- `Node.rung`   : the rung on which an expression stands without parentheses
- `Node.kinds`  : the tokens of an expression
- `Node.source` : its text, with spaces around operators and none inside of paths and calls

The lexer finds the tokens in the text (`reads_written`).  What the grammar reads from them is the
subject of `Offside.Proofs.Printing.Writings`.
-/

namespace Offside

open Grammar

/-! ## Rungs -/

def Grammar.Rung.height : Rung → Nat
  | .primary => 0
  | .factor => 1
  | .chain .product => 2
  | .chain .sum => 3
  | .comparison => 4
  | .inversion => 5
  | .chain .and => 6
  | .chain .or => 7

namespace Arithmetic

def level : Arithmetic → Level
  | add | sub => .sum
  | mul | div => .product

def joint : (op : Arithmetic) → Joint op.level
  | add => .plus
  | sub => .minus
  | mul => .times
  | div => .over

theorem node_joint (op : Arithmetic) : op.joint.node = Node.arithmetic op := by
  cases op <;> rfl

end Arithmetic

namespace Connective

def level : Connective → Level
  | and => .and
  | or => .or

def joint : (op : Connective) → Joint op.level
  | and => .and
  | or => .or

theorem node_joint (op : Connective) : op.joint.node = Node.logical op := by
  cases op <;> rfl

end Connective

namespace Node

def rung : Node → Rung
  | .arithmetic op _ _ => .chain op.level
  | .logical op _ _ => .chain op.level
  | .comparison .. => .comparison
  | .not _ => .inversion
  | .signed .. => .factor
  | _ => .primary

/-- An expression stands on the rung without parentheses. -/
def standsOn (x : Node) (r : Rung) : Bool :=
  x.rung.height ≤ r.height

/-- A call of a method stands behind the expression without parentheses. -/
def isCallable : Node → Bool
  | .variable _ | .call .. | .construct .. | .stringify _ => true
  | _ => false

end Node

/-! ## Tokens -/

/-- The literal that a constant is written as. -/
def Value.literal : Value → Literal
  | .int n => .integer n
  | .str s => .string s
  | .bool b => .truth b
  | .none | .cls _ | .inst .. => .none

theorem Value.node_literal {value : Value} (h : value.isLiteral = true) :
    value.literal.node = .constant value := by
  cases value with
  | int | str | bool => rfl
  | none | cls | inst => cases h

/-- Tokens in parentheses, unless they stand for themselves. -/
def Kind.enclosed (bare : Bool) (ks : List Kind) : List Kind :=
  if bare then ks else .punct .leftParen :: ks ++ [.punct .rightParen]

/-- The tokens of a dotted path. -/
def Kind.dotted : List String → List Kind
  | [] => []
  | first :: rest => .identifier first :: rest.flatMap fun name => [.punct .dot, .identifier name]

mutual

/-- The tokens of an expression. Operators of one level group from the left, so that what stands on
their right is tighter; a comparison has no comparison on either side. -/
def Node.kinds : Node → List Kind
  | .constant value => [value.literal.kind]
  | .none => [Literal.none.kind]
  | .variable path => Kind.dotted path
  | .arithmetic op left right =>
      Kind.enclosed (left.standsOn (.chain op.level)) left.kinds
        ++ op.joint.kind :: Kind.enclosed (right.standsOn op.level.operand) right.kinds
  | .signed sign x => .punct (signMark sign) :: Kind.enclosed (x.standsOn .factor) x.kinds
  | .not x => .keyword .notKw :: Kind.enclosed (x.standsOn .inversion) x.kinds
  | .logical op left right =>
      Kind.enclosed (left.standsOn (.chain op.level)) left.kinds
        ++ op.joint.kind :: Kind.enclosed (right.standsOn op.level.operand) right.kinds
  | .comparison op left right =>
      Kind.enclosed (left.standsOn (.chain .sum)) left.kinds
        ++ .punct (relationMark op) :: Kind.enclosed (right.standsOn (.chain .sum)) right.kinds
  | .call receiver method args =>
      Kind.enclosed receiver.isCallable receiver.kinds
        ++ .punct .dot :: .identifier method :: Node.kindsOfArgs args
  | .construct c args => .identifier c.name :: Node.kindsOfArgs args
  | .stringify x =>
      .identifier "str" :: .punct .leftParen :: x.kinds ++ [.punct .rightParen]
  -- Statements are no expressions.
  | .assign .. | .setField .. | .block _ | .print _ | .ret _ | .ifElse .. | .classDef _ => []

def Node.kindsOfArgs : List Node → List Kind
  | [] => [.punct .leftParen, .punct .rightParen]
  | x :: xs => .punct .leftParen :: x.kinds ++ Node.kindsOfMoreArgs xs ++ [.punct .rightParen]

def Node.kindsOfMoreArgs : List Node → List Kind
  | [] => []
  | x :: xs => .punct .comma :: x.kinds ++ Node.kindsOfMoreArgs xs

end

/-! ## Text -/

namespace Kind

/-- How a token is written in a line. -/
def lexeme : Kind → List Char
  | identifier name => name.toList
  | integer n => Nat.toDigits 10 n.toInt.toNat
  | string s => '\x22' :: s.toList.flatMap (Written.escape '\x22') ++ ['\x22']
  | keyword k => k.text.toList
  | punct p => p.text.toList
  | newline | indent | dedent | endOfInput => []

/-- An operand ends with the token, so that a sign behind it is one of two operands. -/
def endsOperand : Kind → Bool
  | identifier _ | integer _ | string _ | punct .rightParen => true
  | keyword .trueKw | keyword .falseKw | keyword .noneKw => true
  | _ => false

/-- No space is written between two tokens. In front of them stands an operand or not. -/
def hugs (operand : Bool) : Kind → Kind → Bool
  | punct .leftParen, _ | punct .dot, _ => true
  | _, punct .rightParen | _, punct .comma | _, punct .dot => true
  | identifier _, punct .leftParen => true
  | punct .plus, _ | punct .minus, _ => !operand
  | _, _ => false

def written (operand : Bool) : List Kind → List Char
  | [] => []
  | [k] => k.lexeme
  | k :: k' :: ks =>
      k.lexeme ++ (if k.hugs operand k' then [] else [' ']) ++ written k.endsOperand (k' :: ks)

end Kind

/-- The text of an expression. -/
def Node.source (x : Node) : String :=
  String.ofList (Kind.written false x.kinds)

example :
    let path : Node := .variable ["a", "b"]
    let sum : Node := .arithmetic .sub (.constant (.int 1)) (.arithmetic .sub path .none)
    (Node.not (.comparison .less (.signed .minus sum) (.call path "m" [.constant (.str "\"")]))).source
      = "not -(1 - (a.b - None)) < a.b.m(\"\\\"\")" := by
  decide +kernel

/-! ## Reading the text -/

namespace Kind

/-- The token stands in a line and can be read there. -/
def isWritten (k : Kind) : Bool :=
  k.isContent && k.isSpelled

theorem exists_written {k : Kind} (h : k.isWritten = true) :
    ∃ t : Written, t.kind = k ∧ t.lexeme = k.lexeme := by
  cases k with
  | identifier name =>
      have hname : isName name = true := h
      unfold isName at hname
      split at hname
      next => cases hname
      next first later hword =>
        rw [Bool.and_eq_true, Bool.and_eq_true, Option.isNone_iff_eq_none] at hname
        have hsame : String.ofList (first :: later) = name := by rw [← hword, String.ofList_toList]
        refine ⟨.name first later hname.1.1 (List.all_eq_true.mp hname.1.2) (hsame ▸ hname.2), ?_, ?_⟩
        · rw [Written.kind, hsame]
        · exact hword.symm
  | integer n =>
      have hnonneg : 0 ≤ n.toInt := Int64.le_iff_toInt_le.mp (of_decide_eq_true h)
      have hbound : n.toInt < 2 ^ 63 := n.toInt_lt
      have hle : n.toInt.toNat ≤ Lexeme.maxInteger := by
        rw [Lexeme.maxInteger]
        omega
      refine ⟨.integer n.toInt.toNat hle, ?_, rfl⟩
      rw [Written.kind, ← Int64.ofInt_eq_ofNat, Int.toNat_of_nonneg hnonneg, Int64.ofInt_toInt]
  | string s =>
      exact ⟨.string '\x22' rfl s.toList, congrArg Kind.string String.ofList_toList, rfl⟩
  | keyword k => exact ⟨.keyword k, rfl, rfl⟩
  | punct p => exact ⟨.punct p, rfl, rfl⟩
  | newline | indent | dedent | endOfInput => cases h

theorem spells_lexeme {k : Kind} (h : k.isWritten = true) : Spells k k.lexeme := by
  rcases exists_written h with ⟨t, hkind, hlexeme⟩
  rw [← hlexeme, ← hkind]
  exact t.spells

theorem maximal_of_space {k : Kind} (h : k.isWritten = true) (later : List Char) :
    k.Maximal [] ∧ k.Maximal (' ' :: later) := by
  rcases exists_written h with ⟨t, rfl, -⟩
  exact t.maximal_of_space later

theorem isLine_lexeme {k : Kind} (h : k.isWritten = true) : Text.IsLine k.lexeme := by
  rcases exists_written h with ⟨t, -, hlexeme⟩
  rw [← hlexeme]
  exact t.isLine_lexeme

/-- Where no space is written, the second token does not continue the first. -/
theorem maximal_of_hugs {operand : Bool} {k k' : Kind} (h : k.hugs operand k' = true)
    (later : List Char) : k.Maximal (k'.lexeme ++ later) := by
  unfold hugs at h
  split at h
  -- Behind an opening parenthesis, a dot or a sign any token may stand.
  next => exact fun _ _ => rfl
  next => exact fun _ _ => rfl
  next =>
    intro c hc
    cases hc
    cases k with
    | punct p => cases p <;> rfl
    | _ => rfl
  next =>
    intro c hc
    cases hc
    cases k with
    | punct p => cases p <;> rfl
    | _ => rfl
  next =>
    intro c hc
    cases hc
    cases k with
    | punct p => cases p <;> rfl
    | _ => rfl
  next =>
    intro c hc
    cases hc
    rfl
  next => exact fun _ _ => rfl
  next => exact fun _ _ => rfl
  next => cases h

theorem written_cons (operand : Bool) (k : Kind) (ks : List Kind) :
    ∃ later, written operand (k :: ks) = k.lexeme ++ later := by
  cases ks with
  | nil => exact ⟨[], (List.append_nil _).symm⟩
  | cons k' ks => exact ⟨_, List.append_assoc _ _ _⟩

/-- The tokens are read from what is written for them. -/
theorem reads_written {ks : List Kind} (h : ∀ k ∈ ks, k.isWritten = true) (operand : Bool) :
    Layout.Reads (written operand ks) ks := by
  induction ks generalizing operand with
  | nil => exact .done rfl
  | cons k ks ih =>
      have hall := List.forall_mem_cons.mp h
      cases ks with
      | nil =>
          have hreads := Layout.Reads.of_spells (spells_lexeme hall.1) (maximal_of_space hall.1 []).1
            (.done rfl)
          rwa [List.append_nil] at hreads
      | cons k' ks =>
          have hlater := ih hall.2 k.endsOperand
          rw [written, List.append_assoc]
          split
          next hhugs =>
            rcases written_cons k.endsOperand k' ks with ⟨later, hcons⟩
            have hmax := maximal_of_hugs hhugs later
            rw [← hcons] at hmax
            exact .of_spells (spells_lexeme hall.1) hmax hlater
          next =>
            exact .of_spells (spells_lexeme hall.1) (maximal_of_space hall.1 _).2
              (.cons_blank rfl hlater)

theorem isLine_written {ks : List Kind} (h : ∀ k ∈ ks, k.isWritten = true) (operand : Bool) :
    Text.IsLine (written operand ks) := by
  induction ks generalizing operand with
  | nil => exact ⟨nofun, nofun⟩
  | cons k ks ih =>
      have hall := List.forall_mem_cons.mp h
      cases ks with
      | nil => exact isLine_lexeme hall.1
      | cons k' ks =>
          have hlater := ih hall.2 k.endsOperand
          have hnext := List.forall_mem_cons.mp hall.2
          -- The end of the line is that of its later part, in which some character stands.
          rcases (spells_lexeme hnext.1).exists_cons with ⟨c, cs, hlexeme, -⟩
          rcases written_cons k.endsOperand k' ks with ⟨later, hcons⟩
          rw [hlexeme, List.cons_append] at hcons
          rw [hcons] at hlater
          rw [written, hcons]
          have hgap : '\n' ∉ k.lexeme ++ (if k.hugs operand k' then [] else [' ']) := by
            intro hmem
            rcases List.mem_append.mp hmem with hmem | hmem
            · exact (isLine_lexeme hall.1).noFeed hmem
            · split at hmem
              · cases hmem
              · cases List.mem_singleton.mp hmem
          exact hlater.append hgap

theorem all_isWritten_enclosed {ks : List Kind} (h : ks.all isWritten = true) (bare : Bool) :
    (enclosed bare ks).all isWritten = true := by
  rw [enclosed]
  split
  · exact h
  · simp [h, isWritten, isContent, isSpelled]

theorem all_isWritten_operands {left right : List Kind} {k : Kind} (hleft : left.all isWritten = true)
    (hk : k.isWritten = true) (hright : right.all isWritten = true) (bare bare' : Bool) :
    (enclosed bare left ++ k :: enclosed bare' right).all isWritten = true := by
  rw [List.all_append, List.all_cons, all_isWritten_enclosed hleft, hk, all_isWritten_enclosed hright]
  rfl

theorem all_isWritten_dotted {path : List String} (h : ∀ name ∈ path, isName name = true) :
    (dotted path).all isWritten = true := by
  cases path with
  | nil => rfl
  | cons first rest => simpa [dotted, isWritten, isContent, isSpelled] using h

end Kind

/-! ## The tokens of an expression -/

theorem Value.isWritten_literal {value : Value} (h : value.isLiteral = true) :
    value.literal.kind.isWritten = true := by
  cases value with
  | int n => exact h
  | str s => rfl
  | bool b => cases b <;> rfl
  | none | cls | inst => cases h

theorem Arithmetic.isWritten_joint (op : Arithmetic) : op.joint.kind.isWritten = true := by
  cases op <;> rfl

theorem Connective.isWritten_joint (op : Connective) : op.joint.kind.isWritten = true := by
  cases op <;> rfl

mutual

/-- The tokens of an expression can be written. -/
theorem Node.isWritten_kinds (x : Node) (h : x.Expression) : x.kinds.all Kind.isWritten = true := by
  cases x with
  | constant value =>
      cases h with
      | constant hvalue => simp [Node.kinds, Value.isWritten_literal hvalue]
  | none => rfl
  | «variable» path =>
      cases h with
      | «variable» hpath hnames => exact Kind.all_isWritten_dotted hnames
  | arithmetic op left right =>
      cases h with
      | arithmetic hleft hright =>
          exact Kind.all_isWritten_operands (left.isWritten_kinds hleft) op.isWritten_joint
            (right.isWritten_kinds hright) _ _
  | logical op left right =>
      cases h with
      | logical hleft hright =>
          exact Kind.all_isWritten_operands (left.isWritten_kinds hleft) op.isWritten_joint
            (right.isWritten_kinds hright) _ _
  | comparison op left right =>
      cases h with
      | comparison hleft hright =>
          exact Kind.all_isWritten_operands (left.isWritten_kinds hleft) rfl
            (right.isWritten_kinds hright) _ _
  | signed sign x =>
      cases h with
      | signed hx => exact Kind.all_isWritten_enclosed (x.isWritten_kinds hx) _
  | not x =>
      cases h with
      | not hx => exact Kind.all_isWritten_enclosed (x.isWritten_kinds hx) _
  | call receiver method args =>
      cases h with
      | call hreceiver hmethod hargs =>
          have ihReceiver := Kind.all_isWritten_enclosed (receiver.isWritten_kinds hreceiver)
          have ihArgs := Node.isWritten_kindsOfArgs args hargs
          have hname : (Kind.identifier method).isWritten = true := hmethod
          simp only [Node.kinds, List.all_append, List.all_cons, ihReceiver, ihArgs, hname]
          rfl
  | construct c args =>
      cases h with
      | construct hclass hargs =>
          have ihArgs := Node.isWritten_kindsOfArgs args hargs
          cases hclass with
          | mk hname => exact Bool.and_eq_true_iff.mpr ⟨hname, ihArgs⟩
  | stringify x =>
      cases h with
      | stringify hx =>
          have ihX := x.isWritten_kinds hx
          have hname : (Kind.identifier "str").isWritten = true := by decide +kernel
          simp only [Node.kinds, List.all_append, List.all_cons, ihX, hname]
          rfl
  | assign | setField | block | print | ret | ifElse | classDef => rfl

theorem Node.isWritten_kindsOfArgs (args : List Node) (h : ∀ x ∈ args, x.Expression) :
    (Node.kindsOfArgs args).all Kind.isWritten = true := by
  cases args with
  | nil => rfl
  | cons x xs =>
      have hall := List.forall_mem_cons.mp h
      have ihX := x.isWritten_kinds hall.1
      have ihXs := Node.isWritten_kindsOfMoreArgs xs hall.2
      simp only [Node.kindsOfArgs, List.all_append, List.all_cons, ihX, ihXs]
      rfl

theorem Node.isWritten_kindsOfMoreArgs (args : List Node) (h : ∀ x ∈ args, x.Expression) :
    (Node.kindsOfMoreArgs args).all Kind.isWritten = true := by
  cases args with
  | nil => rfl
  | cons x xs =>
      have hall := List.forall_mem_cons.mp h
      have ihX := x.isWritten_kinds hall.1
      have ihXs := Node.isWritten_kindsOfMoreArgs xs hall.2
      simp only [Node.kindsOfMoreArgs, List.all_append, List.all_cons, ihX, ihXs]
      rfl

end

end Offside
