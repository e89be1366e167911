import Offside.Parse.Statement

/-!
# Correspondence — relations that composition of parsers keeps

All parsers are composed of few steps.  This file names the relations between parsers that relate every
step to itself and that composition keeps (`Parser.Correspondence`), and proves once, along the grammar,
that such a relation holds between every parser and the same parser with a larger allowance of steps.  The
two may pull their tokens from different sources.  A parser whose allowance is used up is related to every
other.

Lines of tokens go into errors and nowhere else.  Hence what follows a line may be related to what follows
another one, where the relation allows for other lines in errors.
-/

namespace Offside

/-- An error that is not lexical and the same error on a line that `L` relates to its own. -/
inductive ParseError.Renumbered (L : Nat → Nat → Prop) : ParseError → ParseError → Prop where
  | undeclaredBase (name : String) {n m : Nat} (h : L n m) :
      Renumbered L (.undeclaredBase name n) (.undeclaredBase name m)
  | duplicateClass (name : String) {n m : Nat} (h : L n m) :
      Renumbered L (.duplicateClass name n) (.duplicateClass name m)
  | invalidClass (cause : RuntimeError) {n m : Nat} (h : L n m) :
      Renumbered L (.invalidClass cause n) (.invalidClass cause m)
  | notCallable (name : String) {n m : Nat} (h : L n m) :
      Renumbered L (.notCallable name n) (.notCallable name m)
  | stringifyArity (found : Nat) {n m : Nat} (h : L n m) :
      Renumbered L (.stringifyArity found n) (.stringifyArity found m)

/-- On the same line it is the same error. -/
theorem ParseError.Renumbered.eq {e e' : ParseError} (h : e.Renumbered Eq e') : e = e' := by
  cases h with
  | undeclaredBase _ hline | duplicateClass _ hline | invalidClass _ hline | notCallable _ hline
  | stringifyArity _ hline => rw [hline]

theorem ParseError.Renumbered.ne_lexical {L : Nat → Nat → Prop} {e e' : ParseError}
    (h : e.Renumbered L e') (cause : LexError) : e ≠ .lexical cause := by
  cases h <;> exact nofun

namespace Parser

variable {σ τ : Type} [TokenSource σ] [TokenSource τ]

/-- The relation `R` holds between every step and the same step on the other source, and is kept by
composition. What follows a line may be related to what follows another that `L` relates to it. -/
structure Correspondence (L : Nat → Nat → Prop)
    (R : ∀ {α : Type}, Parser σ α → Parser τ α → Prop) : Prop where
  pure {α : Type} (x : α) : R (pure x : Parser σ α) (pure x : Parser τ α)
  bind {α β : Type} {p : Parser σ α} {q : Parser τ α} {f : α → Parser σ β} {g : α → Parser τ β}
    (hp : R p q) (hf : ∀ x, R (f x) (g x)) : R (p >>= f) (q >>= g)
  fail {α : Type} {e e' : ParseError} (he : e.Renumbered L e') :
    R (fail e : Parser σ α) (fail e' : Parser τ α)
  exhausted {α : Type} (q : Parser τ α) : R exhausted q
  unexpected {α : Type} (expected : Expected) :
    R (unexpected expected : Parser σ α) (unexpected expected : Parser τ α)
  kind : R kind kind
  line {β : Type} {f : Nat → Parser σ β} {g : Nat → Parser τ β}
    (hf : ∀ n m, L n m → R (f n) (g m)) : R (line >>= f) (line >>= g)
  advance : R advance advance
  class? (name : String) : R (class? name) (class? name)
  declare (c : Class) : R (declare c) (declare c)

namespace Correspondence

variable {L : Nat → Nat → Prop} {R : ∀ {α : Type}, Parser σ α → Parser τ α → Prop}
  {n m line line' : Nat}

/-! ## Tokens and repetition -/

theorem expect (h : Correspondence L @R) (k : Kind) : R (Parser.expect k) (Parser.expect k) := by
  refine h.bind h.kind fun found => ?_
  by_cases hk : found = k
  · rw [if_pos hk, if_pos hk]
    exact h.advance
  · rw [if_neg hk, if_neg hk]
    exact h.unexpected _

theorem identifier (h : Correspondence L @R) : R Parser.identifier Parser.identifier := by
  refine h.bind h.kind fun found => ?_
  cases found with
  | identifier name => exact h.bind h.advance fun _ => h.pure name
  | _ => exact h.unexpected _

theorem whileKind (h : Correspondence L @R) (starts : Kind → Bool) {α : Type} {p : Parser σ α}
    {q : Parser τ α} (hp : R p q) (hle : n ≤ m) :
    R (Parser.whileKind starts p n) (Parser.whileKind starts q m) := by
  induction n generalizing m with
  | zero => exact h.exhausted _
  | succ n ih =>
      rcases Nat.exists_eq_add_one.mpr (Nat.zero_lt_of_lt hle) with ⟨m, rfl⟩
      refine h.bind h.kind fun found => ?_
      by_cases hstart : starts found = true
      · rw [if_pos hstart, if_pos hstart]
        exact h.bind hp fun x => h.bind (ih (by omega)) fun xs => h.pure (x :: xs)
      · rw [if_neg hstart, if_neg hstart]
        exact h.pure []

theorem parenthesized (h : Correspondence L @R) {α : Type} {p : Parser σ α} {q : Parser τ α}
    (hitem : R p q) (hle : n ≤ m) : R (Parser.parenthesized p n) (Parser.parenthesized q m) := by
  refine h.bind (h.expect _) fun _ => h.bind h.kind fun found => ?_
  by_cases hclose : found = .punct .rightParen
  · rw [if_pos hclose, if_pos hclose]
    exact h.bind h.advance fun _ => h.pure []
  · rw [if_neg hclose, if_neg hclose]
    have hmore := h.whileKind (· = .punct .comma) (h.bind h.advance fun _ => hitem) hle
    exact h.bind hitem fun x => h.bind hmore fun xs => h.bind (h.expect _) fun _ => h.pure (x :: xs)

theorem leftChain (h : Correspondence L @R) {p : Parser σ Node} {q : Parser τ Node} (hoperand : R p q)
    (op? : Kind → Option (Node → Node → Node)) (hle : n ≤ m) (left : Node) :
    R (Parser.leftChain p op? n left) (Parser.leftChain q op? m left) := by
  induction n generalizing m left with
  | zero => exact h.exhausted _
  | succ n ih =>
      rcases Nat.exists_eq_add_one.mpr (Nat.zero_lt_of_lt hle) with ⟨m, rfl⟩
      refine h.bind h.kind fun found => ?_
      cases op? found with
      | none => exact h.pure left
      | some op => exact h.bind h.advance fun _ => h.bind hoperand fun right => ih (by omega) _

/-- An operand and the chain after it. -/
theorem chain (h : Correspondence L @R) {p : Parser σ Node} {q : Parser τ Node} (hoperand : R p q)
    (op? : Kind → Option (Node → Node → Node)) (hle : n ≤ m) :
    R (p >>= Parser.leftChain p op? n) (q >>= Parser.leftChain q op? m) :=
  h.bind hoperand fun left => h.leftChain hoperand op? hle left

/-! ## Expressions -/

theorem path (h : Correspondence L @R) (hle : n ≤ m) : R (Parser.path n) (Parser.path m) :=
  h.bind h.identifier fun first =>
    h.bind (h.whileKind _ (h.bind h.advance fun _ => h.identifier) hle) fun rest =>
      h.pure (first, rest)

theorem buildCall (h : Correspondence L @R) (object : List String) (name : String) (args : List Node)
    (hline : L line line') :
    R (Parser.buildCall object name args line) (Parser.buildCall object name args line') := by
  cases object with
  | cons first rest => exact h.pure _
  | nil =>
      refine h.bind (h.class? name) fun c? => ?_
      cases c? with
      | some c => exact h.pure _
      | none =>
          by_cases hname : name = stringifyName
          · match args with
            | [x] => simpa [hname] using h.pure (Node.stringify x)
            | [] | _ :: _ :: _ => simpa [hname] using h.fail (.stringifyArity _ hline)
          · simpa [hname] using h.fail (.notCallable name hline)

section Levels

variable {inner : Parser σ Node} {inner' : Parser τ Node}

theorem methodCalls (h : Correspondence L @R) (hinner : R inner inner') (hle : n ≤ m)
    (receiver : Node) : R (Parser.methodCalls inner n receiver) (Parser.methodCalls inner' m receiver) := by
  induction n generalizing m receiver with
  | zero => exact h.exhausted _
  | succ n ih =>
      rcases Nat.exists_eq_add_one.mpr (Nat.zero_lt_of_lt hle) with ⟨m, rfl⟩
      have hle : n ≤ m := by omega
      refine h.bind h.kind fun found => ?_
      by_cases hdot : found = .punct .dot
      · rw [if_pos hdot, if_pos hdot]
        exact h.bind h.advance fun _ => h.bind h.identifier fun method =>
          h.bind (h.parenthesized hinner hle) fun args => ih hle _
      · rw [if_neg hdot, if_neg hdot]
        exact h.pure receiver

theorem callTail (h : Correspondence L @R) (hinner : R inner inner') (hle : n ≤ m)
    (called : String × List String) (hline : L line line') :
    R (Parser.callTail inner n called line) (Parser.callTail inner' m called line') :=
  h.bind (h.parenthesized hinner hle) fun args =>
    h.bind (h.buildCall _ _ args hline) fun call => h.methodCalls hinner hle call

theorem primary (h : Correspondence L @R) (hinner : R inner inner') (hle : n ≤ m) :
    R (Parser.primary inner n) (Parser.primary inner' m) := by
  have hgroup : R (Parser.group inner n) (Parser.group inner' m) :=
    h.bind (h.expect _) fun _ => h.bind hinner fun node => h.bind (h.expect _) fun _ =>
      h.methodCalls hinner hle node
  have hreference : R (Parser.reference inner n) (Parser.reference inner' m) := by
    refine h.line fun start start' hstart => h.bind (h.path hle) fun called =>
      h.bind h.kind fun found => ?_
    by_cases hopen : found = .punct .leftParen
    · rw [if_pos hopen, if_pos hopen]
      exact h.callTail hinner hle called hstart
    · rw [if_neg hopen, if_neg hopen]
      exact h.pure _
  refine h.bind h.kind fun found => ?_
  cases literal? found with
  | some node => exact h.bind h.advance fun _ => h.pure node
  | none =>
      refine h.bind h.kind fun found => ?_
      split
      next => exact hgroup
      next => exact hreference
      next => exact h.unexpected _

theorem factor (h : Correspondence L @R) (hinner : R inner inner') (hle : n ≤ m) :
    R (Parser.factor inner n) (Parser.factor inner' m) := by
  induction n generalizing m with
  | zero => exact h.exhausted _
  | succ n ih =>
      rcases Nat.exists_eq_add_one.mpr (Nat.zero_lt_of_lt hle) with ⟨m, rfl⟩
      refine h.bind h.kind fun found => ?_
      cases sign? found with
      | some sign =>
          exact h.bind h.advance fun _ => h.bind (ih (by omega)) fun operand => h.pure _
      | none => exact h.primary hinner hle

theorem sum (h : Correspondence L @R) (hinner : R inner inner') (hle : n ≤ m) :
    R (Parser.sum inner n) (Parser.sum inner' m) :=
  h.chain (h.chain (h.factor hinner hle) productOp? hle) sumOp? hle

theorem comparison (h : Correspondence L @R) (hinner : R inner inner') (hle : n ≤ m) :
    R (Parser.comparison inner n) (Parser.comparison inner' m) := by
  refine h.bind (h.sum hinner hle) fun left => h.bind h.kind fun found => ?_
  cases relation? found with
  | some op =>
      exact h.bind h.advance fun _ => h.bind (h.sum hinner hle) fun right => h.pure _
  | none => exact h.pure left

theorem inversion (h : Correspondence L @R) (hinner : R inner inner') (hle : n ≤ m) :
    R (Parser.inversion inner n) (Parser.inversion inner' m) := by
  induction n generalizing m with
  | zero => exact h.exhausted _
  | succ n ih =>
      rcases Nat.exists_eq_add_one.mpr (Nat.zero_lt_of_lt hle) with ⟨m, rfl⟩
      refine h.bind h.kind fun found => ?_
      by_cases hnot : found = .keyword .notKw
      · rw [if_pos hnot, if_pos hnot]
        exact h.bind h.advance fun _ => h.bind (ih (by omega)) fun operand => h.pure _
      · rw [if_neg hnot, if_neg hnot]
        exact h.comparison hinner hle

end Levels

theorem expression (h : Correspondence L @R) (hle : n ≤ m) :
    R (Parser.expression n) (Parser.expression m) := by
  induction n generalizing m with
  | zero => exact h.exhausted _
  | succ n ih =>
      rcases Nat.exists_eq_add_one.mpr (Nat.zero_lt_of_lt hle) with ⟨m, rfl⟩
      exact h.chain (h.chain (h.inversion (ih (by omega)) hle) andOp? hle) orOp? hle

/-! ## Statements -/

theorem simpleStatement (h : Correspondence L @R) (hle : n ≤ m) :
    R (Parser.simpleStatement n) (Parser.simpleStatement m) := by
  have hassignment : R (Parser.assignmentOrCall n) (Parser.assignmentOrCall m) := by
    refine h.line fun start start' hstart => h.bind (h.path hle) fun target =>
      h.bind h.kind fun found => ?_
    by_cases hassign : found = .punct .assign
    · rw [if_pos hassign, if_pos hassign]
      exact h.bind h.advance fun _ => h.bind (h.expression hle) fun value => h.pure _
    · rw [if_neg hassign, if_neg hassign]
      exact h.callTail (h.expression hle) hle target hstart
  refine h.bind h.kind fun found => ?_
  split
  next => exact h.bind h.advance fun _ => h.bind (h.expression hle) fun value => h.pure _
  next =>
    refine h.bind h.advance fun _ => h.bind h.kind fun found => ?_
    by_cases hbare : found = .newline
    · rw [if_pos hbare, if_pos hbare]
      exact h.pure _
    · rw [if_neg hbare, if_neg hbare]
      exact h.bind (h.parenthesized (h.expression hle) hle) fun args => h.pure _
  next => exact hassignment

section Bodies

variable {statement : Parser σ Node} {statement' : Parser τ Node}

theorem block (h : Correspondence L @R) (hstatement : R statement statement') (hle : n ≤ m) :
    R (Parser.block statement n) (Parser.block statement' m) :=
  h.bind (h.expect _) fun _ => h.bind (h.expect _) fun _ =>
    h.bind (h.whileKind _ hstatement hle) fun _ => h.bind (h.expect _) fun _ => h.pure _

theorem conditional (h : Correspondence L @R) (hstatement : R statement statement') (hle : n ≤ m) :
    R (Parser.conditional statement n) (Parser.conditional statement' m) := by
  refine h.bind (h.expect _) fun _ => h.bind (h.expression hle) fun condition =>
    h.bind (h.expect _) fun _ => h.bind (h.block hstatement hle) fun thenBody =>
      h.bind h.kind fun found => ?_
  by_cases helse : found = .keyword .elseKw
  · rw [if_pos helse, if_pos helse]
    exact h.bind h.advance fun _ => h.bind (h.expect _) fun _ =>
      h.bind (h.block hstatement hle) fun elseBody => h.pure _
  · rw [if_neg helse, if_neg helse]
    exact h.pure _

theorem method (h : Correspondence L @R) (hstatement : R statement statement') (hle : n ≤ m) :
    R (Parser.method statement n) (Parser.method statement' m) :=
  h.bind (h.expect _) fun _ => h.bind h.identifier fun _ =>
    h.bind (h.parenthesized h.identifier hle) fun _ => h.bind (h.expect _) fun _ =>
      h.bind (h.block hstatement hle) fun _ => h.pure _

theorem base (h : Correspondence L @R) (hline : L line line') :
    R (Parser.base line) (Parser.base line') := by
  refine h.bind h.kind fun found => ?_
  by_cases hopen : found = .punct .leftParen
  · rw [if_pos hopen, if_pos hopen]
    refine h.bind h.advance fun _ => h.bind h.identifier fun name => h.bind (h.expect _) fun _ =>
      h.bind (h.class? name) fun c? => ?_
    cases c? with
    | some c => exact h.pure _
    | none => exact h.fail (.undeclaredBase name hline)
  · rw [if_neg hopen, if_neg hopen]
    exact h.pure _

theorem classDefinition (h : Correspondence L @R) (hstatement : R statement statement') (hle : n ≤ m) :
    R (Parser.classDefinition statement n) (Parser.classDefinition statement' m) := by
  -- The line of the header is kept until the end of the definition, for three errors.
  refine h.line fun start start' hstart => h.bind (h.expect _) fun _ => h.bind h.identifier fun name =>
    h.bind (h.base hstart) fun parent => h.bind (h.expect _) fun _ => h.bind (h.expect _) fun _ =>
      h.bind (h.expect _) fun _ => h.bind (h.whileKind _ (h.method hstatement hle) hle) fun methods =>
        h.bind (h.expect _) fun _ => h.bind (h.class? name) fun c? => ?_
  cases c? with
  | some c => exact h.fail (.duplicateClass name hstart)
  | none =>
      cases hbuild : Class.build name parent methods with
      | error cause => simpa [hbuild] using h.fail (.invalidClass cause hstart)
      | ok c => simpa [hbuild] using h.bind (h.declare c) fun _ => h.pure (Node.classDef c)

end Bodies

theorem statement (h : Correspondence L @R) (hle : n ≤ m) :
    R (Parser.statement n) (Parser.statement m) := by
  induction n generalizing m with
  | zero => exact h.exhausted _
  | succ n ih =>
      rcases Nat.exists_eq_add_one.mpr (Nat.zero_lt_of_lt hle) with ⟨m, rfl⟩
      have hbody := ih (m := m) (by omega)
      refine h.bind h.kind fun found => ?_
      split
      next => exact h.classDefinition hbody hle
      next => exact h.conditional hbody hle
      next =>
        exact h.bind (h.simpleStatement hle) fun node => h.bind (h.expect _) fun _ => h.pure node

theorem statements (h : Correspondence L @R) (hle : n ≤ m) :
    R (Parser.statements n) (Parser.statements m) :=
  h.whileKind _ (h.statement hle) hle

end Correspondence

end Parser
end Offside
