import Offside.Parse.Statement

/-!
# Progress — parsers take tokens and never run out of steps

This file bounds the steps of every parser by the number of tokens left, whatever source they come from.
`Fares r m` says of a result that the allowance sufficed, that nothing was asked for behind the end of the
input, and that fewer than `m` tokens remain after a success. The main statement, `fares_statements`, is
that an allowance above the number of tokens is always enough.
-/

namespace Offside.Parser

variable {σ : Type} [TokenSource σ]

/-- Neither the allowance nor the text was used up, and after a success fewer than `m` tokens remain. -/
def Fares {α : Type} (r : EStateM.Result Stop (ParseState σ) α) (m : Nat) : Prop :=
  match r with
  | .ok _ s => s.remaining < m
  | .error (.error _) _ => True
  | .error .exhausted _ => False

/-- From fewer than `n` tokens the parser takes at least one of them. -/
def Reads {α : Type} (n : Nat) (p : Parser σ α) : Prop :=
  ∀ s, s.remaining < n → Fares (p s) s.remaining

/-! ## Composition -/

theorem fares_pure {α : Type} {x : α} {s : ParseState σ} {m : Nat} (h : s.remaining < m) :
    Fares ((pure x : Parser σ α) s) m := h

theorem fares_bind {α β : Type} {p : Parser σ α} {f : α → Parser σ β} {s : ParseState σ} {m k : Nat}
    (hp : Fares (p s) m) (hf : ∀ x s', s'.remaining < m → Fares (f x s') k) :
    Fares ((p >>= f) s) k := by
  show Fares (EStateM.bind p f s) k
  unfold EStateM.bind
  match p s, hp with
  | .ok x s', hp => exact hf x s' hp
  | .error (.error _) _, _ => trivial

theorem Fares.mono {α : Type} {r : EStateM.Result Stop (ParseState σ) α} {m k : Nat}
    (h : Fares r m) (hmk : m ≤ k) : Fares r k := by
  match r, h with
  | .ok _ _, h => exact Nat.lt_of_lt_of_le h hmk
  | .error (.error _) _, _ => trivial

theorem Reads.mono {α : Type} {p : Parser σ α} {m n : Nat} (h : Reads n p) (hmn : m ≤ n) :
    Reads m p :=
  fun s hs => h s (Nat.lt_of_lt_of_le hs hmn)

/-- Looking at the current token changes nothing. -/
theorem fares_kind {β : Type} {f : Kind → Parser σ β} {s : ParseState σ} {k : Nat}
    (h : ∀ x, s.current.kind = x → Fares (f x s) k) : Fares ((kind >>= f) s) k :=
  h _ rfl

theorem fares_line {β : Type} {f : Nat → Parser σ β} {s : ParseState σ} {k : Nat}
    (h : ∀ x, Fares (f x s) k) : Fares ((line >>= f) s) k :=
  h _

theorem fares_class? {β : Type} {f : Option Class → Parser σ β} {name : String} {s : ParseState σ}
    {k : Nat} (h : ∀ x, Fares (f x s) k) : Fares ((class? name >>= f) s) k :=
  h _

/-! ## Single tokens -/

/-- The current token is not the end of the input, so that there is a next one to go on to. -/
theorem fares_advance {s : ParseState σ} {k : Kind} (h : s.current.kind = k)
    (hk : k ≠ .endOfInput) : Fares (advance s) s.remaining := by
  subst h
  unfold advance
  rw [if_neg hk]
  split
  next token after hpull =>
    simp only [Fares, ParseState.remaining, if_neg hk]
    split
    next => omega
    next hend => exact Nat.succ_lt_succ (TokenSource.size_lt_of_pull hpull hend)
  next e after hpull => trivial
  next hpull => simp [Fares, ParseState.remaining, hk]

theorem fares_expect {k : Kind} (hk : k ≠ .endOfInput) (s : ParseState σ) :
    Fares (expect k s) s.remaining := by
  unfold expect
  refine fares_kind fun x hx => ?_
  split
  next h => exact fares_advance hx (h ▸ hk)
  next h => trivial

theorem fares_declare (c : Class) (s : ParseState σ) : Fares (declare c s) (s.remaining + 1) :=
  Nat.lt_succ_self s.remaining

theorem fares_identifier (s : ParseState σ) : Fares (identifier s) s.remaining := by
  unfold identifier
  refine fares_kind fun x hx => ?_
  split
  next name =>
    exact fares_bind (fares_advance hx (by simp)) fun _ _ hs => fares_pure hs
  next => trivial

/-! ## Repetition -/

theorem fares_whileKind {α : Type} {starts : Kind → Bool} {p : Parser σ α} {n : Nat}
    (hp : ∀ s : ParseState σ, starts s.current.kind = true → s.remaining < n →
      Fares (p s) s.remaining)
    (m : Nat) (s : ParseState σ) (hm : s.remaining < m) (hn : s.remaining < n) :
    Fares (whileKind starts p m s) (s.remaining + 1) := by
  -- Each item takes a token, so the allowance of the loop falls no faster than the tokens.
  induction m generalizing s with
  | zero => omega
  | succ m ih =>
      unfold whileKind
      refine fares_kind fun k hk => ?_
      split
      next h =>
        refine fares_bind (hp s (hk ▸ h) hn) fun x s₁ h₁ => ?_
        refine fares_bind (ih s₁ (by omega) (by omega)) fun xs s₂ h₂ => ?_
        exact fares_pure (by omega)
      next h => exact fares_pure (by omega)

/-- Behind a mark, from as many tokens as before it. -/
theorem fares_after {α : Type} {p : Parser σ α} {n : Nat} (hp : Reads n p) {mark : Punct}
    (s : ParseState σ) (hmark : decide (s.current.kind = .punct mark) = true)
    (hs : s.remaining < n) : Fares ((do advance; p) s) s.remaining := by
  refine fares_bind (fares_advance (of_decide_eq_true hmark) nofun) fun _ s₁ h₁ => ?_
  exact (hp s₁ (by omega)).mono (by omega)

/-- Items are read after the opening parenthesis, so from fewer tokens. -/
theorem reads_parenthesized {α : Type} {item : Parser σ α} {n : Nat} (hitem : Reads n item)
    (m : Nat) (hnm : n ≤ m) : Reads (n + 1) (parenthesized item m) := by
  intro s hs
  unfold parenthesized
  refine fares_bind (fares_expect (by simp) s) fun _ s₁ h₁ => ?_
  refine fares_kind fun k hk => ?_
  split
  next h =>
    exact fares_bind (fares_advance hk (h ▸ nofun)) fun _ s₂ h₂ => fares_pure (by omega)
  next h =>
    refine fares_bind (hitem s₁ (by omega)) fun x s₂ h₂ => ?_
    refine fares_bind (fares_whileKind (fares_after hitem) m s₂ (by omega) (by omega))
      fun xs s₃ h₃ => ?_
    refine fares_bind (fares_expect (by simp) s₃) fun _ s₄ h₄ => ?_
    exact fares_pure (by omega)

theorem fares_leftChain {α : Type} {operand : Parser σ α} {op? : Kind → Option (α → α → α)}
    (hop : op? .endOfInput = none) {n : Nat} (hp : Reads n operand) (m : Nat) (s : ParseState σ)
    (x : α) (hm : s.remaining < m) (hn : s.remaining < n) :
    Fares (leftChain operand op? m x s) (s.remaining + 1) := by
  induction m generalizing s x with
  | zero => omega
  | succ m ih =>
      unfold leftChain
      refine fares_kind fun k hk => ?_
      cases hfound : op? k with
      | some op =>
          have hne : k ≠ .endOfInput := by
            rintro rfl
            cases hop.symm.trans hfound
          refine fares_bind (fares_advance hk hne) fun _ s₁ h₁ => ?_
          refine fares_bind (hp s₁ (by omega)) fun right s₂ h₂ => ?_
          exact (ih s₂ _ (by omega) (by omega)).mono (by omega)
      | none => exact fares_pure (by omega)

/-- An operand and the chain after it. -/
theorem reads_chain {α : Type} {operand : Parser σ α} {op? : Kind → Option (α → α → α)}
    (hop : op? .endOfInput = none) {n : Nat} (hp : Reads n operand) :
    Reads n (operand >>= leftChain operand op? n) := by
  intro s hs
  refine fares_bind (hp s hs) fun x s₁ h₁ => ?_
  exact (fares_leftChain hop hp n s₁ x (by omega) (by omega)).mono (by omega)

/-! ## Expressions -/

section Levels

variable {inner : Parser σ Node} {n : Nat}

theorem reads_path (n : Nat) : Reads n (path n : Parser σ _) := by
  intro s hs
  unfold path
  refine fares_bind (fares_identifier s) fun first s₁ h₁ => ?_
  refine fares_bind (fares_whileKind (n := n)
    (fares_after fun s _ => fares_identifier s) n s₁ (by omega) (by omega))
    fun rest s₂ h₂ => ?_
  exact fares_pure (by omega)

theorem fares_buildCall (object : List String) (name : String) (args : List Node) (l : Nat)
    (s : ParseState σ) : Fares (buildCall object name args l s) (s.remaining + 1) := by
  unfold buildCall
  split
  next => exact fares_pure (by omega)
  next =>
    refine fares_class? fun c? => ?_
    split
    next c => exact fares_pure (by omega)
    next =>
      split
      next =>
        split
        next x => exact fares_pure (by omega)
        next => trivial
      next => trivial

theorem fares_methodCalls (hinner : Reads n inner) (m : Nat) (receiver : Node) (s : ParseState σ)
    (hm : s.remaining < m) (hn : s.remaining < n + 1) :
    Fares (methodCalls inner m receiver s) (s.remaining + 1) := by
  induction m generalizing s receiver with
  | zero => omega
  | succ m ih =>
      unfold methodCalls
      refine fares_kind fun k hk => ?_
      split
      next h =>
        refine fares_bind (fares_advance hk (h ▸ nofun)) fun _ s₁ h₁ => ?_
        refine fares_bind (fares_identifier s₁) fun name s₂ h₂ => ?_
        -- The arguments are read with what is left of the allowance of the loop.
        refine fares_bind (reads_parenthesized (hinner.mono (Nat.min_le_left n m)) m
          (Nat.min_le_right n m) s₂ (by omega)) fun args s₃ h₃ => ?_
        exact (ih _ s₃ (by omega) (by omega)).mono (by omega)
      next h => exact fares_pure (by omega)

theorem reads_callTail (hinner : Reads n inner) (called : String × List String) (l : Nat) :
    Reads (n + 1) (callTail inner (n + 1) called l) := by
  intro s hs
  unfold callTail
  refine fares_bind (reads_parenthesized hinner (n + 1) (by omega) s hs) fun args s₁ h₁ => ?_
  refine fares_bind (fares_buildCall _ _ args l s₁) fun call s₂ h₂ => ?_
  exact (fares_methodCalls hinner (n + 1) call s₂ (by omega) (by omega)).mono (by omega)

theorem reads_group (hinner : Reads n inner) : Reads (n + 1) (group inner (n + 1)) := by
  intro s hs
  unfold group
  refine fares_bind (fares_expect (by simp) s) fun _ s₁ h₁ => ?_
  refine fares_bind (hinner s₁ (by omega)) fun node s₂ h₂ => ?_
  refine fares_bind (fares_expect (by simp) s₂) fun _ s₃ h₃ => ?_
  exact (fares_methodCalls hinner (n + 1) node s₃ (by omega) (by omega)).mono (by omega)

theorem reads_reference (hinner : Reads n inner) : Reads (n + 1) (reference inner (n + 1)) := by
  intro s hs
  unfold reference
  refine fares_line fun start => ?_
  refine fares_bind (reads_path (n + 1) s hs) fun called s₁ h₁ => ?_
  refine fares_kind fun k hk => ?_
  split
  next => exact (reads_callTail hinner called start s₁ (by omega)).mono (by omega)
  next => exact fares_pure h₁

theorem reads_primary (hinner : Reads n inner) : Reads (n + 1) (primary inner (n + 1)) := by
  intro s hs
  unfold primary
  refine fares_kind fun k hk => ?_
  cases hlit : literal? k with
  | some node =>
      have hne : k ≠ .endOfInput := by rintro rfl; cases hlit
      exact fares_bind (fares_advance hk hne) fun _ s₁ h₁ => fares_pure h₁
  | none =>
      refine fares_kind fun k' hk' => ?_
      split
      next => exact reads_group hinner s hs
      next => exact reads_reference hinner s hs
      next => trivial

theorem reads_factor (hinner : Reads n inner) {m : Nat} (hmn : m ≤ n + 1) :
    Reads m (factor inner m) := by
  induction m with
  | zero => exact fun s hs => absurd hs (Nat.not_lt_zero _)
  | succ m ih =>
      intro s hs
      unfold factor
      refine fares_kind fun k hk => ?_
      cases hsign : sign? k with
      | some sign =>
          -- A sign keeps the level: the allowance of this parser falls, that of `inner` does not.
          have hne : k ≠ .endOfInput := by rintro rfl; cases hsign
          refine fares_bind (fares_advance hk hne) fun _ s₁ h₁ => ?_
          refine fares_bind (ih (by omega) s₁ (by omega)) fun operand s₂ h₂ => ?_
          exact fares_pure (by omega)
      | none => exact reads_primary (hinner.mono (by omega)) s hs

theorem reads_product (hinner : Reads n inner) : Reads (n + 1) (product inner (n + 1)) :=
  reads_chain rfl (reads_factor hinner (Nat.le_refl _))

theorem reads_sum (hinner : Reads n inner) : Reads (n + 1) (sum inner (n + 1)) :=
  reads_chain rfl (reads_product hinner)

theorem reads_comparison (hinner : Reads n inner) : Reads (n + 1) (comparison inner (n + 1)) := by
  intro s hs
  unfold comparison
  refine fares_bind (reads_sum hinner s hs) fun left s₁ h₁ => ?_
  refine fares_kind fun k hk => ?_
  cases hrelation : relation? k with
  | some op =>
      have hne : k ≠ .endOfInput := by rintro rfl; cases hrelation
      refine fares_bind (fares_advance hk hne) fun _ s₂ h₂ => ?_
      refine fares_bind (reads_sum hinner s₂ (by omega)) fun right s₃ h₃ => ?_
      exact fares_pure (by omega)
  | none => exact fares_pure h₁

theorem reads_inversion (hinner : Reads n inner) {m : Nat} (hmn : m ≤ n + 1) :
    Reads m (inversion inner m) := by
  induction m with
  | zero => exact fun s hs => absurd hs (Nat.not_lt_zero _)
  | succ m ih =>
      intro s hs
      unfold inversion
      refine fares_kind fun k hk => ?_
      split
      next hnot =>
        refine fares_bind (fares_advance hk (by simp [hnot])) fun _ s₁ h₁ => ?_
        refine fares_bind (ih (by omega) s₁ (by omega)) fun operand s₂ h₂ => ?_
        exact fares_pure (by omega)
      next => exact reads_comparison (hinner.mono (by omega)) s hs

theorem reads_conjunction (hinner : Reads n inner) : Reads (n + 1) (conjunction inner (n + 1)) :=
  reads_chain rfl (reads_inversion hinner (Nat.le_refl _))

theorem reads_disjunction (hinner : Reads n inner) : Reads (n + 1) (disjunction inner (n + 1)) :=
  reads_chain rfl (reads_conjunction hinner)

end Levels

theorem reads_expression (n : Nat) : Reads n (expression n : Parser σ Node) := by
  induction n with
  | zero => exact fun s hs => absurd hs (Nat.not_lt_zero _)
  | succ n ih => exact reads_disjunction ih

/-! ## Statements -/

section Bodies

variable {n : Nat} {statement : Parser σ Node}

theorem reads_assignmentOrCall (n : Nat) : Reads n (assignmentOrCall n : Parser σ Node) := by
  intro s hs
  unfold assignmentOrCall
  refine fares_line fun start => ?_
  refine fares_bind (reads_path n s hs) fun target s₁ h₁ => ?_
  refine fares_kind fun k hk => ?_
  split
  next h =>
    refine fares_bind (fares_advance hk (h ▸ nofun)) fun _ s₂ h₂ => ?_
    refine fares_bind (reads_expression n s₂ (by omega)) fun value s₃ h₃ => ?_
    exact fares_pure (by omega)
  next =>
    -- From fewer than no tokens nothing is read.
    cases n with
    | zero => omega
    | succ n =>
        exact (reads_callTail ((reads_expression (n + 1)).mono (by omega)) target start s₁
          (by omega)).mono (by omega)

theorem reads_simpleStatement (n : Nat) : Reads n (simpleStatement n : Parser σ Node) := by
  intro s hs
  unfold simpleStatement
  refine fares_kind fun k hk => ?_
  split
  next =>
    refine fares_bind (fares_advance hk (by simp)) fun _ s₁ h₁ => ?_
    refine fares_bind (reads_expression n s₁ (by omega)) fun value s₂ h₂ => ?_
    exact fares_pure (by omega)
  next =>
    refine fares_bind (fares_advance hk (by simp)) fun _ s₁ h₁ => ?_
    refine fares_kind fun k' hk' => ?_
    split
    next => exact fares_pure h₁
    next =>
      -- The keyword is taken, so that the parentheses are read from fewer tokens.
      refine fares_bind (reads_parenthesized (n := n - 1)
        ((reads_expression n).mono (by omega)) n (by omega) s₁ (by omega)) fun args s₂ h₂ => ?_
      exact fares_pure (by omega)
  next => exact reads_assignmentOrCall n s hs

/-- The statements of a block are read after two tokens of its own. -/
theorem reads_block (hst : Reads n statement) : Reads (n + 1) (block statement (n + 1)) := by
  intro s hs
  unfold block
  refine fares_bind (fares_expect (by simp) s) fun _ s₁ h₁ => ?_
  refine fares_bind (fares_expect (by simp) s₁) fun _ s₂ h₂ => ?_
  refine fares_bind (fares_whileKind (fun s _ => hst s) (n + 1) s₂ (by omega) (by omega)) fun body s₃ h₃ => ?_
  refine fares_bind (fares_expect (by simp) s₃) fun _ s₄ h₄ => ?_
  exact fares_pure (by omega)

theorem reads_conditional (hst : Reads n statement) :
    Reads (n + 1) (conditional statement (n + 1)) := by
  intro s hs
  unfold conditional
  refine fares_bind (fares_expect (by simp) s) fun _ s₁ h₁ => ?_
  refine fares_bind (reads_expression (n + 1) s₁ (by omega)) fun condition s₂ h₂ => ?_
  refine fares_bind (fares_expect (by simp) s₂) fun _ s₃ h₃ => ?_
  refine fares_bind (reads_block hst s₃ (by omega)) fun thenBody s₄ h₄ => ?_
  refine fares_kind fun k hk => ?_
  split
  next h =>
    refine fares_bind (fares_advance hk (h ▸ nofun)) fun _ s₅ h₅ => ?_
    refine fares_bind (fares_expect (by simp) s₅) fun _ s₆ h₆ => ?_
    refine fares_bind (reads_block hst s₆ (by omega)) fun elseBody s₇ h₇ => ?_
    exact fares_pure (by omega)
  next => exact fares_pure (by omega)

theorem reads_method (hst : Reads n statement) : Reads (n + 1) (method statement (n + 1)) := by
  intro s hs
  unfold method
  refine fares_bind (fares_expect (by simp) s) fun _ s₁ h₁ => ?_
  refine fares_bind (fares_identifier s₁) fun name s₂ h₂ => ?_
  refine fares_bind (reads_parenthesized (n := n + 1) (fun s _ => fares_identifier s) (n + 1)
    (by omega) s₂ (by omega)) fun params s₃ h₃ => ?_
  refine fares_bind (fares_expect (by simp) s₃) fun _ s₄ h₄ => ?_
  refine fares_bind (reads_block hst s₄ (by omega)) fun body s₅ h₅ => ?_
  exact fares_pure (by omega)

theorem fares_base (start : Nat) (s : ParseState σ) : Fares (base start s) (s.remaining + 1) := by
  unfold base
  refine fares_kind fun k hk => ?_
  split
  next h =>
    refine fares_bind (fares_advance hk (h ▸ nofun)) fun _ s₁ h₁ => ?_
    refine fares_bind (fares_identifier s₁) fun name s₂ h₂ => ?_
    refine fares_bind (fares_expect (by simp) s₂) fun _ s₃ h₃ => ?_
    refine fares_class? fun c? => ?_
    cases c? with
    | some c => exact fares_pure (by omega)
    | none => trivial
  next => exact fares_pure (by omega)

theorem reads_classDefinition (hst : Reads n statement) :
    Reads (n + 1) (classDefinition statement (n + 1)) := by
  intro s hs
  unfold classDefinition
  refine fares_line fun start => ?_
  refine fares_bind (fares_expect (by simp) s) fun _ s₁ h₁ => ?_
  refine fares_bind (fares_identifier s₁) fun name s₂ h₂ => ?_
  refine fares_bind (fares_base start s₂) fun parent s₃ h₃ => ?_
  refine fares_bind (fares_expect (by simp) s₃) fun _ s₄ h₄ => ?_
  refine fares_bind (fares_expect (by simp) s₄) fun _ s₅ h₅ => ?_
  refine fares_bind (fares_expect (by simp) s₅) fun _ s₆ h₆ => ?_
  refine fares_bind (fares_whileKind (fun s _ => reads_method hst s) (n + 1) s₆ (by omega) (by omega))
    fun methods s₇ h₇ => ?_
  refine fares_bind (fares_expect (by simp) s₇) fun _ s₈ h₈ => ?_
  refine fares_class? fun c? => ?_
  cases c? with
  | some c => trivial
  | none =>
      cases Class.build name parent methods with
      | error cause => trivial
      | ok c =>
          refine fares_bind (fares_declare c s₈) fun _ s₉ h₉ => ?_
          exact fares_pure (by omega)

end Bodies

theorem reads_statement (n : Nat) : Reads n (statement n : Parser σ Node) := by
  induction n with
  | zero => exact fun s hs => absurd hs (Nat.not_lt_zero _)
  | succ n ih =>
      intro s hs
      unfold statement
      refine fares_kind fun k hk => ?_
      split
      next => exact reads_classDefinition ih s hs
      next => exact reads_conditional ih s hs
      next =>
        refine fares_bind (reads_simpleStatement (n + 1) s hs) fun node s₁ h₁ => ?_
        refine fares_bind (fares_expect (by simp) s₁) fun _ s₂ h₂ => ?_
        exact fares_pure (by omega)

/-- An allowance above the number of tokens left is enough for all statements. -/
theorem fares_statements {n : Nat} {s : ParseState σ} (hs : s.remaining < n) :
    Fares (statements n s) (s.remaining + 1) :=
  fares_whileKind (fun s _ => reads_statement n s) n s hs hs

end Offside.Parser
