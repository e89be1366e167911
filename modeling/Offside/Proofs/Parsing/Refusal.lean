import Offside.Parse.Program
import Offside.Proofs.Grammar.Derivation
import Offside.Proofs.Parsing.Lookahead
import Offside.Proofs.Parsing.Prediction

/-!
# Refusal — the first token that makes a text no program

This file shows that every parser is exact for its symbol (`exact_expression`, `exact_statement`), one
lemma for each in the order of the grammar, and with it that a token is refused where the text goes wrong:
the tokens before it begin a derivation, and with the token after them they begin none
(`parse_refuses_first`).  Which classes are declared plays no part in this.
-/

namespace Offside
namespace Parser

open Grammar
open Shape (token symbol nothing)

/-! ## First tokens -/

/-- What a primary starts with. -/
theorem cases_starts_primary {k : Kind} (h : (Symbol.expr .primary).starts k = true) :
    (∃ v : Literal, k = v.kind) ∨ (∃ name, k = .identifier name) ∨ k = .punct .leftParen := by
  cases k with
  | identifier name => exact .inr (.inl ⟨name, rfl⟩)
  | integer n => exact .inl ⟨.integer n, rfl⟩
  | string s => exact .inl ⟨.string s, rfl⟩
  | keyword word =>
      cases word with
      | trueKw => exact .inl ⟨.truth true, rfl⟩
      | falseKw => exact .inl ⟨.truth false, rfl⟩
      | noneKw => exact .inl ⟨.none, rfl⟩
      | _ => cases h
  | punct mark => exact .inr (.inr (congrArg Kind.punct (of_decide_eq_true h)))
  | _ => cases h

/-- A token that is no relation starts none. -/
theorem starts_of_relation?_eq_none {k : Kind} (h : relation? k = none) :
    Symbol.relation.starts k = false := by
  refine eq_false_of_ne_true fun hk => ?_
  have hk : looseness k = 3 := of_decide_eq_true hk
  unfold looseness at hk
  split at hk <;> cases hk <;> cases h

/-- A token that starts a statement ends no block, and no statement goes on with it. -/
theorem goes_of_starts_statement {k : Kind} (h : Symbol.statement.starts k = true) :
    (!endsBlock k) = true ∧ Symbol.statement.stops k = true := by
  cases k with
  | dedent => cases h
  | endOfInput => cases h
  | keyword word => cases word <;> first | exact ⟨rfl, rfl⟩ | cases h
  | _ => exact ⟨rfl, rfl⟩

/-! ## Paths and calls -/

theorem exact_path (n : Nat) : Exact (symbol .path) (path n) := by
  have hrest : Exact ((symbol (.many (.after .dot .name))).upTo Symbol.path.stops)
      (whileKind (· = .punct .dot) (do advance; identifier) n) :=
    exact_whileKind (fun _ hs hk => predicts_after exact_identifier hs (of_decide_eq_true hk)) rfl
      (fun _ hk => ⟨hk, rfl⟩) fun _ hk => ⟨by simpa using hk, rfl⟩
  exact (exact_identifier.bind (.of_stops fun _ => rfl) fun first =>
    hrest.bind_silent fun rest => .pure (first, rest)).narrow fun _ => Shape.narrows_path

theorem silent_buildCall (object : List String) (name : String) (args : List Node) (line : Nat) :
    Silent (buildCall object name args line) := by
  unfold buildCall
  split
  next => exact .pure _
  next =>
    refine (Silent.class? name).bind fun declared => ?_
    split
    next => exact .pure _
    next =>
      split
      next =>
        split
        next => exact .pure _
        next => exact .fail fun _ _ h => by cases h
      next => exact .fail fun _ _ h => by cases h

section Levels

variable {inner : Parser Stream Node} {n : Nat} {stops : Kind → Bool}

theorem exact_arguments (hinner : Exact (symbol .expression) inner) :
    Exact (symbol (.list .expression)) (parenthesized inner n) :=
  exact_parenthesized hinner rfl rfl rfl rfl

theorem exact_methodCalls (hinner : Exact (symbol .expression) inner)
    (hstops : stops (.punct .dot) = false) (receiver : Node) :
    Exact ((symbol (.many .call)).upTo stops) (methodCalls inner n receiver) := by
  induction n generalizing receiver with
  | zero => exact fun _ _ => .exhausted
  | succ n ih =>
      intro s hs
      refine Predicts.kind ?_
      split
      next hk =>
        have hcall := (Shape.narrows_more hstops).trans
          (Shape.narrows_call.append (.of_stops fun _ => rfl))
        rw [Shape.append_assoc, Shape.append_assoc] at hcall
        exact .advance_exact hs hk nofun hcall
          (exact_identifier.bind (.of_stops fun _ => rfl) fun method =>
            (exact_arguments hinner).bind (.of_stops fun _ => rfl) fun args =>
              ih (.call receiver method args))
      next hk =>
        exact ((Silent.pure receiver).exact hs).narrow (Shape.narrows_done rfl (decide_eq_false hk))

theorem exact_callTail (hinner : Exact (symbol .expression) inner)
    (hstops : stops (.punct .dot) = false) (called : String × List String) (line : Nat) :
    Exact ((symbol .application).upTo stops) (callTail inner n called line) := by
  refine Exact.narrow ?_ fun _ => Shape.narrows_application
  refine (exact_arguments hinner).bind (.of_stops fun _ => rfl) fun args => ?_
  exact (silent_buildCall _ _ args line).bind_exact fun call => exact_methodCalls hinner hstops call

/-! ## Levels -/

theorem exact_group (hinner : Exact (symbol .expression) inner) :
    Exact (token (.punct .leftParen) ++ (symbol .expression ++ (token (.punct .rightParen)
      ++ (symbol (.many .call)).upTo (Symbol.expr .primary).stops))) (group inner n) := by
  refine (exact_expect (.punct .leftParen) nofun).bind (.of_stops fun _ => rfl) fun _ => ?_
  refine hinner.bind (.token_append rfl) fun x => ?_
  refine (exact_expect (.punct .rightParen) nofun).bind (.of_stops fun _ => rfl) fun _ => ?_
  exact exact_methodCalls hinner rfl x

theorem exact_reference (hinner : Exact (symbol .expression) inner) :
    Exact (symbol .path ++ (symbol (.option .application)).upTo (Symbol.expr .primary).stops)
      (reference inner n) := by
  have hpath : (symbol .path).Precedes
      ((symbol (.option .application)).upTo (Symbol.expr .primary).stops) :=
    .upTo (.of_symbols Symbol.precedes_option_application) fun _ => Symbol.stops_option_application
  refine Silent.line.bind_exact fun start => (exact_path n).bind hpath fun called s hs => ?_
  refine Predicts.kind ?_
  split
  next hk =>
    exact (exact_callTail hinner rfl called start hs).narrow_at hk (Shape.narrows_present rfl)
  next hk => exact ((Silent.pure _).exact hs).narrow (Shape.narrows_absent rfl (decide_eq_false hk))

theorem exact_primary (hinner : Exact (symbol .expression) inner) :
    Exact (symbol (.expr .primary)) (primary inner n) := by
  intro s hs
  refine Predicts.kind ?_
  split
  next x hliteral =>
    rcases exists_literal hliteral with ⟨v, hk, -⟩
    exact .advance_silent hs hk v.kind_ne_endOfInput (Shape.narrows_literal v) (.pure x)
  next hliteral =>
    refine Predicts.kind ?_
    split
    next hk => exact (exact_group hinner hs).narrow_at hk Shape.narrows_group
    next name hk => exact (exact_reference hinner hs).narrow_at hk (Shape.narrows_reference rfl)
    next hparen hname =>
      -- A primary starts with a literal, a name or a parenthesis.
      refine .unexpected (Shape.rejects_symbol rfl (eq_false_of_ne_true fun hk => ?_))
      rcases cases_starts_primary hk with ⟨v, hv⟩ | ⟨name, hv⟩ | hv
      · rw [hv, literal?_kind] at hliteral
        cases hliteral
      · exact hname name hv
      · exact hparen hv

theorem exact_factor (hinner : Exact (symbol .expression) inner) :
    Exact (symbol (.expr .factor)) (factor inner n) := by
  induction n with
  | zero => exact fun _ _ => .exhausted
  | succ n ih =>
      intro s hs
      refine Predicts.kind ?_
      split
      next sign hsign =>
        exact .advance_exact hs (sign?_eq_some_iff.mp hsign) nofun (Shape.narrows_signed sign)
          (ih.bind_silent fun x => .pure (Node.signed sign x))
      next hsign =>
        refine (exact_primary hinner hs).narrow (Shape.narrows_unsigned fun sign hk => ?_)
        rw [sign?_eq_some_iff.mpr hk] at hsign
        cases hsign

theorem exact_product (hinner : Exact (symbol .expression) inner) :
    Exact (symbol (.expr (.chain .product))) (product inner n) :=
  exact_chain (l := .product) (exact_factor hinner)

theorem exact_sum (hinner : Exact (symbol .expression) inner) :
    Exact (symbol (.expr (.chain .sum))) (sum inner n) :=
  exact_chain (l := .sum) (exact_product hinner)

theorem exact_comparison (hinner : Exact (symbol .expression) inner) :
    Exact (symbol (.expr .comparison)) (comparison inner n) := by
  have hsum : (symbol (.expr (.chain .sum))).Precedes
      ((symbol (.option .relation)).upTo (Symbol.expr .comparison).stops) :=
    .upTo (.of_symbols Symbol.precedes_relation) fun _ => Symbol.stops_relation
  refine Exact.narrow ((exact_sum hinner).bind hsum fun left s hs => ?_)
    fun _ => Shape.narrows_comparison
  refine Predicts.kind ?_
  split
  next op hop =>
    have hstops : (Symbol.expr .comparison).stops (.punct (relationMark op)) = false := by
      cases op <;> rfl
    have hright : ∀ k, (Symbol.expr .comparison).stops k = true → Symbol.relation.stops k = true :=
      fun k hk => (Bool.and_eq_true_iff.mp (Symbol.stops_relation hk)).2
    have hrelation := (Shape.narrows_present hstops).trans
      ((Shape.Narrows.of_stops hright).trans (Shape.narrows_relation op))
    exact .advance_exact hs (relation?_eq_some_iff.mp hop) nofun hrelation
      ((exact_sum hinner).bind_silent fun right => .pure (Node.comparison op left right))
  next hop =>
    exact ((Silent.pure left).exact hs).narrow
      (Shape.narrows_absent rfl (starts_of_relation?_eq_none hop))

theorem exact_inversion (hinner : Exact (symbol .expression) inner) :
    Exact (symbol (.expr .inversion)) (inversion inner n) := by
  induction n with
  | zero => exact fun _ _ => .exhausted
  | succ n ih =>
      intro s hs
      refine Predicts.kind ?_
      split
      next hk =>
        exact .advance_exact hs hk nofun Shape.narrows_not
          (ih.bind_silent fun x => .pure (Node.not x))
      next hk => exact (exact_comparison hinner hs).narrow (Shape.narrows_compared hk)

theorem exact_conjunction (hinner : Exact (symbol .expression) inner) :
    Exact (symbol (.expr (.chain .and))) (conjunction inner n) :=
  exact_chain (l := .and) (exact_inversion hinner)

theorem exact_disjunction (hinner : Exact (symbol .expression) inner) :
    Exact (symbol .expression) (disjunction inner n) :=
  exact_chain (l := .or) (exact_conjunction hinner)

end Levels

theorem exact_expression (n : Nat) : Exact (symbol .expression) (expression n) := by
  induction n with
  | zero => exact fun _ _ => .exhausted
  | succ n ih => exact exact_disjunction ih

/-! ## Simple statements -/

theorem exact_assignmentOrCall (n : Nat) :
    Exact (symbol .path ++ Shape.pathRest) (assignmentOrCall n) := by
  have hstops : ∀ k, Symbol.simple.stops k = true →
      (Shape.either (token (.punct .assign) ++ symbol .expression) (symbol .application)).stops k
        = true :=
    fun k hk => of_decide_eq_true hk ▸ rfl
  have hpath : (symbol .path).Precedes Shape.pathRest :=
    .upTo (.either (.token_append rfl) (.of_symbols Symbol.precedes_application)) hstops
  refine Silent.line.bind_exact fun start => (exact_path n).bind hpath fun target s hs => ?_
  refine Predicts.kind ?_
  -- The token after the path decides, and what is no assignment has to be a call.
  split
  next hk =>
    have hcall : (symbol .application).Rejects (.punct .assign) := Shape.rejects_symbol rfl rfl
    exact .advance_exact hs hk nofun ((Shape.Narrows.of_stops hstops).trans (.left hcall))
      ((exact_expression n).bind_silent fun value => .pure (assignment target value))
  next hk =>
    have hassign : (token (.punct .assign) ++ symbol .expression).Rejects s.current.kind :=
      (Shape.rejects_token hk).append (.of_stops fun _ => rfl)
    exact (exact_callTail (exact_expression n) rfl target start hs).narrow
      ((Shape.Narrows.of_stops hstops).trans (.right hassign))

theorem exact_simpleStatement (n : Nat) : Exact (symbol .simple) (simpleStatement n) := by
  intro s hs
  refine Predicts.kind ?_
  split
  next hk =>
    have hvalue : Exact ((symbol .expression).upTo Symbol.simple.stops) (expression n) :=
      (exact_expression n).narrow fun _ => .of_stops fun k hk => of_decide_eq_true hk ▸ rfl
    exact .advance_exact hs hk nofun Shape.narrows_ret
      (hvalue.bind_silent fun value => .pure (Node.ret value))
  next hk =>
    have hargs : Exact ((symbol (.list .expression)).upTo Symbol.simple.stops)
        (parenthesized (expression n) n) :=
      (exact_arguments (exact_expression n)).narrow fun _ => .of_stops fun _ _ => rfl
    refine .advance_exact hs hk nofun Shape.narrows_print fun t ht => Predicts.kind ?_
    -- Whether arguments follow is asked of the end of the line, not of the parenthesis.
    split
    next hline =>
      exact ((Silent.pure _).exact ht).narrow_at hline (Shape.narrows_absent rfl rfl)
    next hline =>
      exact (hargs.bind_silent (fun args => .pure (Node.print args)) ht).narrow
        (Shape.narrows_present (decide_eq_false hline))
  next hret hprint =>
    exact (exact_assignmentOrCall n hs).narrow (Shape.narrows_pathRest hret hprint)

/-! ## Blocks -/

section Statements

variable {statement : Parser Stream Node} {n : Nat}

theorem exact_block (hstatement : Exact (symbol .statement) statement) :
    Exact (symbol .block) (block statement n) := by
  have hbody : Exact ((symbol (.many .statement)).upTo (· = .dedent))
      (whileKind (fun k => !endsBlock k) statement n) :=
    exact_whileKind (fun _ hs _ => hstatement hs) rfl (fun _ => goes_of_starts_statement)
      fun k hk => (of_decide_eq_true hk : k = .dedent) ▸ ⟨rfl, rfl⟩
  refine Exact.narrow ?_ fun _ => Shape.narrows_block
  refine (exact_expect .newline nofun).bind (.of_stops fun _ => rfl) fun _ => ?_
  refine (exact_expect .indent nofun).bind (.of_stops fun _ => rfl) fun _ => ?_
  refine hbody.bind (.token rfl) fun body => ?_
  exact (exact_expect .dedent nofun).bind_silent fun _ => .pure (Node.block body)

/-- With `if` ahead no other statement can be read. -/
theorem predicts_conditional (hstatement : Exact (symbol .statement) statement) {s : ParseState Stream}
    (hs : s.Closed) (hk : s.current.kind = .keyword .ifKw) :
    Predicts (symbol .statement) (conditional statement n) s := by
  refine Predicts.narrow_at ?_ hk Shape.narrows_conditional
  refine (exact_expect (.keyword .ifKw) nofun hs).bind (.of_stops fun _ => rfl) fun _ => ?_
  refine (exact_expression n).bind (.token_append rfl) fun condition => ?_
  refine (exact_expect (.punct .colon) nofun).bind (.of_stops fun _ => rfl) fun _ => ?_
  refine (exact_block hstatement).bind (.of_stops fun _ => rfl) fun thenBody t ht => ?_
  refine Predicts.kind ?_
  split
  next helse =>
    exact .advance_exact ht helse nofun ((Shape.narrows_present rfl).trans Shape.narrows_alternative)
      ((exact_expect (.punct .colon) nofun).bind (.of_stops fun _ => rfl) fun _ =>
        (exact_block hstatement).bind_silent fun elseBody => .pure _)
  next helse =>
    exact ((Silent.pure _).exact ht).narrow (Shape.narrows_absent rfl (decide_eq_false helse))

/-! ## Classes -/

theorem exact_method (hstatement : Exact (symbol .statement) statement) :
    Exact (symbol .method) (method statement n) := by
  refine Exact.narrow ?_ fun _ => Shape.narrows_method
  refine (exact_expect (.keyword .defKw) nofun).bind (.of_stops fun _ => rfl) fun _ => ?_
  refine exact_identifier.bind (.of_stops fun _ => rfl) fun name => ?_
  refine (exact_parenthesized exact_identifier rfl rfl rfl rfl).bind (.of_stops fun _ => rfl)
    fun params => ?_
  refine (exact_expect (.punct .colon) nofun).bind (.of_stops fun _ => rfl) fun _ => ?_
  exact (exact_block hstatement).bind_silent fun body => .pure (Method.mk name params body)

theorem exact_base (start : Nat) : Exact (symbol (.option .base)) (base start) := by
  intro s hs
  refine Predicts.kind ?_
  split
  next hk =>
    refine .advance_exact hs hk nofun ((Shape.narrows_present rfl).trans Shape.narrows_base) ?_
    refine exact_identifier.bind (.of_stops fun _ => rfl) fun name => ?_
    refine (exact_expect (.punct .rightParen) nofun).bind_silent fun _ => ?_
    refine (Silent.class? name).bind fun declared => ?_
    split
    next c => exact .pure (some c)
    next => exact .fail fun _ _ h => by cases h
  next hk =>
    exact ((Silent.pure none).exact hs).narrow (Shape.narrows_absent rfl (decide_eq_false hk))

/-- With `class` ahead no other statement can be read. -/
theorem predicts_classDefinition (hstatement : Exact (symbol .statement) statement)
    {s : ParseState Stream} (hs : s.Closed) (hk : s.current.kind = .keyword .classKw) :
    Predicts (symbol .statement) (classDefinition statement n) s := by
  have hmethods : Exact (symbol (.many .method))
      (whileKind (· = .keyword .defKw) (method statement n) n) :=
    exact_whileKind (fun _ hs _ => exact_method hstatement hs) rfl (fun _ hk => ⟨hk, rfl⟩)
      fun _ hk => ⟨by simpa using hk, rfl⟩
  refine Predicts.narrow_at (Predicts.line ?_) hk Shape.narrows_classDefinition
  refine (exact_expect (.keyword .classKw) nofun hs).bind (.of_stops fun _ => rfl) fun _ => ?_
  refine exact_identifier.bind (.of_stops fun _ => rfl) fun name => ?_
  refine (exact_base _).bind (.token_append rfl) fun parent => ?_
  refine (exact_expect (.punct .colon) nofun).bind (.of_stops fun _ => rfl) fun _ => ?_
  refine (exact_expect .newline nofun).bind (.of_stops fun _ => rfl) fun _ => ?_
  refine (exact_expect .indent nofun).bind (.of_stops fun _ => rfl) fun _ => ?_
  refine hmethods.bind (.token rfl) fun methods => ?_
  refine (exact_expect .dedent nofun).bind_silent fun _ => ?_
  -- What is asked of the class at its end is not about tokens.
  refine (Silent.class? name).bind fun declared => ?_
  split
  next => exact .fail fun _ _ h => by cases h
  next =>
    split
    next => exact .fail fun _ _ h => by cases h
    next c _ => exact (Silent.declare c).bind fun _ => .pure _

end Statements

/-! ## Programs -/

theorem exact_statement (n : Nat) : Exact (symbol .statement) (statement n) := by
  induction n with
  | zero => exact fun _ _ => .exhausted
  | succ n ih =>
      intro s hs
      refine Predicts.kind ?_
      split
      next hk => exact predicts_classDefinition ih hs hk
      next hk => exact predicts_conditional ih hs hk
      next hclass hif =>
        refine Predicts.narrow ?_ (Shape.narrows_simple hclass hif)
        refine (exact_simpleStatement (n + 1) hs).bind (.token rfl) fun x => ?_
        exact (exact_expect .newline nofun).bind_silent fun _ => .pure x

theorem exact_statements (n : Nat) :
    Exact ((symbol (.many .statement)).upTo (· = .endOfInput)) (statements n) := by
  refine exact_whileKind (fun _ hs _ => exact_statement n hs) rfl (fun k hk => ?_) fun k hk => ?_
  · rcases goes_of_starts_statement hk with ⟨hgoes, hstops⟩
    refine ⟨decide_eq_true fun hend => ?_, hstops⟩
    rw [hend] at hgoes
    cases hgoes
  · obtain rfl : k = .endOfInput := of_decide_eq_true hk
    exact ⟨rfl, rfl⟩

end Parser

/-! ## Texts -/

/-- A text is read from its first token on. -/
theorem ParseState.ofSource_eq_ok {l : Lexer} {s : ParseState Stream}
    (h : ofSource (.ofAnswers l.answers) = .ok s) :
    s.Closed ∧ s.tokens = (Stream.ofAnswers l.answers).tokens := by
  have hends := Grammar.ends_answers l
  rcases hstream : Stream.ofAnswers l.answers with ⟨tokens, fault⟩
  rw [hstream] at h hends
  cases tokens with
  | cons token later =>
      cases h
      exact ⟨hends, rfl⟩
  | nil =>
      cases fault with
      | none => exact absurd (hends rfl) id
      | some e => cases h

namespace Program

/-- An error of a reading is the error of the run over the statements. -/
theorem exists_of_ofState_error {s : ParseState Stream} {e : ParseError}
    (h : (ofState s).outcome = .error e) :
    ∃ t, Parser.statements (s.remaining + 1) s = .error (.error e) t := by
  have hrun := ofRun?_statements (Nat.lt_succ_self s.remaining)
  rcases hresult : Parser.statements (s.remaining + 1) s with ⟨statements, t⟩ | ⟨cause | _, t⟩
  · rw [hresult] at hrun
    rw [← Option.some.inj hrun] at h
    cases h
  · rw [hresult] at hrun
    rw [← Option.some.inj hrun] at h
    cases h
    exact ⟨t, rfl⟩
  · rw [hresult] at hrun
    cases hrun

/-- The error of a text that is no program. -/
def error? (source : String) : Option ParseError :=
  match parse source with
  | .ok _ => none
  | .error e => some e

theorem error?_eq_some_iff {source : String} {e : ParseError} :
    error? source = some e ↔ parse source = .error e := by
  unfold error?
  cases parse source with
  | ok p => simp
  | error e' => simp

end Program

namespace Grammar

/-- A token is refused where the text goes wrong: it is one of the tokens of the text, those before it
begin a derivation, and with it they begin none. -/
theorem parse_refuses_first {source : String} {expected : Expected} {found : Token}
    (h : Program.parse source = .error (.unexpectedToken expected found)) :
    ∃ before after, (Stream.ofText source.toList).tokens = before ++ found :: after
      ∧ (∃ rest, Nonempty (Derivation (before.map (·.kind) ++ rest)))
      ∧ ∀ rest, IsEmpty (Derivation (before.map (·.kind) ++ found.kind :: rest)) := by
  rw [Program.parse, Program.read_eq_ofSource, Program.ofSource] at h
  split at h
  next s hs =>
    rcases ParseState.ofSource_eq_ok hs with ⟨hclosed, htokens⟩
    rcases Program.exists_of_ofState_error h with ⟨t, hrun⟩
    rcases (Parser.exact_statements _ hclosed).refused hrun
      with ⟨before, after, hsplit, ⟨rest, statements, hkinds⟩, hnone⟩
    refine ⟨before, after, htokens.symm.trans hsplit, ⟨rest ++ [.endOfInput], ?_⟩, fun rest => ⟨?_⟩⟩
    · exact ⟨statements, by rw [hkinds, List.append_assoc]⟩
    · intro d
      -- The statements of a derivation are a word before the end of the input.
      exact hnone ⟨⟨d.statements, rfl⟩, .endOfInput, [], rfl, rfl⟩ d.kinds_eq
  next => cases h

/-- The token after `else` is refused, and what stands before it may go on as an alternative. -/
theorem parse_refuses_first_alternative :
    let source := "if a:\n  b = 1\nelse c\n"
    let found : Token := ⟨.identifier "c", ⟨3, 6⟩⟩
    Program.parse source = .error (.unexpectedToken (.kind (.punct .colon)) found)
      ∧ ∃ before after, (Stream.ofText source.toList).tokens = before ++ found :: after
        ∧ (∃ rest, Nonempty (Derivation (before.map (·.kind) ++ rest)))
        ∧ ∀ rest, IsEmpty (Derivation (before.map (·.kind) ++ found.kind :: rest)) := by
  intro source found
  have herror : Program.error? source
      = some (.unexpectedToken (.kind (.punct .colon)) found) := by
    decide +kernel
  have hparse := Program.error?_eq_some_iff.mp herror
  exact ⟨hparse, parse_refuses_first hparse⟩

end Grammar
end Offside
