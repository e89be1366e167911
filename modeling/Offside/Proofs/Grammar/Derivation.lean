import Offside.Proofs.Grammar.Completeness
import Offside.Proofs.Grammar.Soundness
import Offside.Proofs.Parsing.Unrolling

/-!
# Derivations — the programs of the grammar

This file puts the reader of programs and the grammar together: a text without lexical errors is a program
exactly where its tokens have a derivation that meets the context conditions, and the program is what
that derivation stands for.  The derivation is the only one of the tokens.
-/

namespace Offside
namespace Grammar

/-- A derivation of tokens by `program ::= { statement } END`. -/
structure Derivation (ks : List Kind) where
  statements : Phrase (.many .statement)
  kinds_eq : statements.kinds ++ [.endOfInput] = ks

/-- The program of a derivation. There is none where a context condition fails. -/
def Derivation.program? {ks : List Kind} (d : Derivation ks) : Option Program :=
  (d.statements.meaning []).map fun read => ⟨read.1⟩

theorem Derivation.program?_eq_some_iff {ks : List Kind} {d : Derivation ks} {p : Program} :
    d.program? = some p ↔ ∃ classes, d.statements.meaning [] = some (p.statements, classes) := by
  rw [Derivation.program?, Option.map_eq_some_iff]
  constructor
  · rintro ⟨⟨statements, classes⟩, hread, rfl⟩
    exact ⟨classes, hread⟩
  · rintro ⟨classes, hread⟩
    exact ⟨_, hread, rfl⟩

theorem Derivation.unique {ks : List Kind} (d d' : Derivation ks) : d = d' := by
  rcases d with ⟨statements, hd⟩
  rcases d' with ⟨statements', hd'⟩
  have hsame : statements = statements' :=
    (statements.determined Symbol.predictive_many_statement statements' .endOfInput .endOfInput [] []
      rfl rfl (hd.trans hd'.symm)).1
  subst hsame
  rfl

/-! ## Texts without lexical errors -/

/-- Without an error among the answers, the last one is the end of the input and no other is. -/
theorem ends_answers (l : Lexer) (h : (Stream.ofAnswers l.answers).fault = none) :
    Ends ((Stream.ofAnswers l.answers).tokens.map (·.kind)) := by
  -- One call of the lexer after the other, as the answers are gathered.
  induction l using Lexer.run.induct with
  | case1 l token after hnext hend =>
      rw [Lexer.answers_of_end hnext hend]
      simp [Stream.ofAnswers, Ends, hend]
  | case2 l token after hnext hend ih =>
      rw [Lexer.answers_of_token hnext hend] at h ⊢
      have htail := ih h
      simpa [Stream.ofAnswers, Ends, hend] using htail
  | case3 l e after hnext ih =>
      rw [Lexer.answers_of_error hnext] at h
      cases h

/-- The parser starts before the tokens of the text, with no class. -/
theorem exists_before {stream : Stream} (hfault : stream.fault = none)
    (hends : Ends (stream.tokens.map (·.kind))) :
    ∃ s, ParseState.ofSource stream = .ok s ∧ Before (stream.tokens.map (·.kind)) [] s := by
  rcases stream with ⟨tokens, fault⟩
  cases tokens with
  | nil => exact absurd hends id
  | cons token later => exact ⟨_, rfl, hends, rfl, rfl, hfault⟩

theorem Ends.eq_of_head {ks : List Kind} (h : Ends (.endOfInput :: ks)) : ks = [] := by
  simpa [Ends] using h

/-- Besides the tokens that are left, at most the end of the input stands ahead. -/
theorem Before.length_le {ks : List Kind} {classes : List Class} {s : ParseState Stream}
    (h : Before ks classes s) : ks.length ≤ s.remaining + 1 := by
  rcases h.exists_cons with ⟨later, rfl⟩
  have hlater := (List.cons.inj h.kinds).2
  rw [ParseState.remaining]
  split
  next hend =>
    rw [(hend ▸ h.ends : Ends (.endOfInput :: later)).eq_of_head]
    exact Nat.le_refl 1
  next hend =>
    rw [← hlater, List.length_cons, List.length_map]
    exact Nat.le_succ _

/-! ## Programs -/

/-- A repetition ends before a token that starts no item. -/
theorem starts_eq_false_of_whileKind {α : Type} {starts : Kind → Bool} {p : Parser Stream α} {n : Nat}
    {xs : List α} {s t : ParseState Stream} (h : Parser.whileKind starts p n s = .ok xs t) :
    starts t.current.kind = false := by
  induction n generalizing s xs with
  | zero => cases h
  | succ n ih =>
      rw [Parser.whileKind, kind_bind] at h
      split at h
      next hstart =>
        rcases bind_eq_ok h with ⟨x, u, -, h⟩
        rcases bind_eq_ok h with ⟨xs, v, hxs, h⟩
        rcases eq_of_pure_eq_ok h with ⟨rfl, rfl⟩
        exact ih hxs
      next hstop =>
        rcases eq_of_pure_eq_ok h with ⟨rfl, rfl⟩
        exact eq_false_of_ne_true hstop

theorem ofState_eq_ok_iff {s : ParseState Stream} {p : Program} :
    (Program.ofState s).outcome = .ok p
      ↔ ∃ t, Parser.statements (s.remaining + 1) s = .ok p.statements t := by
  unfold Program.ofState
  split
  next statements after hrun =>
    rw [hrun]
    constructor
    · intro h
      cases h
      exact ⟨after, rfl⟩
    · rintro ⟨t, ht⟩
      cases ht
      rfl
  next e after hrun =>
    rw [hrun]
    exact ⟨nofun, nofun⟩
  next after hrun => nomatch hrun ▸ Parser.fares_statements (Nat.lt_succ_self s.remaining)

/-- Reading gives a program exactly where the tokens ahead have a derivation with that program. -/
theorem ofState_eq_ok_iff_derivation {ks : List Kind} {s : ParseState Stream} (h : Before ks [] s)
    {p : Program} :
    (Program.ofState s).outcome = .ok p ↔ ∃ d : Derivation ks, d.program? = some p := by
  rw [ofState_eq_ok_iff]
  constructor
  · rintro ⟨t, hrun⟩
    rcases sound_statements _ s h hrun with ⟨d, statements, ks', classes, rfl, hd, hp, ht⟩
    rcases ht.exists_cons with ⟨later, rfl⟩
    -- The statements stop only at the end of the input, and nothing stands after that.
    have hend : t.current.kind = .endOfInput := by
      simpa using starts_eq_false_of_whileKind hrun
    rw [hend] at ht ⊢
    rw [ht.ends.eq_of_head]
    exact ⟨⟨d, rfl⟩, Derivation.program?_eq_some_iff.mpr ⟨classes, hp ▸ hd⟩⟩
  · rintro ⟨d, hp⟩
    rcases Derivation.program?_eq_some_iff.mp hp with ⟨classes, hread⟩
    rcases d with ⟨statements, rfl⟩
    -- The allowance is above the number of tokens, so that it suffices for all of them.
    have hlen : statements.kinds.length < s.remaining + 1 := by
      have hcount := h.length_le
      rw [List.length_append, List.length_singleton] at hcount
      omega
    rcases complete_statements _ hlen rfl hread h with ⟨t, ht, -⟩
    exact ⟨t, ht⟩

/-- A text without lexical errors is a program exactly where its tokens have a derivation with a
meaning; the program is that meaning, and there is at most one derivation. -/
theorem parse_eq_ok_iff_derivation {source : String} {tokens : List Token}
    (h : tokenize source = .ok tokens) :
    (∀ p, Program.parse source = .ok p
        ↔ ∃ d : Derivation (tokens.map (·.kind)), d.program? = some p)
      ∧ ∀ d d' : Derivation (tokens.map (·.kind)), d = d' := by
  have hstream := tokenize_eq_ok_iff.mp h
  have hends := ends_answers (Lexer.ofText source.toList) (congrArg Stream.fault hstream)
  rcases exists_before (congrArg Stream.fault hstream) hends with ⟨s, hs, hbefore⟩
  have htokens : (Stream.ofText source.toList).tokens = tokens := congrArg Stream.tokens hstream
  have hbefore : Before (tokens.map (·.kind)) [] s := htokens ▸ hbefore
  refine ⟨fun p => ?_, Derivation.unique⟩
  rw [← ofState_eq_ok_iff_derivation hbefore, Program.parse, Program.read_eq_ofSource, Program.ofSource,
    hs]

/-- An assignment, read as its derivation says. -/
theorem parse_assignment :
    tokenize "x = 1" = .ok [⟨.identifier "x", ⟨1, 1⟩⟩, ⟨.punct .assign, ⟨1, 3⟩⟩,
      ⟨.integer 1, ⟨1, 5⟩⟩, ⟨.newline, ⟨1, 6⟩⟩, ⟨.endOfInput, ⟨1, 1⟩⟩]
    ∧ Program.parse "x = 1" = .ok ⟨[.assign "x" (.constant (.int 1))]⟩ := by
  have htokens : tokenize "x = 1" = .ok [⟨.identifier "x", ⟨1, 1⟩⟩, ⟨.punct .assign, ⟨1, 3⟩⟩,
      ⟨.integer 1, ⟨1, 5⟩⟩, ⟨.newline, ⟨1, 6⟩⟩, ⟨.endOfInput, ⟨1, 1⟩⟩] :=
    tokenize_eq_ok_iff.mpr (by decide +kernel)
  let sum : Phrase (.expr (.chain .sum)) :=
    .chain (.chain (.unsigned (.literal (.integer 1))) .done) .done
  let value : Phrase .expression :=
    .chain (.chain (.compared (.comparison sum .absent)) .done) .done
  refine ⟨htokens, ((parse_eq_ok_iff_derivation htokens).1 _).mpr ?_⟩
  exact ⟨⟨.more (.simple (.assign (.path (.name "x") .done) value)) .done, rfl⟩, rfl⟩

end Grammar
end Offside
