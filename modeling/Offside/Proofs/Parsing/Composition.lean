import Offside.Proofs.Grammar.Derivation
import Offside.Proofs.Parsing.Correspondence

/-!
# Composition — what holds of every parser

A property that the steps of parsers have and that composition keeps (`Parser.Composition`) is one of every
parser, as the case of a correspondence that looks at one side only.  It is used for one property here: a
parser does not get past a lexical error.  Hence a source text that is a program has tokens, and they have
a derivation (`exists_derivation_of_parse`).
-/

namespace Offside
namespace Parser

variable {σ : Type} [TokenSource σ]

/-- The property `P` holds of the steps of parsers and of what is composed of parsers that have it. -/
structure Composition (P : ∀ {α : Type}, Parser σ α → Prop) : Prop where
  pure {α : Type} (x : α) : P (pure x : Parser σ α)
  bind {α β : Type} {p : Parser σ α} {f : α → Parser σ β} (hp : P p) (hf : ∀ x, P (f x)) : P (p >>= f)
  fail {α : Type} (e : ParseError) (he : ∀ cause, e ≠ .lexical cause) : P (fail e : Parser σ α)
  exhausted {α : Type} : P (exhausted : Parser σ α)
  unexpected {α : Type} (expected : Expected) : P (unexpected expected : Parser σ α)
  kind : P kind
  line : P line
  advance : P advance
  class? (name : String) : P (class? name)
  declare (c : Class) : P (declare c)

namespace Composition

variable {P : ∀ {α : Type}, Parser σ α → Prop}

/-- As a relation, the property forgets the second parser. -/
theorem correspondence (h : Composition @P) :
    Correspondence Eq (fun (p : Parser σ _) (_ : Parser σ _) => P p) where
  pure x := h.pure x
  bind hp hf := h.bind hp hf
  fail he := h.fail _ he.ne_lexical
  exhausted _ := h.exhausted
  unexpected expected := h.unexpected expected
  kind := h.kind
  line hf := h.bind h.line fun n => hf n n rfl
  advance := h.advance
  class? name := h.class? name
  declare c := h.declare c

theorem statements (h : Composition @P) (n : Nat) : P (Parser.statements n) :=
  h.correspondence.statements (Nat.le_refl n)

end Composition

/-! ## Lexical errors -/

/-- A lexical error lies ahead, and no end of the input before it. -/
structure Blocked (s : ParseState Stream) : Prop where
  fault : s.fault ≠ none
  current : s.current.kind ≠ .endOfInput
  upcoming : ∀ token ∈ s.upcoming, token.kind ≠ .endOfInput

/-- A parser that succeeds has stopped before a lexical error. -/
def StaysBlocked {α : Type} (p : Parser Stream α) : Prop :=
  ∀ ⦃s t : ParseState Stream⦄ ⦃x : α⦄, Blocked s → p s = .ok x t → Blocked t

theorem blocked_advance : StaysBlocked advance := by
  intro s t x hs hrun
  rw [advance_of_ne hs.current] at hrun
  split at hrun
  next token later fault hup =>
    cases hrun
    have hall := List.forall_mem_cons.mp (hup ▸ hs.upcoming)
    exact ⟨hs.fault, hall.1, hall.2⟩
  next => cases hrun
  next hnone => exact absurd hnone hs.fault

theorem blocked_composition : Composition (fun p => StaysBlocked p) where
  pure x := fun s t y hs hrun => (eq_of_pure_eq_ok hrun).2 ▸ hs
  bind hp hf := fun s t y hs hrun => by
    rcases bind_eq_ok hrun with ⟨x, u, hx, hy⟩
    exact hf x (hp hs hx) hy
  fail e _ := fun s t y hs hrun => by cases hrun
  exhausted := fun _ hrun => by cases hrun
  unexpected expected := fun s t y hs hrun => by cases hrun
  kind := fun s t y hs hrun => by
    cases hrun
    exact hs
  line := fun s t y hs hrun => by
    cases hrun
    exact hs
  advance := blocked_advance
  class? name := fun s t y hs hrun => by
    cases hrun
    exact hs
  declare c := fun s t y hs hrun => by
    cases hrun
    exact ⟨hs.fault, hs.current, hs.upcoming⟩

end Parser

namespace Grammar

/-- The answers before a lexical error do not report the end of the input. -/
theorem ne_endOfInput_of_fault (l : Lexer) {e : LexError}
    (h : (Stream.ofAnswers l.answers).fault = some e) :
    ∀ token ∈ (Stream.ofAnswers l.answers).tokens, token.kind ≠ .endOfInput := by
  induction l using Lexer.run.induct with
  | case1 l token after hnext hend =>
      rw [Lexer.answers_of_end hnext hend] at h
      cases h
  | case2 l token after hnext hend ih =>
      rw [Lexer.answers_of_token hnext hend] at h ⊢
      exact List.forall_mem_cons.mpr ⟨hend, ih h⟩
  | case3 l e after hnext ih =>
      rw [Lexer.answers_of_error hnext]
      exact fun token hmem => absurd hmem List.not_mem_nil

/-- A source text that is a program has no lexical error. -/
theorem fault_eq_none_of_parse {source : String} {p : Program} (h : Program.parse source = .ok p) :
    (Stream.ofText source.toList).fault = none := by
  cases hfault : (Stream.ofText source.toList).fault with
  | none => rfl
  | some e =>
      have hends := ne_endOfInput_of_fault (Lexer.ofText source.toList) hfault
      rw [Program.parse, Program.read_eq_ofSource] at h
      rcases hstream : Stream.ofText source.toList with ⟨tokens, fault⟩
      have htokens : (Stream.ofAnswers (Lexer.ofText source.toList).answers).tokens = tokens :=
        congrArg Stream.tokens hstream
      rw [htokens] at hends
      rw [hstream] at h hfault
      cases hfault
      cases tokens with
      | nil => cases h
      | cons token later =>
          rcases ofState_eq_ok_iff.mp h with ⟨t, hrun⟩
          have hall := List.forall_mem_cons.mp hends
          -- The statements stop at an end of the input, and there is none before the error.
          have hblocked : Parser.Blocked t :=
            Parser.blocked_composition.statements _ ⟨Option.some_ne_none e, hall.1, hall.2⟩ hrun
          have hend : t.current.kind = .endOfInput := by
            simpa using starts_eq_false_of_whileKind hrun
          exact absurd hend hblocked.current

/-- A source text that is a program has tokens, and a derivation of them has the program. -/
theorem exists_derivation_of_parse {source : String} {p : Program}
    (h : Program.parse source = .ok p) :
    ∃ tokens, tokenize source = .ok tokens
      ∧ ∃ d : Derivation (tokens.map (·.kind)), d.program? = some p := by
  have hfault := fault_eq_none_of_parse h
  rcases hstream : Stream.ofText source.toList with ⟨tokens, fault⟩
  rw [hstream] at hfault
  cases hfault
  have hends := ends_answers (Lexer.ofText source.toList) (congrArg Stream.fault hstream)
  have htokens : (Stream.ofAnswers (Lexer.ofText source.toList).answers).tokens = tokens :=
    congrArg Stream.tokens hstream
  rw [htokens] at hends
  have hnone : (Stream.mk tokens none).fault = none := rfl
  rcases exists_before hnone hends with ⟨s, hs, hbefore⟩
  rw [Program.parse, Program.read_eq_ofSource, Program.ofSource, hstream, hs] at h
  exact ⟨tokens, tokenize_eq_ok_iff.mpr hstream, (ofState_eq_ok_iff_derivation hbefore).mp h⟩

end Grammar
end Offside
