import Offside.Parse.Program
import Offside.Proofs.Parsing.Correspondence
import Offside.Proofs.Results

/-!
# Simulation — parsers that run side by side

Two runs of a parser, from states that are related, can be followed side by side.  This file says what a
relation between states has to keep for that, and shows once that then the whole runs are related:

- `Parser.Matches`       : the same value in related states, or related errors
- `Parser.Simulation`    : relations of states and of errors that every step keeps
- `Simulation.Simulates` : from related states, the results of two parsers match

The first use of it is that states are related to themselves: above the number of tokens left, the
allowance of steps does not show (`Parser.statements_eq_of_lt`).  Nothing is said of a run whose allowance
is used up, or of what comes after it.
-/

namespace Offside

namespace Parser

variable {σ τ α β : Type} {States : ParseState σ → ParseState τ → Prop}
  {Errors : ParseError → ParseState σ → ParseError → ParseState τ → Prop}

/-- Both results are the same value in related states, or they are related errors. Nothing is said where
the first parser is exhausted. -/
inductive Matches (States : ParseState σ → ParseState τ → Prop)
    (Errors : ParseError → ParseState σ → ParseError → ParseState τ → Prop) :
    EStateM.Result Stop (ParseState σ) α → EStateM.Result Stop (ParseState τ) α → Prop where
  | ok (x : α) {s : ParseState σ} {t : ParseState τ} (h : States s t) :
      Matches States Errors (.ok x s) (.ok x t)
  | error {e e' : ParseError} {s : ParseState σ} {t : ParseState τ} (h : Errors e s e' t) :
      Matches States Errors (.error (.error e) s) (.error (.error e') t)
  | exhausted (s : ParseState σ) (result : EStateM.Result Stop (ParseState τ) α) :
      Matches States Errors (.error .exhausted s) result

theorem Matches.bind {p : Parser σ α} {q : Parser τ α} {f : α → Parser σ β} {g : α → Parser τ β}
    {s : ParseState σ} {t : ParseState τ} (hp : Matches States Errors (p s) (q t))
    (hf : ∀ x s t, States s t → Matches States Errors (f x s) (g x t)) :
    Matches States Errors ((p >>= f) s) ((q >>= g) t) := by
  generalize hrun' : q t = result at hp
  cases hrun : p s with
  | ok x u =>
      rw [hrun] at hp
      cases hp with
      | ok _ h =>
          rw [bind_of_ok hrun, bind_of_ok hrun']
          exact hf x _ _ h
  | error stop u =>
      -- What would come next plays no part.
      rw [bind_of_error hrun]
      rw [hrun] at hp
      cases hp with
      | error h =>
          rw [bind_of_error hrun']
          exact .error h
      | exhausted => exact .exhausted u _

/-- Relations between two parsers at work that every step keeps. -/
structure Simulation (σ τ : Type) [TokenSource σ] [TokenSource τ] where
  /-- The lines of tokens that may stand for each other. -/
  Lines : Nat → Nat → Prop
  States : ParseState σ → ParseState τ → Prop
  /-- The errors, and the states in which the parsers stop with them. -/
  Errors : ParseError → ParseState σ → ParseError → ParseState τ → Prop
  kind {s : ParseState σ} {t : ParseState τ} (h : States s t) : s.current.kind = t.current.kind
  line {s : ParseState σ} {t : ParseState τ} (h : States s t) :
    Lines s.current.place.line t.current.place.line
  class? {s : ParseState σ} {t : ParseState τ} (h : States s t) (name : String) :
    s.class? name = t.class? name
  declare {s : ParseState σ} {t : ParseState τ} (h : States s t) (c : Class) :
    Matches States Errors (Parser.declare c s) (Parser.declare c t)
  advance {s : ParseState σ} {t : ParseState τ} (h : States s t) :
    Matches States Errors (Parser.advance s) (Parser.advance t)
  unexpected {s : ParseState σ} {t : ParseState τ} (h : States s t) (expected : Expected) :
    Errors (.unexpectedToken expected s.current) s (.unexpectedToken expected t.current) t
  fail {s : ParseState σ} {t : ParseState τ} (h : States s t) {e e' : ParseError}
    (he : e.Renumbered Lines e') : Errors e s e' t

namespace Simulation

variable [TokenSource σ] [TokenSource τ]

/-- From related states, the parsers have results that match. -/
def Simulates (sim : Simulation σ τ) (p : Parser σ α) (q : Parser τ α) : Prop :=
  ∀ ⦃s t⦄, sim.States s t → Matches sim.States sim.Errors (p s) (q t)

theorem correspondence (sim : Simulation σ τ) :
    Correspondence sim.Lines (fun (p : Parser σ _) (q : Parser τ _) => sim.Simulates p q) where
  pure x _ _ h := .ok x h
  bind hp hf _ _ h := (hp h).bind fun x _ _ hx => hf x hx
  fail he _ _ h := .error (sim.fail h he)
  exhausted _ s _ _ := .exhausted s _
  unexpected expected _ _ h := .error (sim.unexpected h expected)
  kind s t h := by
    rw [Parser.kind, Parser.kind, sim.kind h]
    exact .ok _ h
  line hf _ _ h := hf _ _ (sim.line h) h
  advance _ _ h := sim.advance h
  class? name s t h := by
    rw [Parser.class?, Parser.class?, sim.class? h name]
    exact .ok _ h
  declare c _ _ h := sim.declare h c

/-- Programs are read side by side, where the second allowance is no smaller. -/
theorem statements (sim : Simulation σ τ) {s : ParseState σ} {t : ParseState τ} (h : sim.States s t)
    {n m : Nat} (hle : n ≤ m) :
    Matches sim.States sim.Errors (Parser.statements n s) (Parser.statements m t) :=
  sim.correspondence.statements hle h

end Simulation

/-! ## Dependence on the allowance -/

theorem Matches.refl (result : EStateM.Result Stop (ParseState σ) α) :
    Matches Eq (fun e s e' t => e = e' ∧ s = t) result result := by
  rcases result with ⟨x, s⟩ | ⟨e | _, s⟩
  · exact .ok x rfl
  · exact .error ⟨rfl, rfl⟩
  · exact .exhausted s _

variable [TokenSource σ]

/-- Every state is related to itself. -/
def Simulation.identity : Simulation σ σ where
  Lines := Eq
  States := Eq
  Errors e s e' t := e = e' ∧ s = t
  kind h := by rw [h]
  line h := by rw [h]
  class? h _ := by rw [h]
  declare h c := h ▸ .refl _
  advance h := h ▸ .refl _
  unexpected h _ := h ▸ ⟨rfl, rfl⟩
  fail h _ _ he := ⟨he.eq, h⟩

/-- Above the number of tokens left, the allowance does not show. -/
theorem statements_eq_of_lt {n m : Nat} {s : ParseState σ} (hn : s.remaining < n) (hle : n ≤ m) :
    statements m s = statements n s := by
  have hfares := fares_statements hn
  have hmatches := Simulation.identity.statements (rfl : s = s) hle
  generalize statements n s = result at hfares hmatches
  generalize statements m s = result' at hmatches
  cases hmatches with
  | ok x h =>
      cases h
      rfl
  | error h => rw [h.1, h.2]
  | exhausted => exact absurd hfares id

end Parser

namespace Program

variable {σ τ : Type} [TokenSource σ] [TokenSource τ]

/-- The reading that a run over the statements amounts to, unless it ran out of steps. -/
def ofRun? : EStateM.Result Stop (ParseState σ) (List Node) → Option Parsed
  | .ok statements after => some ⟨.ok ⟨statements⟩, after.notices⟩
  | .error (.error e) after => some ⟨.error e, after.notices⟩
  | .error .exhausted _ => none

theorem ofRun?_statements {s : ParseState σ} {n : Nat} (hn : s.remaining < n) :
    ofRun? (Parser.statements n s) = some (ofState s) := by
  have hsame := Parser.statements_eq_of_lt (Nat.lt_succ_self s.remaining) hn
  rw [hsame, ofState]
  split
  next statements after hrun => rw [hrun]; rfl
  next e after hrun => rw [hrun]; rfl
  next after hrun => nomatch hrun ▸ Parser.fares_statements (Nat.lt_succ_self s.remaining)

/-- From related states the same program is read, or the errors are related. -/
theorem ofState_simulated (sim : Parser.Simulation σ τ) {s : ParseState σ} {t : ParseState τ}
    (h : sim.States s t) :
    (∃ p u v, sim.States u v ∧ ofState s = ⟨.ok p, u.notices⟩ ∧ ofState t = ⟨.ok p, v.notices⟩)
      ∨ ∃ e e' u v, sim.Errors e u e' v
        ∧ ofState s = ⟨.error e, u.notices⟩ ∧ ofState t = ⟨.error e', v.notices⟩ := by
  -- Both are read with an allowance that suffices for either.
  let n := max s.remaining t.remaining + 1
  have hread := ofRun?_statements (Nat.lt_succ_of_le (Nat.le_max_left s.remaining t.remaining))
  have hread' := ofRun?_statements (Nat.lt_succ_of_le (Nat.le_max_right s.remaining t.remaining))
  have hmatches := sim.statements h (Nat.le_refl n)
  generalize Parser.statements n s = result at hread hmatches
  generalize Parser.statements n t = result' at hread' hmatches
  cases hmatches with
  | ok x huv =>
      exact .inl ⟨_, _, _, huv, (Option.some.inj hread).symm, (Option.some.inj hread').symm⟩
  | error he =>
      exact .inr ⟨_, _, _, _, he, (Option.some.inj hread).symm, (Option.some.inj hread').symm⟩
  | exhausted => cases hread

end Program

end Offside
