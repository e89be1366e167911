import Offside.Parse.Parser
import Offside.Proofs.Grammar.Phrase
import Offside.Proofs.Results

/-!
# Steps — the tokens ahead of a parser

Where a parser pulls its tokens from a stream, all tokens ahead are known.  Of its state, only their kinds
and the classes that are complete decide what it reads.  `Before ks classes s` says what they are in the
state `s`, where the tokens are those of a text without lexical errors: they end with the end of the input.
The lemmas say how the steps from which all parsers are made change them, and how steps compose.
-/

namespace Offside

/-! ## States that read a stream -/

namespace ParseState

/-- The tokens after the current one. -/
abbrev upcoming (s : ParseState Stream) : List Token :=
  s.source.tokens

/-- The lexical error after those tokens, if the text has one. -/
abbrev fault (s : ParseState Stream) : Option LexError :=
  s.source.fault

end ParseState

namespace Parser

section Advance

variable {σ : Type} [TokenSource σ] {s : ParseState σ} {after : σ}

/-- Behind the end of the input there is nothing to go on to. -/
theorem advance_of_end (h : s.current.kind = .endOfInput) : advance s = .error .exhausted s := by
  rw [advance, if_pos h]

theorem advance_of_token {token : Token} (h : s.current.kind ≠ .endOfInput)
    (hpull : TokenSource.pull s.source = some (.ok token, after)) :
    advance s = .ok () { s with
      current := token, source := after, notices := s.notices.push (.read token) } := by
  rw [advance, if_neg h, hpull]

theorem advance_of_error {e : LexError} (h : s.current.kind ≠ .endOfInput)
    (hpull : TokenSource.pull s.source = some (.error e, after)) :
    advance s = .error (.error (.lexical e)) { s with source := after } := by
  rw [advance, if_neg h, hpull]

end Advance

/-- From any other token a parser goes on to the first token of the stream, or meets its fault. -/
theorem advance_of_ne {s : ParseState Stream} (h : s.current.kind ≠ .endOfInput) :
    advance s = match s.upcoming, s.fault with
      | token :: later, fault =>
          .ok () { s with
            current := token, source := ⟨later, fault⟩, notices := s.notices.push (.read token) }
      | [], some e => .error (.error (.lexical e)) s
      | [], none => .ok () { s with current := { s.current with kind := .endOfInput } } := by
  rcases s with ⟨current, ⟨tokens, fault⟩, classes, notices⟩
  rw [advance, if_neg h]
  cases tokens with
  | cons token later => rfl
  | nil => cases fault <;> rfl

end Parser

namespace Grammar

/-! ## Composition -/

section Composition

variable {σ α β : Type}

theorem kind_bind {f : Kind → Parser σ β} {s : ParseState σ} :
    (Parser.kind >>= f) s = f s.current.kind s := rfl

theorem line_bind {f : Nat → Parser σ β} {s : ParseState σ} :
    (Parser.line >>= f) s = f s.current.place.line s := rfl

theorem class?_bind {f : Option Class → Parser σ β} {name : String} {s : ParseState σ} :
    (Parser.class? name >>= f) s = f (s.class? name) s := rfl

theorem fail_ne_ok {e : ParseError} {x : α} {s t : ParseState σ} :
    (Parser.fail e : Parser σ α) s ≠ .ok x t := nofun

namespace Reading

theorem bind_eq_some {x : Reading α} {f : α → Reading β} {classes after : List Class} {b : β}
    (h : (x >>= f) classes = some (b, after)) :
    ∃ a between, x classes = some (a, between) ∧ f a between = some (b, after) := by
  have h : (x classes).bind (fun r => f r.1 r.2) = some (b, after) := h
  rcases Option.bind_eq_some_iff.mp h with ⟨r, hx, hf⟩
  exact ⟨r.1, r.2, hx, hf⟩

theorem bind_of_some {x : Reading α} {f : α → Reading β} {classes between : List Class} {a : α}
    (h : x classes = some (a, between)) : (x >>= f) classes = f a between := by
  show (x classes).bind (fun r => f r.1 r.2) = f a between
  rw [h]
  rfl

theorem eq_of_pure_eq_some {a b : α} {classes after : List Class}
    (h : (pure a : Reading α) classes = some (b, after)) : a = b ∧ classes = after := by
  cases h
  exact ⟨rfl, rfl⟩

theorem map_eq_some {x : Reading α} {f : α → β} {classes after : List Class} {b : β}
    (h : (do let a ← x; return f a : Reading β) classes = some (b, after)) :
    ∃ a, x classes = some (a, after) ∧ f a = b := by
  rcases bind_eq_some h with ⟨a, between, hx, hpure⟩
  rcases eq_of_pure_eq_some hpure with ⟨rfl, rfl⟩
  exact ⟨a, hx, rfl⟩

theorem map_of_some {x : Reading α} {f : α → β} {classes between : List Class} {a : α}
    (h : x classes = some (a, between)) :
    (do let a ← x; return f a : Reading β) classes = some (f a, between) :=
  (bind_of_some h).trans rfl

end Reading

end Composition

/-! ## The tokens ahead -/

/-- The end of the input stands at the end, and nowhere else. -/
def Ends : List Kind → Prop
  | [] => False
  | k :: ks => if k = .endOfInput then ks = [] else Ends ks

theorem Ends.tail {k : Kind} {ks : List Kind} (h : Ends (k :: ks)) (hk : k ≠ .endOfInput) :
    Ends ks := by
  simpa [Ends, hk] using h

/-- The parser stands before the tokens `ks`, and `classes` are complete. -/
structure Before (ks : List Kind) (classes : List Class) (s : ParseState Stream) : Prop where
  ends : Ends ks
  kinds : s.current.kind :: s.upcoming.map (·.kind) = ks
  classes : s.classes = classes
  fault : s.fault = none

namespace Before

variable {ks : List Kind} {k : Kind} {classes : List Class} {s t : ParseState Stream}

theorem current (h : Before (k :: ks) classes s) : s.current.kind = k :=
  (List.cons.inj h.kinds).1

theorem exists_cons (h : Before ks classes s) : ∃ ks', ks = s.current.kind :: ks' :=
  ⟨_, h.kinds.symm⟩

/-- The next token can be had, and it is the one after the current one. -/
theorem exists_advance (h : Before (k :: ks) classes s) (hk : k ≠ .endOfInput) :
    ∃ t, Parser.advance s = .ok () t ∧ Before ks classes t := by
  have htail := h.ends.tail hk
  have hup := (List.cons.inj h.kinds).2
  cases hs : s.upcoming with
  | nil =>
      -- Only the end of the input has no token after it.
      rw [hs] at hup
      rw [← hup] at htail
      exact absurd htail id
  | cons token later =>
      rw [hs] at hup
      refine ⟨{ s with
        current := token, source := ⟨later, s.fault⟩, notices := s.notices.push (.read token) }, ?_,
        htail, hup, h.classes, h.fault⟩
      rw [Parser.advance_of_ne (h.current ▸ hk), hs]

theorem advance {x : Unit} (h : Before ks classes s) (hs : Parser.advance s = .ok x t)
    (hk : s.current.kind ≠ .endOfInput) :
    ∃ ks', ks = s.current.kind :: ks' ∧ Before ks' classes t := by
  rcases h.exists_cons with ⟨ks', rfl⟩
  -- The step can be taken, and it can be taken in one way only.
  rcases h.exists_advance hk with ⟨t', ht', hbefore⟩
  rw [hs] at ht'
  cases ht'
  exact ⟨ks', rfl, hbefore⟩

theorem exists_expect (h : Before (k :: ks) classes s) (hk : k ≠ .endOfInput) :
    ∃ t, Parser.expect k s = .ok () t ∧ Before ks classes t := by
  rcases h.exists_advance hk with ⟨t, ht, hbefore⟩
  refine ⟨t, ?_, hbefore⟩
  rw [Parser.expect, kind_bind, h.current, if_pos rfl, ht]

theorem expect {x : Unit} (h : Before ks classes s) (hs : Parser.expect k s = .ok x t)
    (hk : k ≠ .endOfInput) : ∃ ks', ks = k :: ks' ∧ Before ks' classes t := by
  rw [Parser.expect, kind_bind] at hs
  split at hs
  next heq =>
    rcases h.advance hs (heq ▸ hk) with ⟨ks', hks, hbefore⟩
    exact ⟨ks', heq ▸ hks, hbefore⟩
  next => cases hs

theorem exists_identifier {name : String} (h : Before (.identifier name :: ks) classes s) :
    ∃ t, Parser.identifier s = .ok name t ∧ Before ks classes t := by
  rcases h.exists_advance nofun with ⟨t, ht, hbefore⟩
  refine ⟨t, ?_, hbefore⟩
  rw [Parser.identifier, kind_bind, h.current]
  exact bind_of_ok ht

theorem identifier {name : String} (h : Before ks classes s)
    (hs : Parser.identifier s = .ok name t) :
    ∃ ks', ks = .identifier name :: ks' ∧ Before ks' classes t := by
  rw [Parser.identifier, kind_bind] at hs
  cases hk : s.current.kind with
  | identifier name' =>
      rw [hk] at hs
      rcases bind_eq_ok hs with ⟨_, u, hu, hpure⟩
      rcases eq_of_pure_eq_ok hpure with ⟨rfl, rfl⟩
      rcases h.advance hu (hk ▸ nofun) with ⟨ks', hks, hbefore⟩
      exact ⟨ks', hk ▸ hks, hbefore⟩
  | _ =>
      rw [hk] at hs
      cases hs

theorem exists_declare (h : Before ks classes s) (c : Class) :
    ∃ t, Parser.declare c s = .ok () t ∧ Before ks (c :: classes) t :=
  ⟨_, rfl, h.ends, h.kinds, congrArg (c :: ·) h.classes, h.fault⟩

theorem declare {c : Class} {x : Unit} (h : Before ks classes s)
    (hs : Parser.declare c s = .ok x t) : Before ks (c :: classes) t := by
  rcases h.exists_declare c with ⟨t', ht', hbefore⟩
  rw [hs] at ht'
  cases ht'
  exact hbefore

theorem class?_eq (h : Before ks classes s) (name : String) :
    s.class? name = classes.find? (·.name = name) := by
  rw [ParseState.class?, h.classes]
  congr

end Before

end Grammar
end Offside
