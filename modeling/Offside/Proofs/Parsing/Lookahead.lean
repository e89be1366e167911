import Offside.Exec.Execution
import Offside.Proofs.Lexis.Calls
import Offside.Proofs.Parsing.Composition

/-!
# Lookahead — how far into its tokens a parser sees

A parser pulls its tokens one at a time, and each is reported as it is read:

- `Parsed.taken`   : the tokens that a reading reports
- `Parser.Calls`   : a parser calls the lexer for the tokens that it takes, and for no other answer than
  the lexical error with which it stops
- `Parser.Pulls`   : a parser meets a lexical error only where the tokens before it are all taken, and
  otherwise depends on no token but those that it takes

The last two hold of every parser.  Hence a reading of a text agrees with its tokens, taken all at once
(`read_agrees_with_tokenize`): the two meet the same lexical error, if both meet one, and what a reading
decides before that error does not depend on what comes later.  Nothing runs in a text with such an error.
-/

namespace Offside

/-! ## Tokens taken -/

/-- The token that a notice reports as read. -/
def Notice.token? : Notice → Option Token
  | .read token => some token
  | _ => none

/-- The tokens that have been read, in order. -/
def ParseState.taken {σ : Type} (s : ParseState σ) : List Token :=
  s.notices.toList.filterMap Notice.token?

/-- The tokens that were read, in order. -/
def Parsed.taken (p : Parsed) : List Token :=
  p.notices.toList.filterMap Notice.token?

/-- The lexical error that an error is. -/
def ParseError.lexical? : ParseError → Option LexError
  | lexical e => some e
  | _ => none

def Stop.lexical? : Stop → Option LexError
  | error e => e.lexical?
  | exhausted => none

/-- The lexical error with which a reading ends. -/
def Parsed.fault? (p : Parsed) : Option LexError :=
  match p.outcome with
  | .ok _ => none
  | .error e => e.lexical?

/-- The answers of the lexer that a reading has used: the tokens that it took, and the lexical error with
which it ends. -/
def Parsed.answers (p : Parsed) : List (Except LexError Token) :=
  p.taken.map .ok ++ p.fault?.toList.map .error

/-- The state with another rest of the stream. -/
def ParseState.followedBy (s : ParseState Stream) (later : List Token) (fault : Option LexError) :
    ParseState Stream :=
  { s with source := ⟨later, fault⟩ }

/-! ## Calls of the lexer -/

namespace Parser

/-- The lexical error with which a parser stops. -/
def fault? {σ α : Type} : EStateM.Result Stop (ParseState σ) α → Option LexError
  | .ok _ _ => none
  | .error stop _ => stop.lexical?

/-- From `s` to the result the tokens `read` have been taken. The lexer has been called for these, and for
the lexical error with which the parser stops. -/
structure CallsFor {α : Type} (s : ParseState Lexer) (read : List Token)
    (result : EStateM.Result Stop (ParseState Lexer) α) : Prop where
  taken : (endOf result).taken = s.taken ++ read
  called : s.source.Called (read.map .ok ++ (fault? result).toList.map .error) (endOf result).source

def Calls {α : Type} (p : Parser Lexer α) : Prop :=
  ∀ s, ∃ read, CallsFor s read (p s)

/-- A parser that leaves the lexer alone. -/
theorem calls_of_stays {α : Type} {p : Parser Lexer α} (htaken : ∀ s, (endOf (p s)).taken = s.taken)
    (hsource : ∀ s, (endOf (p s)).source = s.source) (hfault : ∀ s, fault? (p s) = none) : Calls p := by
  refine fun s => ⟨[], (htaken s).trans (List.append_nil _).symm, ?_⟩
  rw [hsource, hfault]
  exact .none _

theorem calls_advance : Calls advance := by
  intro s
  by_cases hend : s.current.kind = .endOfInput
  · rw [advance_of_end hend]
    exact ⟨[], (List.append_nil _).symm, .none _⟩
  -- The one call that is made gives the error, or the token that is taken.
  rcases hnext : s.source.next with ⟨e | token, after⟩
  · rw [advance_of_error hend (congrArg some hnext)]
    exact ⟨[], (List.append_nil _).symm, .call hnext (.none after)⟩
  · rw [advance_of_token hend (congrArg some hnext)]
    exact ⟨[token], by simp [ParseState.taken, endOf, Notice.token?], .call hnext (.none after)⟩

theorem calls_bind {α β : Type} {p : Parser Lexer α} {f : α → Parser Lexer β} (hp : Calls p)
    (hf : ∀ x, Calls (f x)) : Calls (p >>= f) := by
  intro s
  rcases hp s with ⟨read, hread⟩
  cases hps : p s with
  | error stop t =>
      rw [hps] at hread
      rw [bind_of_error hps]
      exact ⟨read, hread.taken, hread.called⟩
  | ok x t =>
      rw [hps] at hread
      -- Where `p` succeeds, its calls are those for the tokens that it takes.
      have hcalled : s.source.Called (read.map .ok) t.source := by
        simpa [fault?, endOf] using hread.called
      rw [bind_of_ok hps]
      rcases hf x t with ⟨more, hmore⟩
      refine ⟨read ++ more, ?_, ?_⟩
      · rw [hmore.taken, ← List.append_assoc]
        exact congrArg (· ++ more) hread.taken
      · rw [List.map_append, List.append_assoc]
        exact hcalled.trans hmore.called

/-- Every parser calls the lexer for the tokens that it takes. -/
theorem calls_composition : Composition (fun (p : Parser Lexer _) => Calls p) where
  pure _ := calls_of_stays (fun _ => rfl) (fun _ => rfl) fun _ => rfl
  bind hp hf := calls_bind hp hf
  fail e he := calls_of_stays (fun _ => rfl) (fun _ => rfl) fun _ => by
    cases e with
    | lexical cause => exact absurd rfl (he cause)
    | _ => rfl
  exhausted := calls_of_stays (fun _ => rfl) (fun _ => rfl) fun _ => rfl
  unexpected _ := calls_of_stays (fun _ => rfl) (fun _ => rfl) fun _ => rfl
  kind := calls_of_stays (fun _ => rfl) (fun _ => rfl) fun _ => rfl
  line := calls_of_stays (fun _ => rfl) (fun _ => rfl) fun _ => rfl
  advance := calls_advance
  class? _ := calls_of_stays (fun _ => rfl) (fun _ => rfl) fun _ => rfl
  declare c := calls_of_stays (fun s => by simp [ParseState.taken, endOf, declare, Notice.token?])
    (fun _ => rfl) fun _ => rfl

/-! ## Tokens of a stream -/

/-- From `s` to `t` the tokens `read` have been taken. -/
structure Takes (s : ParseState Stream) (read : List Token) (t : ParseState Stream) : Prop where
  upcoming : s.upcoming = read ++ t.upcoming
  fault : t.fault = s.fault
  taken : t.taken = s.taken ++ read

theorem Takes.refl (s : ParseState Stream) : Takes s [] s :=
  ⟨rfl, rfl, (List.append_nil _).symm⟩

theorem Takes.trans {s t u : ParseState Stream} {read later : List Token} (h : Takes s read t)
    (h' : Takes t later u) : Takes s (read ++ later) u where
  upcoming := by rw [h.upcoming, h'.upcoming, List.append_assoc]
  fault := h'.fault.trans h.fault
  taken := by rw [h'.taken, h.taken, List.append_assoc]

/-! ## Dependence on the tokens ahead -/

/-- Run at `s`, the parser takes the tokens `read`. If it meets a lexical error there is no token left
before that error, and otherwise any tokens may come after those that it takes. -/
structure PullsAt {α : Type} (p : Parser Stream α) (s : ParseState Stream) (read : List Token) : Prop where
  takes : Takes s read (endOf (p s))
  lexical : ∀ e t, p s = .error (.error (.lexical e)) t → s.fault = some e ∧ t.upcoming = []
  followed : s.fault ≠ none → (∀ e t, p s ≠ .error (.error (.lexical e)) t) → ∀ later fault,
    p (s.followedBy (read ++ later) fault) = mapEnd (·.followedBy later fault) (p s)

def Pulls {α : Type} (p : Parser Stream α) : Prop :=
  ∀ s, ∃ read, PullsAt p s read

/-- A parser that takes no token and looks at the current one only. -/
theorem pulls_of_stays {α : Type} {p : Parser Stream α}
    (htakes : ∀ s, Takes s [] (endOf (p s)))
    (hlexical : ∀ s e t, p s ≠ .error (.error (.lexical e)) t)
    (hextends : ∀ s later fault,
      p (s.followedBy later fault) = mapEnd (·.followedBy later fault) (p s)) : Pulls p :=
  fun s => ⟨[], htakes s, fun e t h => absurd h (hlexical s e t), fun _ _ => hextends s⟩

theorem pulls_advance : Pulls advance := by
  intro s
  by_cases hend : s.current.kind = .endOfInput
  · have hrun := advance_of_end hend
    refine ⟨[], ?_, by simp [hrun], fun _ _ later fault => ?_⟩
    · rw [hrun]
      exact Takes.refl s
    · rw [hrun]
      exact advance_of_end hend
  have hrun := advance_of_ne hend
  cases hup : s.upcoming with
  | cons token later =>
      rw [hup] at hrun
      refine ⟨[token], ?_, by simp [hrun], fun _ _ later' fault => ?_⟩
      · rw [hrun]
        exact ⟨hup, rfl, by simp [ParseState.taken, endOf, Notice.token?]⟩
      · rw [hrun]
        exact advance_of_ne hend
  | nil =>
      cases hfault : s.fault with
      | none =>
          rw [hup, hfault] at hrun
          refine ⟨[], ?_, by simp [hrun], fun h => absurd hfault h⟩
          rw [hrun]
          exact ⟨rfl, rfl, (List.append_nil _).symm⟩
      | some e =>
          rw [hup, hfault] at hrun
          refine ⟨[], ?_, fun e' t h => ?_, fun _ h => absurd hrun (h e s)⟩
          · rw [hrun]
            exact Takes.refl s
          · cases hrun.symm.trans h
            exact ⟨hfault, hup⟩

theorem pulls_bind {α β : Type} {p : Parser Stream α} {f : α → Parser Stream β} (hp : Pulls p)
    (hf : ∀ x, Pulls (f x)) : Pulls (p >>= f) := by
  intro s
  rcases hp s with ⟨read, hread⟩
  cases hps : p s with
  | error stop t =>
      have hrun := bind_of_error (f := f) hps
      have htakes : Takes s read t := by simpa only [hps, endOf] using hread.takes
      refine ⟨read, ?_, ?_, ?_⟩
      · rw [hrun]
        exact htakes
      · intro e u h
        rw [hrun] at h
        cases h
        exact hread.lexical e t hps
      · intro hfault hnot later fault
        have hlocal := hread.followed hfault (fun e u h => by
          rw [hps] at h
          cases h
          exact hnot e t hrun) later fault
        rw [hps] at hlocal
        rw [bind_of_error hlocal, hrun]
        rfl
  | ok x t =>
      have hrun := bind_of_ok (f := f) hps
      have htakes : Takes s read t := by simpa only [hps, endOf] using hread.takes
      rcases hf x t with ⟨more, hmore⟩
      refine ⟨read ++ more, ?_, ?_, ?_⟩
      · rw [hrun]
        exact htakes.trans hmore.takes
      · intro e u h
        rw [hrun] at h
        rcases hmore.lexical e u h with ⟨hfault, hup⟩
        exact ⟨htakes.fault ▸ hfault, hup⟩
      · intro hfault hnot later fault
        -- What comes after the tokens of `p` is what `f` takes, and then the new rest.
        have hfirst := hread.followed hfault (by simp [hps]) (more ++ later) fault
        rw [hps] at hfirst
        rw [List.append_assoc, bind_of_ok hfirst, hrun]
        exact hmore.followed (htakes.fault ▸ hfault) (fun e u h => hnot e u (hrun.trans h)) later fault

/-- Every parser is determined by the tokens that it takes. -/
theorem pulls_composition : Composition (fun (p : Parser Stream _) => Pulls p) where
  pure x := pulls_of_stays Takes.refl (fun _ _ _ => nofun) fun _ _ _ => rfl
  bind hp hf := pulls_bind hp hf
  fail e he := pulls_of_stays Takes.refl (fun _ cause _ h => by cases h; exact he cause rfl)
    fun _ _ _ => rfl
  exhausted := pulls_of_stays Takes.refl (fun _ _ _ => nofun) fun _ _ _ => rfl
  unexpected expected := pulls_of_stays Takes.refl (fun _ _ _ => nofun) fun _ _ _ => rfl
  kind := pulls_of_stays Takes.refl (fun _ _ _ => nofun) fun _ _ _ => rfl
  line := pulls_of_stays Takes.refl (fun _ _ _ => nofun) fun _ _ _ => rfl
  advance := pulls_advance
  class? name := pulls_of_stays Takes.refl (fun _ _ _ => nofun) fun _ _ _ => rfl
  declare c := pulls_of_stays
    (fun s => ⟨rfl, rfl, by simp [ParseState.taken, endOf, declare, Notice.token?]⟩) (fun _ _ _ => nofun)
    fun _ _ _ => rfl

end Parser

/-! ## Whole texts -/

namespace Program

theorem ofState_of_error {s t : ParseState Stream} {n : Nat} {cause : ParseError} (hn : s.remaining < n)
    (hrun : Parser.statements n s = .error (.error cause) t) :
    ofState s = ⟨.error cause, t.notices⟩ := by
  have hread := ofRun?_statements hn
  rw [hrun] at hread
  exact (Option.some.inj hread).symm

/-- What a reading takes, and on what its error depends. -/
structure Sees (s : ParseState Stream) (read : List Token) : Prop where
  taken : (ofState s).taken = s.taken ++ read
  ahead : read <+: s.upcoming
  lexical : ∀ e, (ofState s).outcome = .error (.lexical e) →
    s.fault = some e ∧ read = s.upcoming
  followed : s.fault ≠ none → ∀ cause, (∀ e, cause ≠ .lexical e) →
    (ofState s).outcome = .error cause → ∀ later fault,
      (ofState (s.followedBy (read ++ later) fault)).outcome = .error cause

/-- An error that is not lexical stays, whatever comes after the tokens taken. -/
theorem ofState_followedBy {s t : ParseState Stream} {read : List Token} {cause : ParseError}
    (hfault : s.fault ≠ none) (hcause : ∀ e, cause ≠ .lexical e)
    (hrun : Parser.statements (s.remaining + 1) s = .error (.error cause) t)
    (htaken : t.taken = s.taken ++ read) (later : List Token) (fault : Option LexError) :
    (ofState (s.followedBy (read ++ later) fault)).outcome = .error cause := by
  -- The new stream may be longer, so that both are read with the larger allowance.
  let n := max s.remaining (s.followedBy (read ++ later) fault).remaining + 1
  have hn : s.remaining < n := Nat.lt_succ_of_le (Nat.le_max_left _ _)
  have hn' : (s.followedBy (read ++ later) fault).remaining < n :=
    Nat.lt_succ_of_le (Nat.le_max_right _ _)
  have hrun : Parser.statements n s = .error (.error cause) t :=
    (Parser.statements_eq_of_lt (Nat.lt_succ_self s.remaining) hn).trans hrun
  rcases Parser.pulls_composition.statements n s with ⟨read', hread⟩
  have htakes := hread.takes
  rw [hrun] at htakes
  obtain rfl : read = read' := List.append_cancel_left (htaken.symm.trans htakes.taken)
  have hfollowed := hread.followed hfault (fun e u h => by
    cases hrun.symm.trans h
    exact hcause e rfl) later fault
  rw [hrun] at hfollowed
  rw [ofState_of_error hn' hfollowed]

theorem exists_sees (s : ParseState Stream) : ∃ read, Sees s read := by
  have hn := Nat.lt_succ_self s.remaining
  rcases Parser.pulls_composition.statements (s.remaining + 1) s with ⟨read, hread⟩
  have hof := ofRun?_statements hn
  have htakes := hread.takes
  rcases hrun : Parser.statements (s.remaining + 1) s with ⟨statements, t⟩ | ⟨stop, t⟩
  · rw [hrun] at hof htakes
    have hof := Option.some.inj hof
    refine ⟨read, ⟨?_, ⟨t.upcoming, htakes.upcoming.symm⟩, ?_, ?_⟩⟩
    · rw [← hof]
      exact htakes.taken
    · rw [← hof]
      exact fun _ => nofun
    · rw [← hof]
      exact fun _ _ _ => nofun
  · cases stop with
    | exhausted =>
        rw [hrun] at hof
        cases hof
    | error cause =>
        have hof := ofState_of_error hn hrun
        rw [hrun] at htakes
        refine ⟨read, ⟨?_, ⟨t.upcoming, htakes.upcoming.symm⟩, fun e h => ?_, ?_⟩⟩
        · rw [hof]
          exact htakes.taken
        · rw [hof] at h
          cases h
          rcases hread.lexical e t hrun with ⟨hfault, hup⟩
          have hupcoming : s.upcoming = read ++ t.upcoming := htakes.upcoming
          rw [hup, List.append_nil] at hupcoming
          exact ⟨hfault, hupcoming.symm⟩
        · intro hfault cause' hcause h later fault
          rw [hof] at h
          cases h
          exact ofState_followedBy hfault hcause hrun htakes.taken later fault

/-! ### Lexers -/

/-- A reading has taken the tokens that its run has, and it ends with the lexical error of the run. -/
theorem eq_of_ofRun? {σ : Type} {result : EStateM.Result Stop (ParseState σ) (List Node)} {p : Parsed}
    (h : ofRun? result = some p) :
    p.taken = (endOf result).taken ∧ p.fault? = Parser.fault? result := by
  rcases result with ⟨statements, t⟩ | ⟨cause | _, t⟩
  · cases h
    exact ⟨rfl, rfl⟩
  · cases h
    exact ⟨rfl, rfl⟩
  · cases h

/-- The lexer that is left has been called for what the reading took, and for nothing else. -/
theorem called_statements {l : Lexer} {s : ParseState Lexer} {n : Nat}
    (h : ParseState.ofSource l = .ok s) (hn : s.remaining < n) :
    l.Called (ofSource l).answers (endOf (Parser.statements n s)).source := by
  have hof : ofRun? (Parser.statements n s) = some (ofSource l) := by
    rw [ofRun?_statements hn, ofSource, h]
  rcases eq_of_ofRun? hof with ⟨htaken, hfault⟩
  rcases Parser.calls_composition.statements n s with ⟨read, hread⟩
  rw [Parsed.answers, htaken, hfault, hread.taken]
  -- The first token has been taken before the statements.
  rcases hnext : l.next with ⟨e | token, after⟩
  · cases (ParseState.ofSource_of_error hnext).symm.trans h
  · cases (ParseState.ofSource_of_token hnext).symm.trans h
    exact .call hnext hread.called

theorem exists_called (l : Lexer) : ∃ last, l.Called (ofSource l).answers last := by
  rcases hnext : l.next with ⟨e | token, after⟩
  · refine ⟨after, ?_⟩
    rw [ofSource, ParseState.ofSource_of_error hnext]
    exact .call hnext (.none after)
  · exact ⟨_, called_statements (ParseState.ofSource_of_token hnext) (Nat.lt_succ_self _)⟩

/-! ### Streams -/

theorem taken_prefix (stream : Stream) : (ofSource stream).taken <+: stream.tokens := by
  rcases stream with ⟨tokens, fault⟩
  cases tokens with
  | cons token later =>
      rcases exists_sees ⟨token, ⟨later, fault⟩, [], #[.read token]⟩ with ⟨read, hsees⟩
      show (ofState _).taken <+: _
      rw [hsees.taken]
      exact List.cons_prefix_cons.mpr ⟨rfl, hsees.ahead⟩
  | nil =>
      cases fault with
      | some e => exact List.nil_prefix
      | none =>
          rcases exists_sees ⟨⟨.endOfInput, ⟨0, 1⟩⟩, ⟨[], none⟩, [], #[]⟩ with ⟨read, hsees⟩
          show (ofState _).taken <+: _
          rw [hsees.taken]
          exact hsees.ahead

/-- The lexical error of a reading is the fault of the stream, met behind all tokens. -/
theorem eq_of_lexical {stream : Stream} {e : LexError}
    (h : (ofSource stream).outcome = .error (.lexical e)) :
    stream.fault = some e ∧ (ofSource stream).taken = stream.tokens := by
  rcases stream with ⟨tokens, fault⟩
  cases tokens with
  | cons token later =>
      rcases exists_sees ⟨token, ⟨later, fault⟩, [], #[.read token]⟩ with ⟨read, hsees⟩
      rcases hsees.lexical e h with ⟨hfault, hread⟩
      refine ⟨hfault, ?_⟩
      show (ofState _).taken = _
      rw [hsees.taken, hread]
      rfl
  | nil =>
      cases fault with
      | some e =>
          cases h
          exact ⟨rfl, rfl⟩
      | none =>
          rcases exists_sees ⟨⟨.endOfInput, ⟨0, 1⟩⟩, ⟨[], none⟩, [], #[]⟩ with ⟨read, hsees⟩
          cases (hsees.lexical e h).1

/-- Before the fault of a stream, an error depends on the tokens that were taken. -/
theorem ofSource_followed {stream : Stream} {cause : ParseError} (hfault : stream.fault ≠ none)
    (hcause : ∀ e, cause ≠ .lexical e) (h : (ofSource stream).outcome = .error cause)
    (later : List Token) (fault : Option LexError) :
    (ofSource (Stream.mk ((ofSource stream).taken ++ later) fault)).outcome = .error cause := by
  rcases stream with ⟨tokens, fault'⟩
  cases tokens with
  | cons token rest =>
      rcases exists_sees ⟨token, ⟨rest, fault'⟩, [], #[.read token]⟩ with ⟨read, hsees⟩
      have htaken : (ofSource (Stream.mk (token :: rest) fault')).taken = token :: read := hsees.taken
      rw [htaken]
      exact hsees.followed hfault cause hcause h later fault
  | nil =>
      cases fault' with
      | some e =>
          cases h
          exact absurd rfl (hcause e)
      | none => exact absurd rfl hfault

end Program

/-- Where a text is no program, nothing is written. -/
theorem execute_of_parse_error {source : String} {cause : ParseError}
    (h : Program.parse source = .error cause) (depth : Nat) (m : Machine) :
    (execute depth source m).outcome = .error (.parse cause)
      ∧ (execute depth source m).machine.sink = m.sink := by
  have h : (Program.read source).outcome = .error cause := h
  simp only [execute, h, and_self]

theorem tokenize_eq_error_iff {source : String} {e : LexError} :
    tokenize source = .error e ↔ (Stream.ofText source.toList).fault = some e := by
  unfold tokenize
  rcases Stream.ofText source.toList with ⟨found, fault⟩
  cases fault with
  | none => simp
  | some e => simp

/-- A reading takes its tokens as the lexer answers, call by call: any allowance of steps above what is
left suffices for it, and the lexer has been called for these tokens and the lexical error at the end, and
for nothing else. A text with tokens gives no lexical error. In a text without, a reading fails; if with a
lexical error, then with the first one, at the call after all tokens before it, and any other error is the
same whatever comes after the tokens taken. Nothing is written then. -/
theorem read_agrees_with_tokenize (source : String) :
    (Lexer.ofText source.toList).calls (Program.read source).taken.length
        = (Program.read source).taken.map .ok
      ∧ (∀ s n, ParseState.ofSource (Lexer.ofText source.toList) = .ok s → s.remaining < n →
        Program.ofRun? (Parser.statements n s) = some (Program.read source)
          ∧ (Lexer.ofText source.toList).Called (Program.read source).answers
            (endOf (Parser.statements n s)).source)
      ∧ match tokenize source with
        | .ok tokens =>
            (Program.read source).taken <+: tokens
              ∧ ∀ e, Program.parse source ≠ .error (.lexical e)
        | .error e =>
            (Program.read source).taken <+: (Stream.ofText source.toList).tokens
              ∧ ∃ cause, Program.parse source = .error cause
                ∧ (∀ e', cause = .lexical e' → e' = e
                  ∧ (Lexer.ofText source.toList).calls ((Program.read source).taken.length + 1)
                    = (Program.read source).taken.map .ok ++ [.error e])
                ∧ ((∀ e', cause ≠ .lexical e') → ∀ later fault,
                  (Program.ofSource (Stream.mk ((Program.read source).taken ++ later) fault)).outcome
                    = .error cause)
                ∧ ∀ depth m, (execute depth source m).outcome = .error (.parse cause)
                  ∧ (execute depth source m).machine.sink = m.sink := by
  have hstream := Program.read_eq_ofSource source
  have hfront := Program.taken_prefix (Stream.ofText source.toList)
  rw [← hstream] at hfront
  have hcalls : ∃ last, (Lexer.ofText source.toList).Called (Program.read source).answers last :=
    Program.exists_called _
  rcases hcalls with ⟨last, hcalled⟩
  refine ⟨?_, fun s n hs hn => ⟨?_, Program.called_statements hs hn⟩, ?_⟩
  · -- Before the error at the end, if there is one, come the tokens.
    rcases hcalled.exists_front with ⟨between, hbetween⟩
    simpa using hbetween.calls_eq
  · rw [Program.ofRun?_statements hn, Program.read, Program.ofSource, hs]
  · cases htokenize : tokenize source with
    | ok tokens =>
        have htokens := tokenize_eq_ok_iff.mp htokenize
        refine ⟨?_, fun e h => ?_⟩
        · rwa [htokens] at hfront
        · -- A lexical error would be the fault of the stream, and it has none.
          rw [Program.parse, hstream] at h
          have hfault := (Program.eq_of_lexical h).1
          rw [htokens] at hfault
          cases hfault
    | error e =>
        have hfault := tokenize_eq_error_iff.mp htokenize
        refine ⟨hfront, ?_⟩
        cases hparse : Program.parse source with
        | ok p =>
            have hnone := Grammar.fault_eq_none_of_parse hparse
            rw [hfault] at hnone
            cases hnone
        | error cause =>
            refine ⟨cause, rfl, ?_, fun hcause later fault => ?_, execute_of_parse_error hparse⟩
            · rintro e' rfl
              have houtcome := hparse
              rw [Program.parse, hstream] at houtcome
              have hfault' := (Program.eq_of_lexical houtcome).1
              obtain rfl : e' = e := Option.some.inj (hfault'.symm.trans hfault)
              refine ⟨rfl, ?_⟩
              -- The error is the last answer that the lexer has given.
              have hanswers : (Program.read source).answers
                  = (Program.read source).taken.map .ok ++ [.error e'] := by
                rw [Parsed.answers, Parsed.fault?, ← Program.parse, hparse]
                rfl
              rw [hanswers] at hcalled
              simpa using hcalled.calls_eq
            · rw [Program.parse, hstream] at hparse
              rw [hstream]
              exact Program.ofSource_followed (by simp [hfault]) hcause hparse later fault

end Offside
