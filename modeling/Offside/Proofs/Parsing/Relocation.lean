import Offside.Program.Equality
import Offside.Proofs.Lexis.Lockstep
import Offside.Proofs.Parsing.Lookahead

/-!
# Relocation — the same tokens in other places

The places of tokens do not go into a program.  They go into its errors, but do not decide which error
comes:

- `ParseError.unplaced` : an error without its place
- `ParseState.Alike`    : the same kinds of tokens ahead, and the same classes
- `Parser.relocation`   : from such states a parser gives the same, or fails for the same reason

The last is a simulation in which every line may stand for every other.  The main statement,
`respaced_reads_alike`, is that changes of a text that carry no meaning change neither its tokens nor its
program.
-/

namespace Offside

/-- The error without its place. Of a lexical error, which is met where it stands in its line, only the
line is left out. -/
def ParseError.unplaced : ParseError → ParseError
  | lexical e => lexical e.unnumbered
  | unexpectedToken expected found => unexpectedToken expected { found with place := ⟨0, 0⟩ }
  | undeclaredBase name _ => undeclaredBase name 0
  | duplicateClass name _ => duplicateClass name 0
  | invalidClass cause _ => invalidClass cause 0
  | notCallable name _ => notCallable name 0
  | stringifyArity found _ => stringifyArity found 0

theorem ParseError.Renumbered.unplaced_eq {L : Nat → Nat → Prop} {e e' : ParseError}
    (h : e.Renumbered L e') : e.unplaced = e'.unplaced := by
  cases h <;> rfl

/-! ## States -/

/-- The same kinds of tokens are ahead, with the same error behind them, and the same classes are
declared. -/
structure ParseState.Alike (s s' : ParseState Stream) : Prop where
  current : s.current.kind = s'.current.kind
  upcoming : s.upcoming.map (·.kind) = s'.upcoming.map (·.kind)
  fault : s.fault.map LexError.unnumbered = s'.fault.map LexError.unnumbered
  classes : s.classes = s'.classes

namespace Parser

/-- From states that are alike the next token is the same, or there is the same error in its place. -/
theorem matches_advance_of_alike {s s' : ParseState Stream} (h : s.Alike s') :
    Matches ParseState.Alike (fun e _ e' _ => e.unplaced = e'.unplaced) (advance s) (advance s') := by
  by_cases hend : s.current.kind = .endOfInput
  · rw [advance_of_end hend]
    exact .exhausted s _
  have hupcoming := h.upcoming
  rw [advance_of_ne hend, advance_of_ne (h.current ▸ hend)]
  cases hup : s.upcoming with
  | cons token later =>
      rw [hup] at hupcoming
      rcases List.map_eq_cons_iff.mp hupcoming.symm with ⟨token', later', hup', hkind, hlater⟩
      rw [hup']
      exact .ok () ⟨hkind.symm, hlater.symm, h.fault, h.classes⟩
  | nil =>
      rw [hup] at hupcoming
      have hup' := List.map_eq_nil_iff.mp hupcoming.symm
      rw [hup']
      have hfault := h.fault
      cases hf : s.fault with
      | none =>
          rw [hf] at hfault
          rw [Option.map_eq_none_iff.mp hfault.symm]
          exact .ok () ⟨rfl, h.upcoming, h.fault, h.classes⟩
      | some e =>
          -- Both streams break off behind the same tokens.
          rw [hf] at hfault
          rcases Option.map_eq_some_iff.mp hfault.symm with ⟨e', hf', he⟩
          rw [hf']
          exact .error (congrArg ParseError.lexical he.symm)

/-- Whatever the lines of the tokens are, the same is read. -/
def relocation : Simulation Stream Stream where
  Lines _ _ := True
  States := ParseState.Alike
  Errors e _ e' _ := e.unplaced = e'.unplaced
  kind h := h.current
  line _ := trivial
  class? h name := by rw [ParseState.class?, ParseState.class?, h.classes]
  declare h c := .ok () ⟨h.current, h.upcoming, h.fault, congrArg (c :: ·) h.classes⟩
  advance h := matches_advance_of_alike h
  unexpected h expected := by rw [ParseError.unplaced, ParseError.unplaced, h.current]
  fail _ _ _ he := he.unplaced_eq

end Parser

/-! ## Whole texts -/

namespace Program

theorem ofState_alike {s s' : ParseState Stream} (h : s.Alike s') :
    (ofState s).outcome.mapError ParseError.unplaced
      = (ofState s').outcome.mapError ParseError.unplaced := by
  rcases ofState_simulated Parser.relocation h
    with ⟨p, u, v, -, hu, hv⟩ | ⟨e, e', u, v, he, hu, hv⟩
  · rw [hu, hv]
  · rw [hu, hv]
    exact congrArg Except.error he

theorem ofSource_alike {stream stream' : Stream} (h : stream.Alike stream') :
    (ofSource stream).outcome.mapError ParseError.unplaced
      = (ofSource stream').outcome.mapError ParseError.unplaced := by
  rcases stream with ⟨tokens, fault⟩
  rcases stream' with ⟨tokens', fault'⟩
  rcases h with ⟨hkinds, hfault⟩
  cases tokens with
  | cons token later =>
      rcases List.map_eq_cons_iff.mp hkinds.symm with ⟨token', later', rfl, hkind, hlater⟩
      exact ofState_alike ⟨hkind.symm, hlater.symm, hfault, rfl⟩
  | nil =>
      obtain rfl := List.map_eq_nil_iff.mp hkinds.symm
      cases fault with
      | none =>
          obtain rfl := Option.map_eq_none_iff.mp hfault.symm
          rfl
      | some e =>
          rcases Option.map_eq_some_iff.mp hfault.symm with ⟨e', rfl, he⟩
          exact congrArg (Except.error ∘ ParseError.lexical) he.symm

end Program

theorem tokenize_alike {source source' : String}
    (h : (Stream.ofText source.toList).Alike (Stream.ofText source'.toList)) :
    outline (·.map Token.kind) (tokenize source) = outline (·.map Token.kind) (tokenize source') := by
  unfold tokenize
  generalize Stream.ofText source.toList = stream at h ⊢
  generalize Stream.ofText source'.toList = stream' at h ⊢
  rcases stream with ⟨tokens, fault⟩
  rcases stream' with ⟨tokens', fault'⟩
  rcases h with ⟨hkinds, hfault⟩
  cases fault with
  | none =>
      obtain rfl := Option.map_eq_none_iff.mp hfault.symm
      exact congrArg Except.ok hkinds
  | some e =>
      rcases Option.map_eq_some_iff.mp hfault.symm with ⟨e', rfl, he⟩
      exact congrArg Except.error he.symm

/-- Any number of changes that carry no meaning, made or undone, leave the kinds of the tokens of a
text, or its first lexical error up to the line it is on.  Both texts are the same program, or both are
none for the same reason. -/
theorem respaced_reads_alike {source source' : String}
    (h : Relation.EqvGen Text.Respaced source.toList source'.toList) :
    outline (·.map Token.kind) (tokenize source) = outline (·.map Token.kind) (tokenize source')
      ∧ ((∃ p p', Program.parse source = .ok p ∧ Program.parse source' = .ok p'
          ∧ p = p' ∧ p.same p' = true)
        ∨ ∃ e e', Program.parse source = .error e ∧ Program.parse source' = .error e'
          ∧ e.unplaced = e'.unplaced) := by
  have hstream := Stream.alike_ofText (Text.contents_lines_of_eqvGen h)
  have hparse : (Program.parse source).mapError ParseError.unplaced
      = (Program.parse source').mapError ParseError.unplaced := by
    rw [Program.parse, Program.parse, Program.read_eq_ofSource, Program.read_eq_ofSource]
    exact Program.ofSource_alike hstream
  refine ⟨tokenize_alike hstream, ?_⟩
  cases hp : Program.parse source with
  | ok p =>
      rw [hp] at hparse
      cases hp' : Program.parse source' with
      | ok p' =>
          rw [hp'] at hparse
          obtain rfl : p = p' := Except.ok.inj hparse
          exact .inl ⟨p, p, rfl, rfl, rfl, p.same_self⟩
      | error e' =>
          rw [hp'] at hparse
          cases hparse
  | error e =>
      rw [hp] at hparse
      cases hp' : Program.parse source' with
      | ok p' =>
          rw [hp'] at hparse
          cases hparse
      | error e' =>
          rw [hp'] at hparse
          exact .inr ⟨e, e', rfl, rfl, Except.error.inj hparse⟩

/-- A carriage return, three blanks on a line within a block and the end of the last line. -/
theorem respaced_reads_alike_of_block :
    let source := "if True:" ++ "\n" ++ "  x = 1\n" ++ "  y = 2"
    let source' := "if True:" ++ "\r\n" ++ "  x = 1\n" ++ "   \n" ++ "  y = 2" ++ "\n"
    (Program.parse source).isOk = true
      ∧ Relation.EqvGen Text.Respaced source.toList source'.toList
      ∧ outline (·.map Token.kind) (tokenize source) = outline (·.map Token.kind) (tokenize source')
      ∧ ((∃ p p', Program.parse source = .ok p ∧ Program.parse source' = .ok p'
          ∧ p = p' ∧ p.same p' = true)
        ∨ ∃ e e', Program.parse source = .error e ∧ Program.parse source' = .error e'
          ∧ e.unplaced = e'.unplaced) := by
  intro source source'
  let returned := "if True:" ++ "\r\n" ++ "  x = 1\n" ++ "  y = 2"
  let spaced := "if True:" ++ "\r\n" ++ "  x = 1\n" ++ "   \n" ++ "  y = 2"
  have hreturn : Text.Respaced source.toList returned.toList := by
    simpa [source, returned] using
      Text.Respaced.carriageReturn "if True:".toList ("  x = 1\n" ++ "  y = 2").toList
  have hblank : Text.Respaced returned.toList spaced.toList := by
    have hended : Text.Ended ("if True:" ++ "\r\n" ++ "  x = 1" ++ "\n").toList :=
      Text.ended_append_feed _
    have hall : ∀ c ∈ ("   " ++ "\n").toList, Text.isBlank c = true := List.all_eq_true.mp rfl
    simpa [returned, spaced] using
      Text.Respaced.blankLines "  y = 2".toList hended (Text.ended_append_feed "   ") hall
  have hend : Text.Respaced spaced.toList source'.toList := by
    simpa [spaced, source'] using Text.Respaced.finalFeed spaced.toList
  have hchanges : Relation.EqvGen Text.Respaced source.toList source'.toList :=
    .trans _ _ _ (.rel _ _ hreturn) (.trans _ _ _ (.rel _ _ hblank) (.rel _ _ hend))
  have hprogram : (Program.parse source).isOk = true := by decide +kernel
  exact ⟨hprogram, hchanges, respaced_reads_alike hchanges⟩

end Offside
