import Offside.Proofs.Layout.Nesting
import Offside.Proofs.Lexis.Account

/-!
# Calls — the lexer called again and again

This file follows the lexer call by call, on behind every error:

- `Lexer.calls`    : the answers of a number of calls
- `Lexer.Called`   : the answers between two states of a lexer that is called
- `Lexer.Finished` : a lexer that only reports the end of the input
- `Lexer.Ends`     : what comes before that report, and that it is the only answer from there on

Errors leave a lexer on a line that is read in part or dropped.  All the same every call moves the number
of open blocks by what it reports (`level_next`) and leaves a settled cursor (`settled_next`).  The main
statement, `calls_end`, bounds the calls of a whole text by its size.
-/

namespace Offside

/-! ## Sizes -/

namespace Text

theorem byteSize_toList (s : String) : byteSize s.toList = s.utf8ByteSize := by
  rcases s.exists_eq_ofList with ⟨cs, rfl⟩
  rw [String.toList_ofList]
  induction cs with
  | nil => rfl
  | cons c cs ih =>
      rw [byteSize_cons, ih, String.ofList_cons, String.utf8ByteSize_append,
        String.utf8ByteSize_singleton]

/-- Every character takes a byte at least. -/
theorem length_le_byteSize (cs : List Char) : cs.length ≤ byteSize cs := by
  induction cs with
  | nil => exact Nat.le_refl _
  | cons c cs ih =>
      have hpos := c.utf8Size_pos
      rw [List.length_cons, byteSize_cons]
      omega

end Text

namespace Cursor

/-- The lines of a text have its size, but that the last one may lack its end. -/
theorem sizeOfLines_lines_le (text : List Char) :
    sizeOfLines (Text.lines text) ≤ text.length + 1 := by
  fun_induction Text.lines text with
  | case1 => exact Nat.zero_le _
  | case2 cs ih =>
      simp only [sizeOfLines, List.length_cons, List.length_nil]
      omega
  | case3 cs ih =>
      simp only [sizeOfLines, List.length_cons, List.length_nil]
      omega
  | case4 c cs _ _ hnone ih => simp [sizeOfLines]
  | case5 c cs _ _ line lines hlines ih =>
      rw [hlines] at ih
      simp only [sizeOfLines, List.length_cons] at ih ⊢
      omega

/-! ## Cursors behind errors -/

/-- Whether a line can be loaded or not, the cursor is settled behind it. -/
theorem Advances.settled {c : Cursor} {raws : List (List Char)}
    {result : Except LexError Unit × Cursor} (h : Advances c raws result)
    (heven : c.leadingSpaces % 2 = 0) (hend : c.atEnd = true → raws = []) :
    result.2.Settled := by
  induction h with
  | finish => exact ⟨⟨rfl, fun _ => ⟨rfl, rfl, rfl⟩⟩, fun _ => rfl⟩
  | blank _ _ ih => exact ih heven fun h => nomatch hend h
  | odd => exact ⟨⟨heven, fun h => nomatch hend h⟩, fun h => nomatch hend h⟩
  | load _ heven' => exact ⟨⟨heven', fun h => nomatch hend h⟩, fun h => nomatch hend h⟩

theorem Settled.advance {c : Cursor} (h : c.Settled) : c.advance.2.Settled :=
  (c.advances_advanceThrough c.pending).settled h.even fun hend => (h.finished hend).2.1

/-- Before the end of the text a move within the line changes nothing that matters. -/
theorem Settled.moveOver {c : Cursor} (h : c.Settled) (hend : c.atEnd = false)
    (taken rest : List Char) : (c.moveOver taken rest).Settled := by
  have hgo : ¬c.atEnd = true := by simp [hend]
  exact ⟨⟨h.even, fun hstop => absurd hstop hgo⟩, fun hstop => absurd hstop hgo⟩

/-- At the end of the text there is nothing to skip. -/
theorem Settled.skipBlanks_eq {c : Cursor} (h : c.Settled) (hend : c.atEnd = true) :
    c.skipBlanks = c := by
  have hrest := (h.finished hend).1
  rcases c with ⟨pending, line, rest, position, lineNumber, leadingSpaces, atEnd⟩
  cases hrest
  rfl

theorem Settled.skipBlanks {c : Cursor} (h : c.Settled) : c.skipBlanks.Settled := by
  cases hend : c.atEnd with
  | true => rwa [h.skipBlanks_eq hend]
  | false => exact h.moveOver hend _ _

/-- A line that cannot be loaded is dropped with its end. -/
theorem Advances.work_of_error {c c' : Cursor} {raws : List (List Char)} {e : LexError}
    (h : Advances c raws (.error e, c')) (depth : Nat) :
    c'.work depth + 2 ≤ { c with pending := raws : Cursor }.work depth := by
  generalize hresult : (Except.error e, c') = result at h
  induction h with
  | finish => cases hresult
  | blank _ _ ih =>
      have hle := ih hresult
      simp only [work, level, sizeOfLines] at hle ⊢
      omega
  | @odd c raw later _ hodd =>
      cases hresult
      have hlength := congrArg List.length (Text.indentation_append_unindented raw)
      rw [List.length_append] at hlength
      simp only [work, level, sizeOfLines]
      omega
  | load => cases hresult

end Cursor

namespace Lexer

/-! ## One call -/

/-- The token of an answer, if it is one. -/
def tokensOf (answers : List (Except LexError Token)) : List Token :=
  answers.filterMap Except.toOption

/-- What is left of a call once no block opens or closes. -/
theorem scanHere_keeps (l : Lexer) (h : l.cursor.Settled) :
    l.scanHere.2.cursor.Settled ∧ l.scanHere.2.level = l.level
      ∧ l.scanHere.2.started = l.started
      ∧ ∀ token, l.scanHere.1 = .ok token → token.kind ≠ .indent ∧ token.kind ≠ .dedent := by
  unfold scanHere
  split
  next c more hrest =>
    have hend : l.cursor.atEnd = false := by
      refine eq_false_of_ne_true fun hend => ?_
      rw [(h.finished hend).1] at hrest
      cases hrest
    refine ⟨h.moveOver hend _ _, rfl, rfl, fun token htoken => ?_⟩
    unfold tokenAt at htoken
    split at htoken
    next k hread =>
      cases htoken
      have hcontent := Layout.isContent_of_reading hread
      exact ⟨Kind.ne_of_isContent hcontent rfl, Kind.ne_of_isContent hcontent rfl⟩
    next => cases htoken
  next hrest =>
    split
    next =>
      refine ⟨h, rfl, rfl, fun token htoken => ?_⟩
      cases htoken
      exact ⟨nofun, nofun⟩
    next =>
      refine ⟨h.advance, rfl, rfl, fun token htoken => ?_⟩
      rcases hadvance : l.cursor.advance.1 with e | _
      · rw [hadvance] at htoken
        cases htoken
      · rw [hadvance] at htoken
        cases htoken
        exact ⟨nofun, nofun⟩

/-- A call leaves a settled cursor, and the open blocks before and behind it differ by what it reports. -/
structure Follows (l : Lexer) (answer : Except LexError Token) (after : Lexer) : Prop where
  settled : after.cursor.Settled
  started : after.started = true
  level : after.level + Layout.dedents (tokensOf [answer])
    = l.level + Layout.indents (tokensOf [answer])

/-- An answer that opens and closes no block. -/
theorem counts_eq_zero {answer : Except LexError Token}
    (h : ∀ token, answer = .ok token → token.kind ≠ .indent ∧ token.kind ≠ .dedent) :
    Layout.indents (tokensOf [answer]) = 0 ∧ Layout.dedents (tokensOf [answer]) = 0 := by
  cases answer with
  | error e => exact ⟨rfl, rfl⟩
  | ok token =>
      rcases h token rfl with ⟨hindent, hdedent⟩
      simp [tokensOf, Except.toOption, Layout.indents, Layout.dedents, hindent, hdedent]

theorem follows_scan {l : Lexer} (hstart : l.started = true) (h : l.cursor.Settled) :
    l.Follows l.scan.1 l.scan.2 := by
  unfold scan
  split
  next hlt => exact ⟨h, hstart, rfl⟩
  next hle =>
    split
    next hlt =>
      refine ⟨h, hstart, ?_⟩
      show l.level - 1 + 1 = l.level
      omega
    next =>
      rcases scanHere_keeps { l with cursor := l.cursor.skipBlanks } h.skipBlanks with
        ⟨hsettled, hlevel, hstarted, hkind⟩
      rcases counts_eq_zero hkind with ⟨hindents, hdedents⟩
      refine ⟨hsettled, hstarted.trans hstart, ?_⟩
      rw [scanLine, hindents, hdedents, hlevel]

theorem follows_next {l : Lexer} (hstart : l.started = true) (h : l.cursor.Settled) :
    l.Follows l.next.1 l.next.2 := by
  rw [next, if_pos hstart]
  exact follows_scan hstart h

/-! ## The end of the text -/

/-- A lexer behind the last token of a text, with no block open. -/
structure Finished (l : Lexer) : Prop where
  started : l.started = true
  settled : l.cursor.Settled
  atEnd : l.cursor.atEnd = true
  level : l.level = 0

/-- A finished lexer reports the end of the input at its place, and stays as it is. -/
theorem Finished.next_eq {l : Lexer} (h : l.Finished) :
    l.next = (.ok ⟨.endOfInput, l.cursor.place⟩, l) := by
  have hrest := (h.settled.finished h.atEnd).1
  have hlevel : l.cursor.level = 0 := by
    rw [Cursor.level, (h.settled.finished h.atEnd).2.2]
  have hstay : ¬l.level < l.cursor.level ∧ ¬l.cursor.level < l.level := by
    rw [hlevel, h.level]
    exact ⟨Nat.lt_irrefl 0, Nat.lt_irrefl 0⟩
  rw [next, if_pos h.started, scan, if_neg hstay.1, if_neg hstay.2, scanLine,
    h.settled.skipBlanks_eq h.atEnd, scanHere, hrest]
  exact if_pos h.atEnd

/-- The first report of the end of the input comes from a finished lexer. -/
theorem finished_of_endOfInput {l after : Lexer} {token : Token} (hstart : l.started = true)
    (h : l.cursor.Settled) (hnext : l.next = (.ok token, after))
    (hkind : token.kind = .endOfInput) : l.Finished := by
  have hstep := step_next hstart
  rw [hnext] at hstep
  cases hstep with
  | finish hlevel hend =>
      have hzero : l.cursor.level = 0 := by rw [Cursor.level, (h.finished hend).2.2]
      exact ⟨hstart, h, hend, hlevel.trans hzero⟩
  | content _ _ hread =>
      cases hkind
      cases Layout.isContent_of_reading hread
  | _ => cases hkind

/-! ## All calls -/

/-- The answers of a number of calls, one after the other. -/
def calls (l : Lexer) : Nat → List (Except LexError Token)
  | 0 => []
  | n + 1 => l.next.1 :: l.next.2.calls n

/-- The calls of a lexer, one after the other, give the answers and leave another lexer. -/
inductive Called : Lexer → List (Except LexError Token) → Lexer → Prop where
  | none (l : Lexer) : Called l [] l
  | call {l after last : Lexer} {answer : Except LexError Token}
      {answers : List (Except LexError Token)} (h : l.next = (answer, after))
      (later : Called after answers last) : Called l (answer :: answers) last

namespace Called

variable {l between last : Lexer} {front back answers : List (Except LexError Token)}

theorem trans (h : Called l front between) (h' : Called between back last) :
    Called l (front ++ back) last := by
  induction h with
  | none l => exact h'
  | call h _ ih => exact .call h (ih h')

theorem exists_front (h : Called l (front ++ back) last) : ∃ between, Called l front between := by
  induction front generalizing l with
  | nil => exact ⟨l, .none l⟩
  | cons answer front ih =>
      rcases h with _ | ⟨hnext, hlater⟩
      rcases ih hlater with ⟨between, hfront⟩
      exact ⟨between, .call hnext hfront⟩

theorem calls_eq (h : Called l answers last) : l.calls answers.length = answers := by
  induction h with
  | none l => rfl
  | call h _ ih => rw [List.length_cons, calls, h, ih]

end Called

theorem Finished.calls_eq {l : Lexer} (h : l.Finished) (n : Nat) :
    l.calls n = List.replicate n (.ok ⟨.endOfInput, l.cursor.place⟩) := by
  induction n with
  | zero => rfl
  | succ n ih => rw [calls, h.next_eq, ih, List.replicate_succ]

/-- The answers `before` come first, and from there on all calls report the end of the input at one
place. Blocks close in `before` only where they are open, and all are closed behind it. -/
structure Ends (l : Lexer) (before : List (Except LexError Token)) (place : Position) : Prop where
  calls_eq : ∀ n, l.calls (before.length + n)
    = before ++ List.replicate n (.ok ⟨.endOfInput, place⟩)
  earlier : ∀ token, .ok token ∈ before → token.kind ≠ .endOfInput
  nested : ∀ front, front <+: before →
    Layout.dedents (tokensOf front) ≤ l.level + Layout.indents (tokensOf front)
  closed : Layout.dedents (tokensOf before) = l.level + Layout.indents (tokensOf before)

theorem Finished.ends {l : Lexer} (h : l.Finished) : l.Ends [] l.cursor.place where
  calls_eq n := by rw [List.length_nil, Nat.zero_add, h.calls_eq, List.nil_append]
  earlier := nofun
  nested front hfront := by
    cases List.prefix_nil.mp hfront
    exact Nat.zero_le _
  closed := by rw [h.level]; rfl

theorem indents_cons (answer : Except LexError Token) (answers : List (Except LexError Token)) :
    Layout.indents (tokensOf (answer :: answers))
      = Layout.indents (tokensOf [answer]) + Layout.indents (tokensOf answers) := by
  rw [← List.singleton_append, tokensOf, List.filterMap_append, Layout.indents, List.countP_append]
  rfl

theorem dedents_cons (answer : Except LexError Token) (answers : List (Except LexError Token)) :
    Layout.dedents (tokensOf (answer :: answers))
      = Layout.dedents (tokensOf [answer]) + Layout.dedents (tokensOf answers) := by
  rw [← List.singleton_append, tokensOf, List.filterMap_append, Layout.dedents, List.countP_append]
  rfl

/-- One more call in front. -/
theorem Ends.cons {l after : Lexer} {answer : Except LexError Token}
    {before : List (Except LexError Token)} {place : Position} (h : after.Ends before place)
    (hnext : l.next = (answer, after)) (hfollows : l.Follows answer after)
    (hanswer : ∀ token, answer = .ok token → token.kind ≠ .endOfInput) :
    l.Ends (answer :: before) place where
  calls_eq n := by
    have hlength : (answer :: before).length + n = before.length + n + 1 := by
      rw [List.length_cons]
      omega
    rw [hlength, calls, hnext, h.calls_eq, List.cons_append]
  earlier token htoken := by
    rcases List.mem_cons.mp htoken with heq | hmem
    · exact hanswer token heq.symm
    · exact h.earlier token hmem
  nested front hfront := by
    rcases List.prefix_cons_iff.mp hfront with rfl | ⟨later, rfl, hshort⟩
    · exact Nat.zero_le _
    · have hlater := h.nested later hshort
      have hlevel := hfollows.level
      rw [indents_cons, dedents_cons]
      omega
  closed := by
    have hlater := h.closed
    have hlevel := hfollows.level
    rw [indents_cons, dedents_cons]
    omega

/-- An error does not report the end of the input. -/
theorem ne_endOfInput_of_error {e : LexError} (token : Token)
    (h : (Except.error e : Except LexError Token) = .ok token) : token.kind ≠ .endOfInput := by
  cases h

/-- The work of a lexer bounds the answers before the end of the input. -/
theorem exists_ends (l : Lexer) (hstart : l.started = true) (h : l.cursor.Settled) :
    ∃ before place, l.Ends before place ∧ before.length ≤ l.work := by
  -- One call after the other; each but the last lowers the work, errors included.
  induction l using Lexer.run.induct with
  | case1 l token after hnext hkind =>
      exact ⟨[], _, (finished_of_endOfInput hstart h hnext hkind).ends, Nat.zero_le _⟩
  | case2 l token after hnext hkind ih =>
      have hfollows := follows_next hstart h
      have hwork := l.work_next
      rw [hnext] at hfollows hwork
      rcases ih hfollows.started hfollows.settled with ⟨before, place, hends, hlength⟩
      have hlt : after.work < l.work := by
        refine hwork.resolve_left ?_
        rintro ⟨place, heq⟩
        cases heq
        exact hkind rfl
      refine ⟨_, place, hends.cons hnext hfollows ?_, ?_⟩
      · rintro token' heq
        cases heq
        exact hkind
      · rw [List.length_cons]
        omega
  | case3 l e after hnext ih =>
      have hfollows := follows_next hstart h
      have hwork := l.work_next
      rw [hnext] at hfollows hwork
      rcases ih hfollows.started hfollows.settled with ⟨before, place, hends, hlength⟩
      have hlt : after.work < l.work := by
        refine hwork.resolve_left ?_
        rintro ⟨place, heq⟩
        cases heq
      refine ⟨_, place, hends.cons hnext hfollows ne_endOfInput_of_error, ?_⟩
      rw [List.length_cons]
      omega

/-! ## Whole texts -/

theorem settled_ofText (text : List Char) : (Cursor.ofText text).Settled :=
  ⟨⟨rfl, nofun⟩, nofun⟩

theorem work_ofText_le (text : List Char) :
    (Cursor.ofText text).work 0 ≤ Text.byteSize text + 2 := by
  have hlines := Cursor.sizeOfLines_lines_le text
  have hbytes := Text.length_le_byteSize text
  simp only [Cursor.work, Cursor.ofText, Cursor.level, List.length_nil]
  simp
  omega

/-- The calls of a text depend on the answer of the first one and on the lexer behind it. -/
theorem Ends.congr {l l' : Lexer} {before : List (Except LexError Token)} {place : Position}
    (h : l'.Ends before place) (hnext : l.next = l'.next) (hlevel : l.level = l'.level) :
    l.Ends before place where
  calls_eq n := by
    rw [← h.calls_eq n]
    cases before.length + n with
    | zero => rfl
    | succ n => rw [calls, calls, hnext]
  earlier := h.earlier
  nested := hlevel ▸ h.nested
  closed := hlevel ▸ h.closed

theorem exists_ends_ofText (text : List Char) :
    ∃ before place, (ofText text).Ends before place
      ∧ before.length + 1 ≤ Text.byteSize text + 2 := by
  have hwork := work_ofText_le text
  have hsettled := (settled_ofText text).advance
  rcases hadvance : (Cursor.ofText text).advance with ⟨e | _, cursor⟩
  · -- The first line is dropped with its end, and the lexer goes on behind it.
    have hnext : (ofText text).next = (.error e, ⟨cursor, 0, true⟩) := by
      simp only [next, ofText, hadvance]
      rfl
    have hadvances := (Cursor.ofText text).advances_advanceThrough (Cursor.ofText text).pending
    rw [← Cursor.advance, hadvance] at hadvances
    have hdropped : cursor.work 0 + 2 ≤ (Cursor.ofText text).work 0 := hadvances.work_of_error 0
    rw [hadvance] at hsettled
    rcases exists_ends ⟨cursor, 0, true⟩ rfl hsettled with ⟨before, place, hends, hlength⟩
    refine ⟨_, place, hends.cons hnext ⟨hsettled, rfl, rfl⟩ ne_endOfInput_of_error, ?_⟩
    simp only [work] at hlength
    rw [List.length_cons]
    omega
  · -- The first call also loads the first line, which lowers the work once more.
    have hnext : (ofText text).next = (Lexer.mk cursor 0 true).next := by
      simp only [next, ofText, hadvance]
      rfl
    have hloaded : cursor.work 0 < (Cursor.ofText text).work 0 := by
      rcases (Cursor.ofText text).work_advance 0 with hlt | ⟨hend, -⟩
      · rwa [hadvance] at hlt
      · cases hend
    rw [hadvance] at hsettled
    rcases exists_ends ⟨cursor, 0, true⟩ rfl hsettled with ⟨before, place, hends, hlength⟩
    refine ⟨before, place, hends.congr hnext rfl, ?_⟩
    simp only [work] at hlength
    omega

end Lexer

/-- Called again and again, on behind every error, the lexer reports the end of a text with its last call
of at most two more than the text has bytes, and from there on always at the same place. Along the way no
more blocks close than were opened, and all are closed when the end is reported. -/
theorem calls_end (source : String) :
    ∃ before place, before.length + 1 ≤ source.utf8ByteSize + 2
      ∧ (∀ n, (Lexer.ofText source.toList).calls (before.length + n)
        = before ++ List.replicate n (.ok ⟨.endOfInput, place⟩))
      ∧ (∀ token, .ok token ∈ before → token.kind ≠ .endOfInput)
      ∧ (∀ front, front <+: before →
        Layout.dedents (Lexer.tokensOf front) ≤ Layout.indents (Lexer.tokensOf front))
      ∧ Layout.dedents (Lexer.tokensOf before) = Layout.indents (Lexer.tokensOf before) := by
  rcases Lexer.exists_ends_ofText source.toList with ⟨before, place, hends, hlength⟩
  rw [Text.byteSize_toList] at hlength
  have hzero : (Lexer.ofText source.toList).level = 0 := rfl
  refine ⟨before, place, hlength, hends.calls_eq, hends.earlier, fun front hfront => ?_, ?_⟩
  · have hnested := hends.nested front hfront
    rwa [hzero, Nat.zero_add] at hnested
  · have hclosed := hends.closed
    rwa [hzero, Nat.zero_add] at hclosed

/-- Two lines of odd indentation, a lone mark and an open string: four errors in eight calls. -/
example :
    (Lexer.ofText " a\n b\n!\n\"".toList).calls 9
      = [.error (.oddIndentation 1 1), .error (.oddIndentation 1 2), .ok ⟨.newline, ⟨2, 1⟩⟩,
          .error (.unexpectedCharacter '!' ⟨3, 1⟩), .ok ⟨.newline, ⟨3, 2⟩⟩,
          .error (.unterminatedString ⟨4, 1⟩), .ok ⟨.newline, ⟨4, 2⟩⟩,
          .ok ⟨.endOfInput, ⟨4, 1⟩⟩, .ok ⟨.endOfInput, ⟨4, 1⟩⟩] := by
  rfl

end Offside
