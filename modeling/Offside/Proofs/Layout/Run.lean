import Offside.Proofs.Layout.Lines
import Offside.Token.Stream

/-!
# Run — the lexer gives the layout of its text

The lexer holds the number of open blocks and the depth of the current line apart and hands out one token
a call.  This file says once what a call can do (`Lexer.Step`), and what the tokens of all later calls are
in every state (`Lexer.Ahead`).  From these, `layout_of_tokenize` says that the tokens of a text without
lexical errors are its layout.
-/

namespace Offside

/-! ## Steps of the lexer -/

namespace Cursor

/-- A cursor on a line with content or after the last one. -/
structure Loaded (c : Cursor) : Prop where
  even : c.leadingSpaces % 2 = 0
  finished : c.atEnd = true → c.rest = [] ∧ c.pending = [] ∧ c.leadingSpaces = 0

/-- The cursor stands at the start of the first of some lines with content, or after the last one. -/
def Faces (c : Cursor) : List Layout.Line → Prop
  | [] => c.atEnd = true
  | line :: later =>
      c.atEnd = false ∧ c.lineNumber = line.number ∧ c.leadingSpaces = line.spaces
        ∧ c.rest = line.text ∧ later = Layout.contentLinesFrom c.lineNumber c.pending

/-- Lines without content are passed over. -/
theorem advanceThrough_eq_ok {c c' : Cursor} {raws : List (List Char)} (hend : c.atEnd = false)
    (h : c.advanceThrough raws = (.ok (), c')) :
    c'.Loaded ∧ c'.Faces (Layout.contentLinesFrom c.lineNumber raws) := by
  induction raws generalizing c with
  | nil =>
      cases h
      exact ⟨⟨rfl, fun _ => ⟨rfl, rfl, rfl⟩⟩, rfl⟩
  | cons raw later ih =>
      simp only [advanceThrough] at h
      split at h
      next hblank =>
        -- A blank line counts for the numbers of the lines and for nothing else.
        have hskip : Layout.contentLinesFrom c.lineNumber (raw :: later)
            = Layout.contentLinesFrom (c.lineNumber + 1) later := by
          simp [Layout.contentLinesFrom, Layout.Line.ofRaw?, hblank]
        rw [hskip]
        exact ih (c := { c with pending := later, lineNumber := c.lineNumber + 1 }) hend h
      next hcontent =>
        have hcontent : raw.all Text.isBlank = false := eq_false_of_ne_true hcontent
        simp only [load] at h
        split at h
        next hodd => cases h
        next heven =>
          cases h
          have heven : (raw.takeWhile (· = ' ')).length % 2 = 0 := by omega
          refine ⟨⟨heven, fun hstop => ?_⟩, ?_⟩
          · rw [hend] at hstop
            cases hstop
          · simp only [Layout.contentLinesFrom, Layout.Line.ofRaw?, hcontent, dif_pos]
            exact ⟨hend, rfl, rfl, rfl, rfl⟩

end Cursor

namespace Lexer

/-- A call of the lexer, once the first line has been asked for. -/
inductive Step (l : Lexer) : Except LexError Token × Lexer → Prop where
  | indent (hlt : l.level < l.cursor.level) :
      Step l (.ok ⟨.indent, l.cursor.place⟩, { l with level := l.level + 1 })
  | dedent (hlt : l.cursor.level < l.level) :
      Step l (.ok ⟨.dedent, l.cursor.place⟩, { l with level := l.level - 1 })
  | content (hlevel : l.level = l.cursor.level) {c : Char} {more : List Char} {k : Kind}
      (hhead : l.cursor.rest.dropWhile Text.isBlank = c :: more)
      (hread : (Lexeme.read c more).reading = .ok k) :
      Step l (.ok ⟨k, l.cursor.skipBlanks.place⟩,
        { l with
          cursor := l.cursor.skipBlanks.moveOver (Lexeme.read c more).taken
            (Lexeme.read c more).rest })
  | newline (hlevel : l.level = l.cursor.level) (hend : l.cursor.atEnd = false)
      (hblank : l.cursor.rest.all Text.isBlank = true) {cursor : Cursor}
      (hadvance : l.cursor.skipBlanks.advance = (.ok (), cursor)) :
      Step l (.ok ⟨.newline, l.cursor.skipBlanks.place⟩, { l with cursor := cursor })
  | finish (hlevel : l.level = l.cursor.level) (hend : l.cursor.atEnd = true) :
      Step l (.ok ⟨.endOfInput, l.cursor.skipBlanks.place⟩,
        { l with cursor := l.cursor.skipBlanks })
  | fault {e : LexError} {after : Lexer} : Step l (.error e, after)

theorem all_isBlank_of_dropWhile_eq_nil {text : List Char}
    (h : text.dropWhile Text.isBlank = []) : text.all Text.isBlank = true := by
  have htake : text.takeWhile Text.isBlank = text := by
    calc
      text.takeWhile Text.isBlank
          = text.takeWhile Text.isBlank ++ text.dropWhile Text.isBlank := by rw [h, List.append_nil]
      _ = text := List.takeWhile_append_dropWhile
  rw [← htake]
  exact List.all_takeWhile

theorem step_next {l : Lexer} (h : l.started = true) : l.Step l.next := by
  rw [next, if_pos h, scan]
  split
  next hlt => exact .indent hlt
  next hle =>
    split
    next hlt => exact .dedent hlt
    next hge =>
      -- On the level of the line a token is read, or the line ends, or the text does.
      have hlevel : l.level = l.cursor.level := by omega
      simp only [scanLine, scanHere]
      split
      next c more hhead =>
        unfold tokenAt
        split
        next k hread => exact .content hlevel hhead hread
        next m hread => exact .fault
      next hnil =>
        split
        next hend => exact .finish hlevel hend
        next hend =>
          have hblank := all_isBlank_of_dropWhile_eq_nil hnil
          rcases hadvance : l.cursor.skipBlanks.advance with ⟨_ | _, cursor⟩
          · exact .fault
          · exact .newline hlevel (eq_false_of_ne_true hend) hblank hadvance

/-! ## The tokens that a lexer still gives -/

/-- The tokens from here on are those of the rest of the current line and of the lines after it. -/
def Ahead (l : Lexer) (tokens : List Token) : Prop :=
  if l.cursor.atEnd = true then Layout l.level [] tokens
  else
    ∃ (ts : Layout.LineTokens) (later : List Token), tokens = ts.all ++ later
      ∧ ts.Fit l.level l.cursor.lineNumber l.cursor.level l.cursor.rest
      ∧ Layout l.cursor.level (Layout.contentLinesFrom l.cursor.lineNumber l.cursor.pending) later

namespace Ahead

variable {l : Lexer} {tokens : List Token} {token : Token}

theorem iff_finish (hend : l.cursor.atEnd = true) : Ahead l tokens ↔ Layout l.level [] tokens := by
  rw [Ahead, if_pos hend]

theorem iff_line (hend : l.cursor.atEnd = false) :
    Ahead l tokens ↔ ∃ (ts : Layout.LineTokens) (later : List Token), tokens = ts.all ++ later
      ∧ ts.Fit l.level l.cursor.lineNumber l.cursor.level l.cursor.rest
      ∧ Layout l.cursor.level (Layout.contentLinesFrom l.cursor.lineNumber l.cursor.pending)
          later := by
  have hgo : ¬l.cursor.atEnd = true := by simp [hend]
  rw [Ahead, if_neg hgo]

theorem layout_nil (h : Ahead l tokens) (hend : l.cursor.atEnd = true) :
    Layout l.level [] tokens :=
  (iff_finish hend).mp h

theorem exists_line (h : Ahead l tokens) (hend : l.cursor.atEnd = false) :
    ∃ (ts : Layout.LineTokens) (later : List Token), tokens = ts.all ++ later
      ∧ ts.Fit l.level l.cursor.lineNumber l.cursor.level l.cursor.rest
      ∧ Layout l.cursor.level (Layout.contentLinesFrom l.cursor.lineNumber l.cursor.pending)
          later :=
  (iff_line hend).mp h

theorem indent (h : Ahead { l with level := l.level + 1 } tokens) (hl : l.cursor.Loaded)
    (hlt : l.level < l.cursor.level) (hkind : token.kind = .indent)
    (hline : token.place.line = l.cursor.lineNumber) : Ahead l (token :: tokens) := by
  cases hend : l.cursor.atEnd with
  | true =>
      -- After the last line the level is that of no block, so none opens.
      have hzero : l.cursor.level = 0 := by rw [Cursor.level, (hl.finished hend).2.2]
      omega
  | false =>
      rcases h.exists_line hend with ⟨ts, later, rfl, hfit, hlater⟩
      refine (iff_line hend).mpr ⟨{ ts with shift := token :: ts.shift }, later, rfl, ?_, hlater⟩
      exact hfit.cons_shift (by rw [hkind, Layout.shift_of_lt hlt]) hline

theorem dedent (h : Ahead { l with level := l.level - 1 } tokens)
    (hlt : l.cursor.level < l.level) (hkind : token.kind = .dedent)
    (hline : token.place.line = l.cursor.lineNumber) : Ahead l (token :: tokens) := by
  cases hend : l.cursor.atEnd with
  | true =>
      have hsucc : l.level = l.level - 1 + 1 := by omega
      have h := h.layout_nil hend
      cases h with
      | @finish _ closing last hclosing hlast =>
          have hall : (token :: closing).map (·.kind) = List.replicate l.level .dedent := by
            rw [List.map_cons, hclosing, hkind, hsucc]
            rfl
          exact (iff_finish hend).mpr (.finish hall hlast)
  | false =>
      rcases h.exists_line hend with ⟨ts, later, rfl, hfit, hlater⟩
      refine (iff_line hend).mpr ⟨{ ts with shift := token :: ts.shift }, later, rfl, ?_, hlater⟩
      exact hfit.cons_shift (by rw [hkind, Layout.shift_of_gt hlt]) hline

/-- A token is read behind the blanks before it. -/
theorem content {c : Char} {more taken : List Char}
    (h : Ahead { l with cursor := l.cursor.skipBlanks.moveOver taken (Lexeme.read c more).rest }
      tokens)
    (hlevel : l.level = l.cursor.level) (hend : l.cursor.atEnd = false)
    (hhead : l.cursor.rest.dropWhile Text.isBlank = c :: more)
    (hread : (Lexeme.read c more).reading = .ok token.kind)
    (hline : token.place.line = l.cursor.lineNumber) : Ahead l (token :: tokens) := by
  rcases h.exists_line hend with ⟨ts, later, rfl, hfit, hlater⟩
  have hfit : ts.Fit l.cursor.level l.cursor.lineNumber l.cursor.level (Lexeme.read c more).rest :=
    hlevel ▸ hfit
  rw [iff_line hend, hlevel]
  refine ⟨{ ts with content := token :: ts.content }, later, ?_,
    hfit.cons_content hhead hread hline, hlater⟩
  rw [Layout.LineTokens.all, Layout.LineTokens.all, hfit.shift_eq_nil]
  rfl

/-- At the start of a line the tokens ahead are the layout of the lines ahead. -/
theorem layout (h : Ahead l tokens) (hl : l.cursor.Loaded) {lines : List Layout.Line}
    (hlines : l.cursor.Faces lines) : Layout l.level lines tokens := by
  cases lines with
  | nil =>
      exact h.layout_nil hlines
  | cons line lines =>
      rcases hlines with ⟨hend, hnumber, hspaces, htext, rfl⟩
      have hlevel : l.cursor.level = line.level := by rw [Cursor.level, hspaces, Layout.Line.level]
      rcases h.exists_line hend with ⟨ts, later, rfl, hfit, hlater⟩
      rw [hlevel] at hfit hlater
      rw [htext] at hfit
      -- The whole line is still ahead, and some character of it is not blank.
      have hcontent : ts.content ≠ [] := by
        intro hnil
        have hkinds := hfit.content_kinds
        rw [hnil] at hkinds
        exact hkinds.ne_nil line.hasContent rfl
      exact .line (hspaces ▸ hl.even) (hnumber ▸ hfit) hcontent hlater

theorem newline (hlevel : l.level = l.cursor.level) (hend : l.cursor.atEnd = false)
    (hblank : l.cursor.rest.all Text.isBlank = true) (hkind : token.kind = .newline)
    (hline : token.place.line = l.cursor.lineNumber)
    (h : Layout l.level (Layout.contentLinesFrom l.cursor.lineNumber l.cursor.pending) tokens) :
    Ahead l (token :: tokens) := by
  rw [iff_line hend]
  rw [hlevel] at h ⊢
  exact ⟨⟨[], [], token⟩, tokens, rfl, .newline_only hkind hline hblank, h⟩

end Ahead

/-- Without an error the answers of a lexer are the tokens ahead of it. -/
theorem ahead_answers (l : Lexer) (hstart : l.started = true) (hl : l.cursor.Loaded)
    (hok : (Stream.ofAnswers l.answers).fault = none) :
    Ahead l (Stream.ofAnswers l.answers).tokens := by
  -- Each call gives one token of the current line; what the later calls give is there by induction.
  induction l using Lexer.run.induct with
  | case1 l token after hnext hlast =>
      rw [answers_of_end hnext hlast]
      have hstep := step_next hstart
      rw [hnext] at hstep
      cases hstep with
      | finish hlevel hend =>
          have hzero : l.level = 0 := by rw [hlevel, Cursor.level, (hl.finished hend).2.2]
          rw [Ahead.iff_finish hend, hzero]
          have hclosing : ([] : List Token).map Token.kind = List.replicate 0 .dedent := rfl
          exact .finish hclosing hlast
      | content _ _ hread =>
          cases hlast
          cases Layout.isContent_of_reading hread
      | _ => cases hlast
  | case2 l token after hnext hmore ih =>
      rw [answers_of_token hnext hmore] at hok ⊢
      have hstep := step_next hstart
      rw [hnext] at hstep
      cases hstep with
      | indent hlt => exact (ih hstart hl hok).indent hl hlt rfl rfl
      | dedent hlt => exact (ih hstart hl hok).dedent hlt rfl rfl
      | content hlevel hhead hread =>
          -- After the end nothing is left to read a token from.
          have hend : l.cursor.atEnd = false := by
            refine eq_false_of_ne_true fun hend => ?_
            rw [(hl.finished hend).1] at hhead
            cases hhead
          have hgo : l.cursor.atEnd = true → False := by simp [hend]
          exact (ih hstart ⟨hl.even, fun h => (hgo h).elim⟩ hok).content hlevel hend hhead hread rfl
      | newline hlevel hend hblank hadvance =>
          rcases Cursor.advanceThrough_eq_ok (c := l.cursor.skipBlanks) hend hadvance
            with ⟨hloaded, hfaces⟩
          exact .newline hlevel hend hblank rfl rfl ((ih hstart hloaded hok).layout hloaded hfaces)
      | finish => exact absurd rfl hmore
  | case3 l e after hnext ih =>
      rw [answers_of_error hnext] at hok
      cases hok

/-- The answers depend on what the next call gives and on nothing else. -/
theorem answers_congr {l l' : Lexer} (h : l.next = l'.next) : l.answers = l'.answers := by
  rcases hnext : l'.next with ⟨e | token, after⟩
  · rw [answers_of_error hnext, answers_of_error (h.trans hnext)]
  · by_cases hend : token.kind = .endOfInput
    · rw [answers_of_end hnext hend, answers_of_end (h.trans hnext) hend]
    · rw [answers_of_token hnext hend, answers_of_token (h.trans hnext) hend]

/-- The first call goes on from the first line as if that had been asked for before. -/
theorem answers_ofText {text : List Char} {cursor : Cursor}
    (h : (Cursor.ofText text).advance = (.ok (), cursor)) :
    (ofText text).answers = (Lexer.mk cursor 0 true).answers := by
  refine answers_congr ?_
  simp only [next, ofText, h]
  rfl

/-- A first line that cannot be loaded is the first answer. -/
theorem answers_ofText_of_error {text : List Char} {e : LexError} {cursor : Cursor}
    (h : (Cursor.ofText text).advance = (.error e, cursor)) :
    ∃ later, (ofText text).answers = .error e :: later := by
  have hnext : (ofText text).next
      = (.error e, { ofText text with cursor := cursor, started := true }) := by
    simp only [next, ofText, h]
    rfl
  exact ⟨_, answers_of_error hnext⟩

end Lexer

/-! ## Whole texts -/

/-- The tokens of a text without lexical errors are the layout of its lines with content. -/
theorem layout_of_tokenize {source : String} {tokens : List Token}
    (h : tokenize source = .ok tokens) : Layout 0 (Layout.contentLines source.toList) tokens := by
  have hstream := tokenize_eq_ok_iff.mp h
  have hfault : (Stream.ofAnswers (Lexer.ofText source.toList).answers).fault = none :=
    congrArg Stream.fault hstream
  have htokens : (Stream.ofAnswers (Lexer.ofText source.toList).answers).tokens = tokens :=
    congrArg Stream.tokens hstream
  rcases hadvance : (Cursor.ofText source.toList).advance with ⟨e | _, cursor⟩
  · rcases Lexer.answers_ofText_of_error hadvance with ⟨later, hlater⟩
    rw [hlater] at hfault
    cases hfault
  · rw [Lexer.answers_ofText hadvance] at hfault htokens
    rcases Cursor.advanceThrough_eq_ok rfl hadvance with ⟨hloaded, hfaces⟩
    have hahead := Lexer.ahead_answers (Lexer.mk cursor 0 true) rfl hloaded hfault
    rw [htokens] at hahead
    exact hahead.layout hloaded hfaces

end Offside
