import Offside.Proofs.Layout.Run
import Offside.Proofs.Lexis.Spelling

/-!
# Account — what the lexer makes of every part of a text

This file follows the lexer through the lines of a text, blank lines and errors included:

- `Covers`  : tokens that stand in a piece of a line with nothing but blanks between them
- `Account` : the tokens that lines give up to the first error, each with its place

The end of a line is reported when the next line with content has been loaded, so that it is missing
where that line cannot be loaded.  The main statement, `account_ofText`, holds of every text, with and
without lexical errors.
-/

namespace Offside

/-! ## Lines -/

namespace Text

/-- The leading spaces of a line. -/
def indentation (raw : List Char) : List Char :=
  raw.takeWhile (· = ' ')

def unindented (raw : List Char) : List Char :=
  raw.dropWhile (· = ' ')

@[simp] theorem indentation_append_unindented (raw : List Char) :
    indentation raw ++ unindented raw = raw :=
  List.takeWhile_append_dropWhile

theorem byteSize_indentation (raw : List Char) :
    byteSize (indentation raw) = (indentation raw).length := by
  induction raw with
  | nil => rfl
  | cons c cs ih =>
      by_cases hc : c = ' '
      · subst hc
        have hcons : indentation (' ' :: cs) = ' ' :: indentation cs :=
          List.takeWhile_cons_of_pos (decide_eq_true rfl)
        have hspace : ' '.utf8Size = 1 := by decide
        rw [hcons, byteSize_cons, ih, List.length_cons, hspace, Nat.add_comm]
      · have hnil : indentation (c :: cs) = [] :=
          List.takeWhile_cons_of_neg (by simpa using hc)
        rw [hnil]
        rfl

end Text

/-- Of a line, `before` has been read and `text` is ahead. The tokens are written at the head of `text`,
with nothing but blanks in front of each. Behind them `after` has been read and `rest` is ahead. -/
inductive Covers (number : Nat) :
    List Char → List Char → List Token → List Char → List Char → Prop where
  | nil {before text : List Char} : Covers number before text [] before text
  | token {before gap lexeme later after rest : List Char} {k : Kind} {tokens : List Token}
      (hgap : gap.all Text.isBlank = true) (hspells : Spells k lexeme) (hmax : k.Maximal later)
      (h : Covers number (before ++ gap ++ lexeme) later tokens after rest) :
      Covers number before (gap ++ lexeme ++ later)
        (⟨k, ⟨number, Text.byteSize (before ++ gap) + 1⟩⟩ :: tokens) after rest

/-- A block opens or closes in front of what stands at a place. -/
structure Token.Shifts (t : Token) (place : Position) : Prop where
  kind : t.kind = .indent ∨ t.kind = .dedent
  place : t.place = place

/-- The tokens of a line with content up to some place: blocks open or close behind the leading spaces,
and then come the tokens that are written in the line. -/
structure LineRead (number : Nat) (raw : List Char) (shift content : List Token)
    (after rest : List Char) : Prop where
  hasContent : raw.all Text.isBlank = false
  even : (Text.indentation raw).length % 2 = 0
  shift : ∀ t ∈ shift, t.Shifts ⟨number, (Text.indentation raw).length + 1⟩
  content : Covers number (Text.indentation raw) (Text.unindented raw) content after rest

/-- The token at the end of a line. -/
def lineEnd (number : Nat) (raw : List Char) : Token :=
  ⟨.newline, ⟨number, Text.byteSize raw + 1⟩⟩

/-- The tokens at the end of a text of `n` lines: the open blocks close. -/
def closing (n depth : Nat) : List Token :=
  List.replicate depth ⟨.dedent, ⟨n, 1⟩⟩ ++ [⟨.endOfInput, ⟨n, 1⟩⟩]

/-- What the lexer gives for the lines behind the first `n`. The tokens in `lead` come first, if a line
can be loaded or the text ends. -/
inductive Account : List Token → Nat → List (List Char) → List Token → Option LexError → Prop where
  | finish {lead : List Token} {n : Nat} (depth : Nat) :
      Account lead n [] (lead ++ closing n depth) none
  | blank {lead tokens : List Token} {n : Nat} {raw : List Char} {lines : List (List Char)}
      {fault : Option LexError} (hblank : raw.all Text.isBlank = true)
      (h : Account lead (n + 1) lines tokens fault) : Account lead n (raw :: lines) tokens fault
  | odd {lead : List Token} {n : Nat} {raw : List Char} {lines : List (List Char)}
      (hcontent : raw.all Text.isBlank = false) (hodd : (Text.indentation raw).length % 2 = 1) :
      Account lead n (raw :: lines) []
        (some (.oddIndentation (Text.indentation raw).length (n + 1)))
  | line {lead shift content tokens : List Token} {n : Nat} {raw after rest : List Char}
      {lines : List (List Char)} {fault : Option LexError}
      (hline : LineRead (n + 1) raw shift content after rest) (hblank : rest.all Text.isBlank = true)
      (h : Account [lineEnd (n + 1) raw] (n + 1) lines tokens fault) :
      Account lead n (raw :: lines) (lead ++ shift ++ content ++ tokens) fault
  | malformed {lead shift content : List Token} {n : Nat} {raw after gap more : List Char} {c : Char}
      {lines : List (List Char)} {m : Malformed}
      (hline : LineRead (n + 1) raw shift content after (gap ++ c :: more))
      (hgap : gap.all Text.isBlank = true) (hhead : Text.isBlank c = false)
      (hread : (Lexeme.read c more).reading = .error m) :
      Account lead n (raw :: lines) (lead ++ shift ++ content)
        (some (Lexer.errorAt ⟨n + 1, Text.byteSize (after ++ gap) + 1⟩ m))

/-- What the lexer gives from within a line on, of which `before` has been read and `text` is ahead. -/
inductive LineAhead (number : Nat) (before text : List Char) (pending : List (List Char)) :
    List Token → List Token → Option LexError → Prop where
  | whole {content tail : List Token} {after rest : List Char} {fault : Option LexError}
      (hcovers : Covers number before text content after rest)
      (hblank : rest.all Text.isBlank = true)
      (h : Account [lineEnd number (before ++ text)] number pending tail fault) :
      LineAhead number before text pending content tail fault
  | malformed {content : List Token} {after gap more : List Char} {c : Char} {m : Malformed}
      (hcovers : Covers number before text content after (gap ++ c :: more))
      (hgap : gap.all Text.isBlank = true) (hhead : Text.isBlank c = false)
      (hread : (Lexeme.read c more).reading = .error m) :
      LineAhead number before text pending content []
        (some (Lexer.errorAt ⟨number, Text.byteSize (after ++ gap) + 1⟩ m))

namespace LineAhead

variable {number n : Nat} {before raw : List Char} {pending lines : List (List Char)}
  {content shift lead tail : List Token} {fault : Option LexError}

theorem token {gap lexeme later : List Char} {k : Kind} (hgap : gap.all Text.isBlank = true)
    (hspells : Spells k lexeme) (hmax : k.Maximal later)
    (h : LineAhead number (before ++ gap ++ lexeme) later pending content tail fault) :
    LineAhead number before (gap ++ lexeme ++ later) pending
      (⟨k, ⟨number, Text.byteSize (before ++ gap) + 1⟩⟩ :: content) tail fault := by
  cases h with
  | whole hcovers hblank h =>
      refine .whole (.token hgap hspells hmax hcovers) hblank ?_
      have hall : before ++ (gap ++ lexeme ++ later) = before ++ gap ++ lexeme ++ later := by simp
      rw [hall]
      exact h
  | malformed hcovers hgap' hhead hread =>
      exact .malformed (.token hgap hspells hmax hcovers) hgap' hhead hread

/-- From the start of a line with content the account is one of the line and of those behind it. -/
theorem account (hcontent : raw.all Text.isBlank = false)
    (heven : (Text.indentation raw).length % 2 = 0)
    (hshift : ∀ t ∈ shift, t.Shifts ⟨n + 1, (Text.indentation raw).length + 1⟩)
    (h : LineAhead (n + 1) (Text.indentation raw) (Text.unindented raw) lines content tail fault) :
    Account lead n (raw :: lines) (lead ++ (shift ++ content ++ tail)) fault := by
  cases h with
  | whole hcovers hblank h =>
      rw [Text.indentation_append_unindented] at h
      have hall : Account lead n (raw :: lines) (lead ++ shift ++ content ++ tail) fault :=
        .line ⟨hcontent, heven, hshift, hcovers⟩ hblank h
      simpa using hall
  | malformed hcovers hgap hhead hread =>
      have hall : Account lead n (raw :: lines) (lead ++ shift ++ content) _ :=
        .malformed ⟨hcontent, heven, hshift, hcovers⟩ hgap hhead hread
      simpa using hall

end LineAhead

/-! ## Lines that are loaded -/

namespace Cursor

/-- A cursor on a line with content, or at the end of the text without anything left. -/
structure Settled (c : Cursor) : Prop extends c.Loaded where
  position : c.atEnd = true → c.position = 0

/-- At the end of the text nothing is left to read. -/
theorem Settled.atEnd_eq_false {c : Cursor} (h : c.Settled) {x : Char} {more : List Char}
    (hhead : c.rest.dropWhile Text.isBlank = x :: more) : c.atEnd = false := by
  refine eq_false_of_ne_true fun hend => ?_
  rw [(h.finished hend).1] at hhead
  cases hhead

/-- At the end of the text the place is the first column of the last line. -/
theorem Settled.place_eq {c : Cursor} (h : c.Settled) (hend : c.atEnd = true) :
    c.place = ⟨c.lineNumber, 1⟩ := by
  rw [place, (h.finished hend).2.2, h.position hend]

theorem place_skipBlanks {c : Cursor} {before : List Char}
    (hbefore : Text.byteSize before = c.leadingSpaces + c.position) :
    c.skipBlanks.place
      = ⟨c.lineNumber, Text.byteSize (before ++ c.rest.takeWhile Text.isBlank) + 1⟩ := by
  rw [Text.byteSize_append, hbefore, Nat.add_assoc c.leadingSpaces]
  rfl

/-- What comes of asking for the next line with content. -/
inductive Advances : Cursor → List (List Char) → Except LexError Unit × Cursor → Prop where
  | finish {c : Cursor} : Advances c [] (.ok (), c.finish)
  | blank {c : Cursor} {raw : List Char} {later : List (List Char)}
      {result : Except LexError Unit × Cursor} (hblank : raw.all Text.isBlank = true)
      (h : Advances { c with pending := later, lineNumber := c.lineNumber + 1 } later result) :
      Advances c (raw :: later) result
  | odd {c : Cursor} {raw : List Char} {later : List (List Char)}
      (hcontent : raw.all Text.isBlank = false) (hodd : (Text.indentation raw).length % 2 = 1) :
      Advances c (raw :: later)
        (.error (.oddIndentation (Text.indentation raw).length (c.lineNumber + 1)),
          { c with pending := later, lineNumber := c.lineNumber + 1 })
  | load {c : Cursor} {raw : List Char} {later : List (List Char)}
      (hcontent : raw.all Text.isBlank = false) (heven : (Text.indentation raw).length % 2 = 0) :
      Advances c (raw :: later)
        (.ok (), { c with
          pending := later, lineNumber := c.lineNumber + 1, line := Text.unindented raw,
          rest := Text.unindented raw, position := 0,
          leadingSpaces := (Text.indentation raw).length })

theorem advances_advanceThrough (c : Cursor) (raws : List (List Char)) :
    Advances c raws (c.advanceThrough raws) := by
  induction raws generalizing c with
  | nil => exact .finish
  | cons raw later ih =>
      simp only [advanceThrough, load]
      split
      next hblank => exact .blank hblank (ih _)
      next hcontent =>
        have hcontent : raw.all Text.isBlank = false := eq_false_of_ne_true hcontent
        split
        next hodd => exact .odd hcontent hodd
        next heven => exact .load hcontent (Nat.mod_two_ne_one.mp heven)

theorem settled_of_advanceThrough {c c' : Cursor} {raws : List (List Char)} (hend : c.atEnd = false)
    (h : c.advanceThrough raws = (.ok (), c')) : c'.Settled := by
  refine ⟨(advanceThrough_eq_ok hend h).1, fun _ => ?_⟩
  have hadvances := c.advances_advanceThrough raws
  generalize c.advanceThrough raws = result at h hadvances
  induction hadvances with
  | finish =>
      cases h
      rfl
  | blank _ _ ih => exact ih hend h
  | odd => cases h
  | load =>
      cases h
      rfl

/-- Where no further line can be loaded, the first one with content has odd indentation. -/
theorem account_of_advanceThrough_error {c c' : Cursor} {raws : List (List Char)} {e : LexError}
    {lead : List Token} (h : c.advanceThrough raws = (.error e, c')) :
    Account lead c.lineNumber raws [] (some e) := by
  have hadvances := c.advances_advanceThrough raws
  generalize c.advanceThrough raws = result at h hadvances
  induction hadvances with
  | finish => cases h
  | blank hblank _ ih => exact .blank hblank (ih h)
  | odd hcontent hodd =>
      cases h
      exact .odd hcontent hodd
  | load => cases h

end Cursor

/-! ## The run of the lexer -/

namespace Lexer

/-- What the lexer gives from here on. -/
def Gives (l : Lexer) (tokens : List Token) (fault : Option LexError) : Prop :=
  if l.cursor.atEnd = true then
    tokens = closing l.cursor.lineNumber l.level ∧ fault = none
  else
    ∀ before, Text.byteSize before = l.cursor.leadingSpaces + l.cursor.position →
      ∃ shift content tail, tokens = shift ++ content ++ tail
        ∧ (∀ t ∈ shift, t.Shifts l.cursor.place) ∧ (l.level = l.cursor.level → shift = [])
        ∧ LineAhead l.cursor.lineNumber before l.cursor.rest l.cursor.pending content tail fault

namespace Gives

variable {l : Lexer} {tokens : List Token} {token : Token} {fault : Option LexError}

theorem iff_closing (hend : l.cursor.atEnd = true) :
    l.Gives tokens fault ↔ tokens = closing l.cursor.lineNumber l.level ∧ fault = none := by
  rw [Gives, if_pos hend]

theorem iff_line (hend : l.cursor.atEnd = false) :
    l.Gives tokens fault ↔
      ∀ before, Text.byteSize before = l.cursor.leadingSpaces + l.cursor.position →
        ∃ shift content tail, tokens = shift ++ content ++ tail
          ∧ (∀ t ∈ shift, t.Shifts l.cursor.place) ∧ (l.level = l.cursor.level → shift = [])
          ∧ LineAhead l.cursor.lineNumber before l.cursor.rest l.cursor.pending content tail
              fault := by
  have hgo : ¬l.cursor.atEnd = true := by simp [hend]
  rw [Gives, if_neg hgo]

theorem eq_closing (h : l.Gives tokens fault) (hend : l.cursor.atEnd = true) :
    tokens = closing l.cursor.lineNumber l.level ∧ fault = none :=
  (iff_closing hend).mp h

theorem exists_ahead (h : l.Gives tokens fault) (hend : l.cursor.atEnd = false) {before : List Char}
    (hbefore : Text.byteSize before = l.cursor.leadingSpaces + l.cursor.position) :
    ∃ shift content tail, tokens = shift ++ content ++ tail
      ∧ (∀ t ∈ shift, t.Shifts l.cursor.place) ∧ (l.level = l.cursor.level → shift = [])
      ∧ LineAhead l.cursor.lineNumber before l.cursor.rest l.cursor.pending content tail fault :=
  (iff_line hend).mp h before hbefore

/-- Nothing stands at the end of the text. -/
theorem endOfInput (hc : l.cursor.Settled) (hend : l.cursor.atEnd = true)
    (hlevel : l.level = l.cursor.level) :
    l.Gives [⟨.endOfInput, l.cursor.skipBlanks.place⟩] none := by
  have hnil := hc.finished hend
  have hzero : l.level = 0 := by rw [hlevel, Cursor.level, hnil.2.2]
  have hskip : l.cursor.skipBlanks.place = l.cursor.place := by
    simp [Cursor.skipBlanks, Cursor.moveOver, Cursor.place, hnil.1]
  rw [iff_closing hend, hskip, hc.place_eq hend, hzero]
  exact ⟨rfl, rfl⟩

/-- A block opens or closes, and the line is still ahead. -/
theorem shift {level : Nat} (h : Gives { l with level := level } tokens fault)
    (hend : l.cursor.atEnd = false) (hlevel : l.level ≠ l.cursor.level)
    (hkind : token.kind = .indent ∨ token.kind = .dedent) (hplace : token.place = l.cursor.place) :
    l.Gives (token :: tokens) fault := by
  refine (iff_line hend).mpr fun before hbefore => ?_
  rcases h.exists_ahead hend hbefore with ⟨shift, content, tail, rfl, hshift, -, hahead⟩
  refine ⟨token :: shift, content, tail, rfl, ?_, fun hsame => absurd hsame hlevel, hahead⟩
  exact List.forall_mem_cons.mpr ⟨⟨hkind, hplace⟩, hshift⟩

theorem dedent_closing (h : Gives { l with level := l.level - 1 } tokens fault)
    (hc : l.cursor.Settled) (hend : l.cursor.atEnd = true) (hlt : l.cursor.level < l.level) :
    l.Gives (⟨.dedent, l.cursor.place⟩ :: tokens) fault := by
  rcases h.eq_closing hend with ⟨rfl, rfl⟩
  have hsucc : l.level = l.level - 1 + 1 := by omega
  refine (iff_closing hend).mpr ⟨?_, rfl⟩
  rw [hc.place_eq hend, closing, hsucc]
  rfl

/-- A token that is written behind some blanks. -/
theorem content {c : Char} {more : List Char} {k : Kind}
    (h : Gives
      { l with
        cursor := l.cursor.skipBlanks.moveOver (Lexeme.read c more).taken (Lexeme.read c more).rest }
      tokens fault)
    (hend : l.cursor.atEnd = false) (hlevel : l.level = l.cursor.level)
    (hhead : l.cursor.rest.dropWhile Text.isBlank = c :: more)
    (hread : (Lexeme.read c more).reading = .ok k) :
    l.Gives (⟨k, l.cursor.skipBlanks.place⟩ :: tokens) fault := by
  refine (iff_line hend).mpr fun before hbefore => ?_
  let gap := l.cursor.rest.takeWhile Text.isBlank
  have hgap : gap.all Text.isBlank = true := List.all_takeWhile
  have hrest : gap ++ (Lexeme.read c more).taken ++ (Lexeme.read c more).rest = l.cursor.rest := by
    rw [List.append_assoc, Lexeme.taken_append_rest, ← hhead]
    exact List.takeWhile_append_dropWhile
  have hplace : l.cursor.skipBlanks.place
      = ⟨l.cursor.lineNumber, Text.byteSize (before ++ gap) + 1⟩ := Cursor.place_skipBlanks hbefore
  have hafter : Text.byteSize (before ++ gap ++ (Lexeme.read c more).taken)
      = l.cursor.leadingSpaces
        + (l.cursor.position + Text.byteSize gap + Text.byteSize (Lexeme.read c more).taken) := by
    rw [Text.byteSize_append, Text.byteSize_append, hbefore]
    omega
  rcases h.exists_ahead hend hafter with ⟨shift, content, tail, rfl, -, hnil, hahead⟩
  rcases Lexeme.spells_of_reading hread with ⟨hspells, hmax⟩
  cases hnil hlevel
  refine ⟨[], ⟨k, l.cursor.skipBlanks.place⟩ :: content, tail, rfl, nofun, fun _ => rfl, ?_⟩
  rw [hplace, ← hrest]
  exact .token hgap hspells hmax hahead

/-- At the end of its content a line is followed by the account of the lines behind it. -/
theorem whole (hend : l.cursor.atEnd = false) (hblank : l.cursor.rest.all Text.isBlank = true)
    (h : ∀ before, Text.byteSize before = l.cursor.leadingSpaces + l.cursor.position →
      Account [lineEnd l.cursor.lineNumber (before ++ l.cursor.rest)] l.cursor.lineNumber
        l.cursor.pending tokens fault) : l.Gives tokens fault := by
  refine (iff_line hend).mpr fun before hbefore => ?_
  exact ⟨[], [], tokens, rfl, nofun, fun _ => rfl, .whole .nil hblank (h before hbefore)⟩

theorem malformed {c : Char} {more : List Char} {m : Malformed} (hend : l.cursor.atEnd = false)
    (hhead : l.cursor.rest.dropWhile Text.isBlank = c :: more)
    (hread : (Lexeme.read c more).reading = .error m) :
    l.Gives [] (some (errorAt l.cursor.skipBlanks.place m)) := by
  refine (iff_line hend).mpr fun before hbefore => ?_
  have hnot : Text.isBlank c = false := by
    have hfirst := List.head?_dropWhile_not Text.isBlank l.cursor.rest
    rw [hhead] at hfirst
    exact hfirst
  have hcovers : Covers l.cursor.lineNumber before l.cursor.rest [] before
      (l.cursor.rest.takeWhile Text.isBlank ++ c :: more) := by
    rw [← hhead, List.takeWhile_append_dropWhile]
    exact .nil
  refine ⟨[], [], [], rfl, nofun, fun _ => rfl, ?_⟩
  rw [Cursor.place_skipBlanks hbefore]
  exact .malformed hcovers List.all_takeWhile hnot hread

/-- When a line has been loaded, its tokens and all later ones are the account of the lines. -/
theorem account {c c' : Cursor} {raws : List (List Char)} {lead : List Token} {level : Nat}
    {started : Bool} (h : Gives ⟨c', level, started⟩ tokens fault) (hend : c.atEnd = false)
    (hadvance : c.advanceThrough raws = (.ok (), c')) :
    Account lead c.lineNumber raws (lead ++ tokens) fault := by
  have hadvances := c.advances_advanceThrough raws
  generalize c.advanceThrough raws = result at hadvance hadvances
  induction hadvances with
  | finish =>
      cases hadvance
      rcases h.eq_closing rfl with ⟨rfl, rfl⟩
      exact .finish level
  | blank hblank _ ih => exact .blank hblank (ih hend hadvance)
  | odd => cases hadvance
  | @load c raw later hcontent heven =>
      cases hadvance
      have hspaces := Text.byteSize_indentation raw
      rcases h.exists_ahead hend hspaces with ⟨shift, content, tail, rfl, hshift, -, hahead⟩
      exact hahead.account hcontent heven hshift

end Gives

/-- Where a call gives an error, a token is malformed, or the line behind cannot be loaded. -/
theorem cause_of_next {l after : Lexer} {e : LexError} (hstart : l.started = true)
    (h : l.next = (.error e, after)) :
    (∃ c more m, l.cursor.rest.dropWhile Text.isBlank = c :: more
        ∧ (Lexeme.read c more).reading = .error m ∧ e = errorAt l.cursor.skipBlanks.place m)
      ∨ (l.cursor.atEnd = false ∧ l.cursor.rest.all Text.isBlank = true
        ∧ ∃ cursor, l.cursor.skipBlanks.advance = (.error e, cursor)) := by
  rw [next, if_pos hstart, scan] at h
  split at h
  next => cases h
  next =>
    split at h
    next => cases h
    next =>
      simp only [scanLine, scanHere] at h
      split at h
      next c more hhead =>
        unfold tokenAt at h
        split at h
        next k hread => cases h
        next m hread =>
          cases h
          exact .inl ⟨c, more, m, hhead, hread, rfl⟩
      next hnil =>
        split at h
        next => cases h
        next hend =>
          refine .inr ⟨eq_false_of_ne_true hend, all_isBlank_of_dropWhile_eq_nil hnil, ?_⟩
          rcases hadvance : l.cursor.skipBlanks.advance with ⟨e' | _, cursor⟩
          · rw [hadvance] at h
            cases h
            exact ⟨cursor, rfl⟩
          · rw [hadvance] at h
            cases h

theorem takeWhile_eq_self {text : List Char} (h : text.all Text.isBlank = true) :
    text.takeWhile Text.isBlank = text := by
  have hnone : ∀ d ∈ ([] : List Char).head?, Text.isBlank d = false := nofun
  have hsplit := (Lexeme.takeWhile_dropWhile_append (List.all_eq_true.mp h) hnone).1
  rwa [List.append_nil] at hsplit

/-- Every state of the lexer gives what the account of the text says. -/
theorem gives_answers (l : Lexer) (hstart : l.started = true) (hc : l.cursor.Settled) :
    l.Gives (Stream.ofAnswers l.answers).tokens (Stream.ofAnswers l.answers).fault := by
  -- Each call gives one token of the current line; what the later calls give is there by induction.
  induction l using Lexer.run.induct with
  | case1 l token after hnext hlast =>
      rw [answers_of_end hnext hlast]
      have hstep := step_next hstart
      rw [hnext] at hstep
      cases hstep with
      | finish hlevel hend => exact .endOfInput hc hend hlevel
      | content _ _ hread =>
          cases hlast
          cases Layout.isContent_of_reading hread
      | _ => cases hlast
  | case2 l token after hnext hmore ih =>
      rw [answers_of_token hnext hmore]
      have hstep := step_next hstart
      rw [hnext] at hstep
      cases hstep with
      | indent hlt =>
          cases hend : l.cursor.atEnd with
          | true =>
              -- After the last line the level is that of no block, so none opens.
              have hzero : l.cursor.level = 0 := by rw [Cursor.level, (hc.finished hend).2.2]
              omega
          | false => exact (ih hstart hc).shift hend (Nat.ne_of_lt hlt) (.inl rfl) rfl
      | dedent hlt =>
          cases hend : l.cursor.atEnd with
          | true => exact (ih hstart hc).dedent_closing hc hend hlt
          | false => exact (ih hstart hc).shift hend (Nat.ne_of_gt hlt) (.inr rfl) rfl
      | content hlevel hhead hread =>
          have hend := hc.atEnd_eq_false hhead
          have hgo : l.cursor.atEnd = true → False := by simp [hend]
          have hmoved : ∀ taken rest, (l.cursor.skipBlanks.moveOver taken rest).Settled :=
            fun _ _ => ⟨⟨hc.even, fun h => (hgo h).elim⟩, fun h => (hgo h).elim⟩
          exact (ih hstart (hmoved _ _)).content hend hlevel hhead hread
      | newline hlevel hend hblank hadvance =>
          have hsettled := Cursor.settled_of_advanceThrough (c := l.cursor.skipBlanks) hend hadvance
          refine .whole hend hblank fun before hbefore => ?_
          have hplace : l.cursor.skipBlanks.place
              = ⟨l.cursor.lineNumber, Text.byteSize (before ++ l.cursor.rest) + 1⟩ := by
            rw [Cursor.place_skipBlanks hbefore, takeWhile_eq_self hblank]
          rw [lineEnd, ← hplace]
          exact (ih hstart hsettled).account (c := l.cursor.skipBlanks) hend hadvance
      | finish => exact absurd rfl hmore
  | case3 l e after hnext ih =>
      rw [answers_of_error hnext]
      rcases cause_of_next hstart hnext with
        ⟨c, more, m, hhead, hread, rfl⟩ | ⟨hend, hblank, cursor, hadvance⟩
      · exact .malformed (hc.atEnd_eq_false hhead) hhead hread
      · exact .whole hend hblank fun _ _ =>
          Cursor.account_of_advanceThrough_error (c := l.cursor.skipBlanks) hadvance

end Lexer

/-- The tokens of a text and its first lexical error are accounted for by its lines. -/
theorem account_ofText (text : List Char) :
    Account [] 0 (Text.lines text) (Stream.ofText text).tokens (Stream.ofText text).fault := by
  rcases hadvance : (Cursor.ofText text).advance with ⟨e | _, cursor⟩
  · rcases Lexer.answers_ofText_of_error hadvance with ⟨later, hlater⟩
    rw [Stream.ofText, hlater]
    exact Cursor.account_of_advanceThrough_error (c := .ofText text) hadvance
  · have hsettled := Cursor.settled_of_advanceThrough (c := .ofText text) rfl hadvance
    have hgives := Lexer.gives_answers (Lexer.mk cursor 0 true) rfl hsettled
    rw [Stream.ofText, Lexer.answers_ofText hadvance]
    exact hgives.account (c := .ofText text) rfl hadvance

end Offside
