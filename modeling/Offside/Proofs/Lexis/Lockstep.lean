import Offside.Proofs.Layout.Spacing
import Offside.Proofs.Lexis.Literals

/-!
# Lockstep — two texts with the same contents

This file runs the lexer on two texts that differ in spacing only, call by call.  Both cursors stand
before the same part of a line, up to blanks at its end, and have the same lines with content ahead:

- `Lexeme.Alike` : the same reading, which leaves the same behind it
- `Cursor.Alike` : what two cursors have in common in such texts
- `outline`      : an answer without the place, or an error without its line
- `Stream.Alike` : the same kinds of tokens, and the same error if one ends them

Lines are counted differently in the two texts, and so is the place of the end of a line.  The main
statements are `alike_next`, for one call, and `alike_ofText`, for whole texts.
-/

namespace Offside

/-! ## Readings -/

section Gap

variable {cs gap : List Char}

/-- Nothing more is taken in front of a gap where the run ends before it, or the gap does not go on with
it. -/
theorem takeWhile_append_gap {p : Char → Bool}
    (h : (∃ d ∈ cs, p d = false) ∨ ∀ d ∈ gap, p d = false) :
    (cs ++ gap).takeWhile p = cs.takeWhile p ∧ (cs ++ gap).dropWhile p = cs.dropWhile p ++ gap := by
  induction cs with
  | nil =>
      have hgap : ∀ d ∈ gap, p d = false := h.resolve_left (by simp)
      exact Lexeme.takeWhile_dropWhile_append nofun
        fun d hd => hgap d (List.mem_of_mem_head? hd)
  | cons c cs ih =>
      by_cases hc : p c = true
      · have hlater : (∃ d ∈ cs, p d = false) ∨ ∀ d ∈ gap, p d = false := by
          simpa [hc] using h
        rcases ih hlater with ⟨htake, hdrop⟩
        simp only [List.cons_append, List.takeWhile_cons_of_pos hc, List.dropWhile_cons_of_pos hc,
          htake, hdrop, and_self]
      · simp only [List.cons_append, List.takeWhile_cons_of_neg hc, List.dropWhile_cons_of_neg hc,
          and_self]

namespace Text

variable {raw : List Char}

theorem exists_content (hcontent : trimmed raw ≠ []) : ∃ d ∈ trimmed raw, isBlank d = false :=
  ⟨_, List.getLast_mem hcontent, eq_false_of_ne_true (List.rdropWhile_last_not isBlank raw hcontent)⟩

/-- A run of blanks at the head of a line with content ends within its trimmed part. -/
theorem takeWhile_trimmed {p : Char → Bool} (hp : ∀ d, p d = true → isBlank d = true)
    (hcontent : trimmed raw ≠ []) :
    raw.takeWhile p = (trimmed raw).takeWhile p
      ∧ ∃ gap, (∀ d ∈ gap, isBlank d = true) ∧ raw.dropWhile p = (trimmed raw).dropWhile p ++ gap := by
  rcases exists_gap raw with ⟨gap, hgap, hraw⟩
  rcases exists_content hcontent with ⟨d, hd, hnot⟩
  have hstop : p d = false := eq_false_of_ne_true fun hpd => by cases (hp d hpd).symm.trans hnot
  rcases @takeWhile_append_gap _ gap _ (.inl ⟨d, hd, hstop⟩) with ⟨htake, hdrop⟩
  rw [← hraw] at htake hdrop
  exact ⟨htake, gap, hgap, hdrop⟩

end Text

namespace Lexeme

/-- Two readings of one token. What remains differs in blanks at the end of the line, and where nothing
else remains, a string that is not closed has taken them. -/
structure Alike (a b : Lexeme) : Prop where
  reading : a.reading = b.reading
  rest : Text.trimmed a.rest = Text.trimmed b.rest
  taken : Text.trimmed a.rest ≠ [] → a.taken = b.taken

namespace Alike

variable {a b c : Lexeme}

theorem symm (h : Alike a b) : Alike b a where
  reading := h.reading.symm
  rest := h.rest.symm
  taken hrest := (h.taken (h.rest ▸ hrest)).symm

theorem trans (h : Alike a b) (h' : Alike b c) : Alike a c where
  reading := h.reading.trans h'.reading
  rest := h.rest.trans h'.rest
  taken hrest := (h.taken hrest).trans (h'.taken (h.rest ▸ hrest))

theorem of_gap (hgap : ∀ d ∈ gap, Text.isBlank d = true) (hreading : a.reading = b.reading)
    (htaken : a.taken = b.taken) (hrest : a.rest = b.rest ++ gap) : Alike a b where
  reading := hreading
  rest := by rw [hrest, Text.trimmed_append _ hgap]
  taken _ := htaken

end Alike

/-- The mark of one character, where no longer one stands. -/
theorem punct_of_single {c : Char}
    (hlonger : ∀ p rest, Punct.withEquals? c = some p → cs ≠ '=' :: rest) :
    punct c cs = match Punct.single? c with
      | some p => ⟨.ok (.punct p), [c], cs⟩
      | none => ⟨.error (.unexpected c), [c], cs⟩ := by
  unfold punct
  split
  next p rest hp => exact absurd rfl (hlonger p rest hp)
  next => rfl

theorem Body.append {quote : Char} {body text more later : List Char} (h : Body quote body text)
    (hmore : Body quote more later) : Body quote (body ++ more) (text ++ later) := by
  induction h with
  | nil => exact hmore
  | plain hquote hplain _ ih => exact .plain hquote hplain ih
  | escaped _ ih => exact .escaped ih

variable (hgap : ∀ d ∈ gap, Text.isBlank d = true)
include hgap

/-- A blank does not go on with a run of characters of which none is blank. -/
theorem takeWhile_append_blanks {p : Char → Bool}
    (hp : ∀ {d : Char}, p d = true → Text.isBlank d = false) (cs : List Char) :
    (cs ++ gap).takeWhile p = cs.takeWhile p ∧ (cs ++ gap).dropWhile p = cs.dropWhile p ++ gap := by
  refine takeWhile_append_gap (.inr fun d hd => eq_false_of_ne_true fun hpd => ?_)
  have hblank := hgap d hd
  rw [hp hpd] at hblank
  cases hblank

/-- Within a string blanks stand for themselves. -/
theorem body_of_blanks {quote : Char} (hquote : isQuote quote = true) : Body quote gap gap := by
  induction gap with
  | nil => exact .nil
  | cons c gap ih =>
      rcases List.forall_mem_cons.mp hgap with ⟨hc, hlater⟩
      refine .plain ?_ ?_ (ih hlater)
      · rintro rfl
        cases hc.symm.trans (isBlank_eq_false_of_isQuote hquote)
      · rintro rfl
        cases hc

/-- A line that ends within a string ends within it with blanks behind it as well. -/
theorem Cut.append_blanks {quote : Char} (hquote : isQuote quote = true) (h : Cut quote cs) :
    Cut quote (cs ++ gap) := by
  cases h with
  | «open» hbody => exact .open (hbody.append (body_of_blanks hgap hquote))
  | @backslash body _ hbody =>
      cases gap with
      | nil =>
          rw [List.append_nil]
          exact .backslash hbody
      | cons c gap =>
          -- The backslash stands before a blank.
          rw [List.append_assoc]
          exact .open (hbody.append (.escaped (body_of_blanks (List.forall_mem_cons.mp hgap).2 hquote)))

theorem alike_string {quote : Char} (hquote : isQuote quote = true) (cs : List Char) :
    Alike (string quote (cs ++ gap)) (string quote cs) := by
  have hplain := ne_backslash_of_isQuote hquote
  rcases closed_or_cut quote cs with ⟨body, text, later, rfl, hbody⟩ | hcut
  · rw [List.append_assoc, List.cons_append]
    refine .of_gap hgap ?_ ?_ ?_
    all_goals simp only [string, literal_of_body hbody hplain]
  · -- Both strings take all that is left of their lines.
    have hcut' := hcut.append_blanks hgap hquote
    refine ⟨?_, ?_, fun hrest => absurd ?_ hrest⟩
    · simp only [string, literal_of_cut hcut, literal_of_cut hcut']
    · simp only [string, literal_of_cut hcut, literal_of_cut hcut']
    · simp only [string, literal_of_cut hcut']
      rfl

theorem alike_punct (c : Char) (cs : List Char) : Alike (punct c (cs ++ gap)) (punct c cs) := by
  by_cases hlonger : ∃ p rest, Punct.withEquals? c = some p ∧ cs = '=' :: rest
  · rcases hlonger with ⟨p, rest, hp, rfl⟩
    refine .of_gap hgap ?_ ?_ ?_
    all_goals simp only [punct, hp, List.cons_append]
  · have hlonger' : ∀ p rest, Punct.withEquals? c = some p → cs ++ gap ≠ '=' :: rest := by
      intro p rest hp heq
      cases cs with
      | nil =>
          -- An equals sign is not blank.
          rw [List.nil_append] at heq
          cases hgap '=' (heq ▸ List.mem_cons_self)
      | cons d ds =>
          cases heq
          exact hlonger ⟨p, ds, hp, rfl⟩
    rw [punct_of_single fun p rest hp heq => hlonger ⟨p, rest, hp, heq⟩, punct_of_single hlonger']
    cases Punct.single? c with
    | some p => exact .of_gap hgap rfl rfl rfl
    | none => exact .of_gap hgap rfl rfl rfl

/-- What is read at the head of a line does not depend on the blanks at its end. -/
theorem alike_read (c : Char) (cs : List Char) : Alike (read c (cs ++ gap)) (read c cs) := by
  unfold read
  by_cases hdigit : c.isDigit = true
  · rw [if_pos hdigit, if_pos hdigit]
    rcases takeWhile_append_blanks hgap isBlank_eq_false_of_isDigit (c :: cs) with ⟨htake, hdrop⟩
    exact .of_gap hgap (by simp only [integer, ← List.cons_append, htake]) htake hdrop
  rw [if_neg hdigit, if_neg hdigit]
  by_cases hstart : startsName c = true
  · rw [if_pos hstart, if_pos hstart]
    rcases takeWhile_append_blanks hgap isBlank_eq_false_of_continuesName (c :: cs) with ⟨htake, hdrop⟩
    exact .of_gap hgap (by simp only [word, ← List.cons_append, htake]) htake hdrop
  rw [if_neg hstart, if_neg hstart]
  by_cases hquote : isQuote c = true
  · rw [if_pos hquote, if_pos hquote]
    exact alike_string hgap hquote cs
  · rw [if_neg hquote, if_neg hquote]
    exact alike_punct hgap c cs

end Lexeme

end Gap

/-! ## Answers -/

/-- The error without the line it is about. -/
def LexError.unnumbered : LexError → LexError
  | oddIndentation spaces _ => oddIndentation spaces 0
  | unexpectedCharacter character place => unexpectedCharacter character { place with line := 0 }
  | invalidInteger digits place => invalidInteger digits { place with line := 0 }
  | unterminatedString place => unterminatedString { place with line := 0 }

/-- What is left of a result without its places and of an error without its line. -/
def outline {α β : Type} (f : α → β) : Except LexError α → Except LexError β
  | .ok x => .ok (f x)
  | .error e => .error e.unnumbered

/-! ## Cursors -/

namespace Cursor

/-- What two cursors have in common in texts that differ in spacing only. Where nothing is left of the
line but blanks, they may stand behind different ones. -/
structure Alike (c c' : Cursor) : Prop where
  pending : Text.contents c.pending = Text.contents c'.pending
  rest : Text.trimmed c.rest = Text.trimmed c'.rest
  position : Text.trimmed c.rest ≠ [] → c.position = c'.position
  leadingSpaces : c.leadingSpaces = c'.leadingSpaces
  atEnd : c.atEnd = c'.atEnd

/-- Lines without contents are passed over to the end of the text. -/
theorem advanceThrough_of_contents_nil (c : Cursor) {raws : List (List Char)}
    (h : Text.contents raws = []) :
    ∃ number, c.advanceThrough raws = (.ok (), { c.finish with lineNumber := number }) := by
  induction raws generalizing c with
  | nil => exact ⟨c.lineNumber, rfl⟩
  | cons raw later ih =>
      rw [advanceThrough]
      cases hblank : raw.all Text.isBlank with
      | true =>
          rw [Text.contents_cons_of_blank hblank] at h
          exact ih _ h
      | false =>
          rw [Text.contents_cons_of_content hblank] at h
          cases h

/-- The first line with contents is loaded. -/
theorem advanceThrough_of_contents_cons (c : Cursor) {raws contents : List (List Char)}
    {line : List Char} (h : Text.contents raws = line :: contents) :
    ∃ raw later number, Text.trimmed raw = line ∧ Text.trimmed raw ≠ []
      ∧ Text.contents later = contents
      ∧ c.advanceThrough raws = { c with pending := later, lineNumber := number : Cursor }.load raw := by
  induction raws generalizing c with
  | nil => cases h
  | cons raw later ih =>
      rw [advanceThrough]
      cases hblank : raw.all Text.isBlank with
      | true =>
          rw [Text.contents_cons_of_blank hblank] at h
          exact ih _ h
      | false =>
          rw [Text.contents_cons_of_content hblank] at h
          cases h
          have hcontent : Text.trimmed raw ≠ [] := fun hnil => by
            cases (Text.trimmed_eq_nil_iff.mp hnil).symm.trans hblank
          exact ⟨raw, later, _, rfl, hcontent, rfl, rfl⟩

/-- Of lines that are the same up to blanks at the end, the same is loaded. -/
theorem Alike.load {c c' : Cursor} {raw raw' : List Char} (h : c.Alike c')
    (hraw : Text.trimmed raw = Text.trimmed raw') (hcontent : Text.trimmed raw ≠ []) :
    outline id (c.load raw).1 = outline id (c'.load raw').1 ∧ (c.load raw).2.Alike (c'.load raw').2 := by
  have hspace : ∀ d : Char, decide (d = ' ') = true → Text.isBlank d = true := by
    intro d hd
    rw [of_decide_eq_true hd]
    rfl
  rcases Text.takeWhile_trimmed hspace hcontent with ⟨htake, gap, hgap, hdrop⟩
  rcases Text.takeWhile_trimmed hspace (hraw ▸ hcontent) with ⟨htake', gap', hgap', hdrop'⟩
  rw [← hraw] at htake' hdrop'
  unfold Cursor.load
  rw [htake, htake', hdrop, hdrop']
  dsimp only
  split
  · -- Both lines are indented by the same odd number of spaces, and both cursors stay.
    exact ⟨rfl, h⟩
  · refine ⟨rfl, h.pending, ?_, fun _ => rfl, rfl, h.atEnd⟩
    rw [Text.trimmed_append _ hgap, Text.trimmed_append _ hgap']

theorem Alike.advance {c c' : Cursor} (h : c.Alike c') :
    outline id c.advance.1 = outline id c'.advance.1 ∧ c.advance.2.Alike c'.advance.2 := by
  unfold Cursor.advance
  cases hcontents : Text.contents c.pending with
  | nil =>
      rcases c.advanceThrough_of_contents_nil hcontents with ⟨number, hrun⟩
      rcases c'.advanceThrough_of_contents_nil (h.pending.symm.trans hcontents) with ⟨number', hrun'⟩
      rw [hrun, hrun']
      exact ⟨rfl, rfl, rfl, fun _ => rfl, rfl, rfl⟩
  | cons line contents =>
      rcases c.advanceThrough_of_contents_cons hcontents with
        ⟨raw, later, number, hraw, hcontent, hlater, hrun⟩
      rcases c'.advanceThrough_of_contents_cons (h.pending.symm.trans hcontents) with
        ⟨raw', later', number', hraw', -, hlater', hrun'⟩
      rw [hrun, hrun']
      exact Alike.load ⟨hlater.trans hlater'.symm, h.rest, h.position, h.leadingSpaces, h.atEnd⟩
        (hraw.trans hraw'.symm) hcontent

/-- What stands ahead of two cursors behind the blanks. -/
inductive Abreast (c c' : Cursor) : Prop where
  | endOfLine (hrest : c.rest = []) (hrest' : c'.rest = [])
  | char {x : Char} {more gap gap' : List Char} (hgap : ∀ d ∈ gap, Text.isBlank d = true)
      (hgap' : ∀ d ∈ gap', Text.isBlank d = true) (hrest : c.rest = x :: (more ++ gap))
      (hrest' : c'.rest = x :: (more ++ gap')) (hposition : c.position = c'.position)

theorem rest_skipBlanks_of_blank {c : Cursor} (h : Text.trimmed c.rest = []) : c.skipBlanks.rest = [] :=
  Layout.dropWhile_eq_nil (Text.trimmed_eq_nil_iff.mp h)

theorem Alike.skipBlanks {c c' : Cursor} (h : c.Alike c') :
    c.skipBlanks.Alike c'.skipBlanks ∧ c.skipBlanks.Abreast c'.skipBlanks := by
  by_cases hblank : Text.trimmed c.rest = []
  · -- The blanks that are passed may differ, but nothing is left behind them.
    have hrest := rest_skipBlanks_of_blank hblank
    have hrest' := rest_skipBlanks_of_blank (h.rest.symm.trans hblank)
    refine ⟨⟨h.pending, ?_, fun hcontent => absurd ?_ hcontent, h.leadingSpaces, h.atEnd⟩,
      .endOfLine hrest hrest'⟩
    · rw [hrest, hrest']
    · rw [hrest]
      rfl
  · -- The blanks that are passed end in front of a character that both lines have.
    have hblanks : ∀ d, Text.isBlank d = true → Text.isBlank d = true := fun _ hd => hd
    rcases Text.takeWhile_trimmed hblanks hblank with ⟨htake, gap, hgap, hdrop⟩
    rcases Text.takeWhile_trimmed hblanks (h.rest ▸ hblank) with ⟨htake', gap', hgap', hdrop'⟩
    rw [← h.rest] at htake' hdrop'
    have hposition : c.skipBlanks.position = c'.skipBlanks.position := by
      simp only [Cursor.skipBlanks, moveOver, htake, htake', h.position hblank]
    refine ⟨⟨h.pending, ?_, fun _ => hposition, h.leadingSpaces, h.atEnd⟩, ?_⟩
    · show Text.trimmed (c.rest.dropWhile Text.isBlank) = Text.trimmed (c'.rest.dropWhile Text.isBlank)
      rw [hdrop, hdrop', Text.trimmed_append _ hgap, Text.trimmed_append _ hgap']
    · cases hfirst : (Text.trimmed c.rest).dropWhile Text.isBlank with
      | nil =>
          rcases Text.exists_content hblank with ⟨d, hd, hnot⟩
          cases (List.dropWhile_eq_nil_iff.mp hfirst d hd).symm.trans hnot
      | cons x more =>
          rw [hfirst] at hdrop hdrop'
          exact .char hgap hgap' hdrop hdrop' hposition

end Cursor

/-! ## Calls of the lexer -/

namespace Lexer

/-- Both lexers have opened the same blocks, and their cursors stand before the same. -/
structure Alike (l l' : Lexer) : Prop where
  cursor : l.cursor.Alike l'.cursor
  level : l.level = l'.level
  started : l.started = l'.started

/-- Two calls answer the same but for places and lines, and leave lexers that go on alike. -/
structure AlikeCalls (call call' : Except LexError Token × Lexer) : Prop where
  answer : outline Token.kind call.1 = outline Token.kind call'.1
  after : call.2.Alike call'.2

variable {l l' : Lexer}

theorem alike_tokenAt {place place' : Position} {read read' : Lexeme} (h : read.Alike read')
    (hcolumn : place.column = place'.column) :
    outline Token.kind (tokenAt place read) = outline Token.kind (tokenAt place' read') := by
  have hplace : { place with line := 0 } = { place' with line := 0 } := by rw [hcolumn]
  unfold tokenAt
  rw [h.reading]
  cases read'.reading with
  | ok k => rfl
  | error m => cases m <;> simp only [outline, errorAt, LexError.unnumbered, hplace]

/-- The end of a line is reported where the next one can be loaded. -/
theorem outline_newline (loaded : Except LexError Unit) (place : Position) :
    outline Token.kind (loaded.map fun _ => ⟨.newline, place⟩)
      = (outline id loaded).map fun _ => .newline := by
  cases loaded with
  | ok => rfl
  | error => rfl

theorem alike_scanHere (h : l.Alike l') (habreast : l.cursor.Abreast l'.cursor) :
    AlikeCalls l.scanHere l'.scanHere := by
  unfold scanHere
  cases habreast with
  | endOfLine hrest hrest' =>
      rw [hrest, hrest', h.cursor.atEnd]
      dsimp only
      split
      · exact ⟨rfl, h⟩
      · rcases h.cursor.advance with ⟨hanswer, hcursor⟩
        refine ⟨?_, hcursor, h.level, h.started⟩
        rw [outline_newline, outline_newline, hanswer]
  | @char x more gap gap' hgap hgap' hrest hrest' hposition =>
      rw [hrest, hrest']
      dsimp only
      have hread := (Lexeme.alike_read hgap x more).trans (Lexeme.alike_read hgap' x more).symm
      refine ⟨alike_tokenAt hread ?_, ⟨h.cursor.pending, hread.rest, ?_, h.cursor.leadingSpaces,
        h.cursor.atEnd⟩, h.level, h.started⟩
      · simp only [Cursor.place, h.cursor.leadingSpaces, hposition]
      · intro hcontent
        simp only [Cursor.moveOver, hposition, hread.taken hcontent]

theorem alike_scan (h : l.Alike l') : AlikeCalls l.scan l'.scan := by
  have hdepth : l.cursor.level = l'.cursor.level := congrArg (· / 2) h.cursor.leadingSpaces
  unfold scan
  rw [h.level, hdepth]
  split
  · exact ⟨rfl, h.cursor, rfl, h.started⟩
  split
  · exact ⟨rfl, h.cursor, rfl, h.started⟩
  · rcases h.cursor.skipBlanks with ⟨hcursor, habreast⟩
    exact alike_scanHere ⟨hcursor, h.level, h.started⟩ habreast

/-- The lexer answers alike on both texts, and goes on alike. -/
theorem alike_next (h : l.Alike l') : AlikeCalls l.next l'.next := by
  unfold next
  rw [h.started]
  split
  · exact alike_scan h
  · rcases h.cursor.advance with ⟨hanswer, hcursor⟩
    rcases hload : l.cursor.advance with ⟨loaded, c⟩
    rcases hload' : l'.cursor.advance with ⟨loaded', c'⟩
    rw [hload, hload'] at hanswer hcursor
    cases loaded with
    | ok =>
        cases loaded' with
        | ok => exact alike_scan ⟨hcursor, h.level, rfl⟩
        | error => cases hanswer
    | error =>
        cases loaded' with
        | ok => cases hanswer
        | error => exact ⟨congrArg Except.error (Except.error.inj hanswer), hcursor, h.level, rfl⟩

theorem alike_ofText {text text' : List Char}
    (h : Text.contents (Text.lines text) = Text.contents (Text.lines text')) :
    (ofText text).Alike (ofText text') :=
  ⟨⟨h, rfl, fun _ => rfl, rfl, rfl⟩, rfl, rfl⟩

namespace AlikeCalls

variable {after : Lexer} {call : Except LexError Token × Lexer}

theorem exists_token {token : Token} (h : AlikeCalls (.ok token, after) call) :
    ∃ token' after', call = (.ok token', after') ∧ token.kind = token'.kind ∧ after.Alike after' := by
  rcases call with ⟨e | token', after'⟩
  · cases h.answer
  · exact ⟨token', after', rfl, Except.ok.inj h.answer, h.after⟩

theorem exists_error {e : LexError} (h : AlikeCalls (.error e, after) call) :
    ∃ e' after', call = (.error e', after') ∧ e.unnumbered = e'.unnumbered ∧ after.Alike after' := by
  rcases call with ⟨e' | token, after'⟩
  · exact ⟨e', after', rfl, Except.error.inj h.answer, h.after⟩
  · cases h.answer

end AlikeCalls

/-- All answers are alike, up to the end of the input. -/
theorem Alike.answers (h : l.Alike l') :
    l.answers.map (outline Token.kind) = l'.answers.map (outline Token.kind) := by
  -- Both lexers stop at the same call, since the end of the input is a kind of token.
  induction l using Lexer.run.induct generalizing l' with
  | case1 l token after hnext hend =>
      rcases (hnext ▸ alike_next h).exists_token with ⟨token', after', hnext', hkind, -⟩
      rw [answers_of_end hnext hend, answers_of_end hnext' (hkind ▸ hend), List.map_singleton,
        List.map_singleton, outline, outline, hkind]
  | case2 l token after hnext hmore ih =>
      rcases (hnext ▸ alike_next h).exists_token with ⟨token', after', hnext', hkind, hafter⟩
      rw [answers_of_token hnext hmore, answers_of_token hnext' (hkind ▸ hmore), List.map_cons,
        List.map_cons, outline, outline, hkind, ih hafter]
  | case3 l e after hnext ih =>
      rcases (hnext ▸ alike_next h).exists_error with ⟨e', after', hnext', herror, hafter⟩
      rw [answers_of_error hnext, answers_of_error hnext', List.map_cons, List.map_cons, outline,
        outline, herror, ih hafter]

end Lexer

/-! ## Whole texts -/

namespace Stream

/-- The same kinds of tokens, and the same error behind them but for the line it is on. -/
structure Alike (s s' : Stream) : Prop where
  kinds : s.tokens.map (·.kind) = s'.tokens.map (·.kind)
  fault : s.fault.map LexError.unnumbered = s'.fault.map LexError.unnumbered

theorem alike_ofAnswers {answers answers' : List (Except LexError Token)}
    (h : answers.map (outline Token.kind) = answers'.map (outline Token.kind)) :
    (ofAnswers answers).Alike (ofAnswers answers') := by
  induction answers generalizing answers' with
  | nil =>
      rw [List.map_eq_nil_iff.mp h.symm]
      exact ⟨rfl, rfl⟩
  | cons answer later ih =>
      rcases List.map_eq_cons_iff.mp h.symm with ⟨answer', later', rfl, hanswer, hlater⟩
      rcases ih hlater.symm with ⟨hkinds, hfault⟩
      cases answer with
      | ok token =>
          cases answer' with
          | ok token' => exact ⟨congrArg₂ List.cons (Except.ok.inj hanswer.symm) hkinds, hfault⟩
          | error => cases hanswer
      | error e =>
          cases answer' with
          | ok => cases hanswer
          | error e' => exact ⟨rfl, congrArg some (Except.error.inj hanswer.symm)⟩

theorem alike_ofText {text text' : List Char}
    (h : Text.contents (Text.lines text) = Text.contents (Text.lines text')) :
    (ofText text).Alike (ofText text') :=
  alike_ofAnswers (Lexer.alike_ofText h).answers

end Stream

end Offside
