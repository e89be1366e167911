import Offside.Proofs.Lexis.Calls
import Offside.Proofs.Lexis.Rendering
import Mathlib.Logic.Function.Iterate

/-!
# Literals — strings that are read from the bytes of their line

The text of a string is a part of its line until a backslash is met, and a copy of its own from there on.
This file defines the reader that works so, by single characters and byte positions:

- `Cursor.Stands`      : the part of its line that a cursor has read, as every lexer keeps it
- `Lexeme.Cut`         : a line that ends within a string
- `Cursor.readLiteral` : the reader behind an opening quote
- `Lexer.readString`   : the token, or the error, of a string

The main statement, `scanHere_string`, says that the lexer reads each string as this reader does, and
says what both read in terms of `Lexeme.Body`, which knows nothing of positions and copies.
-/

namespace Offside

/-! ## Where a cursor stands -/

namespace Cursor

/-- Of the current line `before` has been read, and the rest is ahead. -/
structure Stands (c : Cursor) (before : List Char) : Prop where
  line : c.line = before ++ c.rest
  position : c.position = Text.byteSize before

namespace Stands

variable {c : Cursor} {before : List Char}

theorem moveOver {taken rest : List Char} (h : c.Stands before) (hrest : c.rest = taken ++ rest) :
    (c.moveOver taken rest).Stands (before ++ taken) where
  line := by
    calc c.line
        = before ++ c.rest := h.line
      _ = before ++ taken ++ rest := by rw [hrest, List.append_assoc]
  position := by
    calc c.position + Text.byteSize taken
        = Text.byteSize before + Text.byteSize taken := by rw [h.position]
      _ = Text.byteSize (before ++ taken) := (Text.byteSize_append before taken).symm

theorem skipBlanks (h : c.Stands before) :
    c.skipBlanks.Stands (before ++ c.rest.takeWhile Text.isBlank) :=
  h.moveOver List.takeWhile_append_dropWhile.symm

/-- A line that cannot be loaded leaves the cursor where it stands, and every other one is unread. -/
theorem advance (h : c.Stands before) : ∃ before, c.advance.2.Stands before := by
  have hadvances : Advances c c.pending c.advance := c.advances_advanceThrough c.pending
  generalize c.pending = raws at hadvances
  generalize c.advance = result at hadvances
  induction hadvances with
  | finish => exact ⟨[], rfl, rfl⟩
  -- The blank line is dropped, and the current one stays until another is loaded.
  | blank _ _ ih => exact ih ⟨h.line, h.position⟩
  | odd => exact ⟨before, h.line, h.position⟩
  | load => exact ⟨[], rfl, rfl⟩

/-- The bytes from a position on that has been passed are those of the characters read since. -/
theorem slice {lead since : List Char} (h : c.Stands (lead ++ since)) :
    Text.slice (Text.byteSize lead) c.position c.line = since := by
  have hsize : c.position - Text.byteSize lead = Text.byteSize since := by
    rw [h.position, Text.byteSize_append, Nat.add_sub_cancel_left]
  rw [Text.slice, hsize, h.line, List.append_assoc, Text.dropBytes_byteSize_append,
    Text.takeBytes_byteSize_append]

end Stands

/-! ### Single characters -/

section Bump

variable {c : Cursor} {x : Char} {more : List Char}

theorem ahead_of_rest (hgo : c.atEnd = false) (hrest : c.rest = x :: more) : c.ahead = .char x := by
  simp [ahead, hgo, hrest]

theorem ahead_of_rest_nil (hgo : c.atEnd = false) (hrest : c.rest = []) : c.ahead = .endOfLine := by
  simp [ahead, hgo, hrest]

theorem bump_of_rest (hgo : c.atEnd = false) (hrest : c.rest = x :: more) :
    c.bump = c.moveOver [x] more := by
  rw [bump, ahead_of_rest hgo hrest, hrest]

theorem exists_of_ahead (h : c.ahead = .char x) : ∃ more, c.rest = x :: more ∧ c.bump.rest = more := by
  unfold ahead at h
  split at h
  next => cases h
  next hgo =>
    split at h
    next => cases h
    next y more hrest =>
      cases h
      exact ⟨more, hrest, by rw [bump_of_rest (eq_false_of_ne_true hgo) hrest]; rfl⟩

theorem length_bump_lt (h : c.ahead = .char x) : c.bump.rest.length < c.rest.length := by
  rcases exists_of_ahead h with ⟨more, hrest, hbump⟩
  rw [hrest, hbump]
  exact Nat.lt_succ_self more.length

theorem moveOver_moveOver (c : Cursor) (taken taken' rest rest' : List Char) :
    (c.moveOver taken rest).moveOver taken' rest' = c.moveOver (taken ++ taken') rest' := by
  simp [moveOver, Nat.add_assoc]

theorem moveOver_nil (hrest : c.rest = []) : c.moveOver [] [] = c := by
  rcases c with ⟨pending, line, rest, position, lineNumber, leadingSpaces, atEnd⟩
  cases hrest
  rfl

end Bump

/-! ## The reader -/

/-- Reads a string from some place behind its opening quote, which ends at the byte `start`. The text so
far is the part of the line from there on, unless a copy of it is kept. -/
def readLiteral (quote : Char) (start : Nat) (kept : Option (List Char)) (c : Cursor) :
    Option (List Char) × Cursor :=
  match _hahead : c.ahead with
  | .char x =>
      if x = quote then
        (some (kept.getD (Text.slice start c.position c.line)), c.bump)
      else if x = '\\' then
        match _hescaped : c.bump.ahead with
        | .char y =>
            -- The backslash is no part of the text, so that the text must be a copy from here on.
            let text := kept.getD (Text.slice start c.position c.line)
            readLiteral quote start (some (text ++ [Lexeme.unescape y])) c.bump.bump
        | _ => (none, c.bump)
      else
        readLiteral quote start (kept.map (· ++ [x])) c.bump
  | _ => (none, c)
termination_by c.rest.length
decreasing_by
  · exact Nat.lt_trans (length_bump_lt _hescaped) (length_bump_lt _hahead)
  · exact length_bump_lt _hahead

section ReadLiteral

variable {c : Cursor} {quote x y : Char} {more : List Char} (start : Nat)
  (kept : Option (List Char))

theorem readLiteral_nil (hgo : c.atEnd = false) (hrest : c.rest = []) :
    c.readLiteral quote start kept = (none, c) := by
  rw [readLiteral]
  split
  next hahead =>
    rw [ahead_of_rest_nil hgo hrest] at hahead
    cases hahead
  next => rfl

theorem readLiteral_quote (hgo : c.atEnd = false) (hrest : c.rest = quote :: more) :
    c.readLiteral quote start kept
      = (some (kept.getD (Text.slice start c.position c.line)), c.moveOver [quote] more) := by
  have hahead : c.ahead = .char quote := ahead_of_rest hgo hrest
  rw [readLiteral]
  split
  next z hz =>
    cases hahead.symm.trans hz
    rw [if_pos rfl, bump_of_rest hgo hrest]
  next hnone => exact absurd hahead (hnone quote)

theorem readLiteral_plain (hquote : x ≠ quote) (hplain : x ≠ '\\') (hgo : c.atEnd = false)
    (hrest : c.rest = x :: more) :
    c.readLiteral quote start kept
      = (c.moveOver [x] more).readLiteral quote start (kept.map (· ++ [x])) := by
  have hahead : c.ahead = .char x := ahead_of_rest hgo hrest
  rw [readLiteral]
  split
  next z hz =>
    cases hahead.symm.trans hz
    rw [if_neg hquote, if_neg hplain, bump_of_rest hgo hrest]
  next hnone => exact absurd hahead (hnone x)

theorem readLiteral_lone (hquote : quote ≠ '\\') (hgo : c.atEnd = false) (hrest : c.rest = ['\\']) :
    c.readLiteral quote start kept = (none, c.moveOver ['\\'] []) := by
  have hahead : c.ahead = .char '\\' := ahead_of_rest hgo hrest
  rw [readLiteral]
  split
  next z hz =>
    cases hahead.symm.trans hz
    rw [if_neg hquote.symm, if_pos rfl, bump_of_rest hgo hrest]
    -- Behind the backslash the line ends.
    have hend : (c.moveOver ['\\'] []).ahead = .endOfLine := ahead_of_rest_nil hgo rfl
    split
    next w hw => cases hend.symm.trans hw
    next => rfl
  next hnone => exact absurd hahead (hnone '\\')

theorem readLiteral_escaped (hquote : quote ≠ '\\') (hgo : c.atEnd = false)
    (hrest : c.rest = '\\' :: y :: more) :
    c.readLiteral quote start kept
      = (c.moveOver ['\\', y] more).readLiteral quote start
          (some (kept.getD (Text.slice start c.position c.line) ++ [Lexeme.unescape y])) := by
  have hahead : c.ahead = .char '\\' := ahead_of_rest hgo hrest
  have hescaped : (c.moveOver ['\\'] (y :: more)).ahead = .char y := ahead_of_rest hgo rfl
  rw [readLiteral]
  split
  next z hz =>
    cases hahead.symm.trans hz
    rw [if_neg hquote.symm, if_pos rfl, bump_of_rest hgo hrest]
    split
    next w hw =>
      cases hescaped.symm.trans hw
      rw [bump_of_rest (c := c.moveOver ['\\'] (y :: more)) hgo rfl, moveOver_moveOver]
      rfl
    next hnone => exact absurd hescaped (hnone y)
  next hnone => exact absurd hahead (hnone '\\')

end ReadLiteral

/-- From every place behind the opening quote the reader finds what is found in the characters ahead, and
puts the text so far in front of it. -/
theorem readLiteral_eq {c : Cursor} {quote : Char} {lead since : List Char} (hquote : quote ≠ '\\')
    (hgo : c.atEnd = false) (h : c.Stands (lead ++ since)) (kept : Option (List Char)) :
    c.readLiteral quote (Text.byteSize lead) kept
      = ((Lexeme.literal quote c.rest).text?.map (kept.getD since ++ ·),
          c.moveOver (Lexeme.literal quote c.rest).taken (Lexeme.literal quote c.rest).rest) := by
  generalize hrest : c.rest = cs
  -- Each arm reads one character, or two, and keeps the cursor standing behind all that was read since
  -- the quote. This is what makes the part of the line the text so far.
  fun_induction Lexeme.literal quote cs generalizing c since kept with
  | case1 =>
      rw [readLiteral_nil _ _ hgo hrest, moveOver_nil hrest]
      rfl
  | case2 => exact readLiteral_lone _ _ hquote hgo hrest
  | case3 y cs ih =>
      have hlater : (c.moveOver ['\\', y] cs).Stands (lead ++ (since ++ ['\\', y])) := by
        rw [← List.append_assoc]
        exact h.moveOver hrest
      rw [readLiteral_escaped _ _ hquote hgo hrest, h.slice, ih (c := c.moveOver _ cs) hgo hlater _ rfl, moveOver_moveOver]
      simp [Lexeme.Literal.push, Function.comp_def]
  | case4 cs _ _ =>
      rw [readLiteral_quote _ _ hgo hrest, h.slice]
      simp
  | case5 x cs hlone hescape hx ih =>
      have hplain : x ≠ '\\' := Lexeme.ne_backslash_of_arms hlone hescape
      have hlater : (c.moveOver [x] cs).Stands (lead ++ (since ++ [x])) := by
        rw [← List.append_assoc]
        exact h.moveOver hrest
      rw [readLiteral_plain _ _ hx hplain hgo hrest, ih (c := c.moveOver _ cs) hgo hlater _ rfl, moveOver_moveOver]
      cases kept <;> simp [Lexeme.Literal.push, Function.comp_def]

end Cursor

/-! ## Strings in a line -/

namespace Lexeme

/-- The line ends within a string, where `cs` stands behind the opening quote: no quote closes it, and
the last character may be a backslash that stands before nothing. -/
inductive Cut (quote : Char) : List Char → Prop where
  | open {body text : List Char} (h : Body quote body text) : Cut quote body
  | backslash {body text : List Char} (h : Body quote body text) : Cut quote (body ++ ['\\'])

variable {quote : Char} {cs : List Char}

theorem Cut.plain {c : Char} (hquote : c ≠ quote) (hplain : c ≠ '\\') (h : Cut quote cs) :
    Cut quote (c :: cs) := by
  cases h with
  | «open» hbody => exact .open (.plain hquote hplain hbody)
  | backslash hbody => exact .backslash (.plain hquote hplain hbody)

theorem Cut.escaped {c : Char} (h : Cut quote cs) : Cut quote ('\\' :: c :: cs) := by
  cases h with
  | «open» hbody => exact .open (.escaped hbody)
  | backslash hbody => exact .backslash (.escaped hbody)

/-- What has been read of a string stands in front of what is found behind it. -/
theorem literal_append {front soFar : List Char} (h : Body quote front soFar) (ahead : List Char) :
    literal quote (front ++ ahead)
      = ⟨(literal quote ahead).text?.map (soFar ++ ·), front ++ (literal quote ahead).taken,
          (literal quote ahead).rest⟩ := by
  induction h with
  | nil => simp
  | plain hquote hplain _ ih =>
      rw [List.cons_append, literal_cons hplain, if_neg hquote, ih]
      simp [Literal.push, Function.comp_def]
  | escaped _ ih =>
      rw [List.cons_append, List.cons_append, literal, ih]
      simp [Literal.push, Function.comp_def]

theorem literal_of_cut (h : Cut quote cs) : literal quote cs = ⟨none, cs, []⟩ := by
  cases h with
  | «open» hbody =>
      have hliteral := literal_append hbody []
      rwa [List.append_nil, literal, List.append_nil] at hliteral
  | backslash hbody =>
      have hliteral := literal_append hbody ['\\']
      rwa [literal] at hliteral

theorem cut_of_literal (h : (literal quote cs).text? = none) : Cut quote cs := by
  fun_induction literal quote cs with
  | case1 => exact .open .nil
  | case2 => exact .backslash .nil
  | case3 c cs ih => exact .escaped (ih (Option.map_eq_none_iff.mp h))
  | case4 => cases h
  | case5 c cs hlone hescape hquote ih =>
      exact .plain hquote (ne_backslash_of_arms hlone hescape) (ih (Option.map_eq_none_iff.mp h))

/-- A string is closed in its line, or the line ends within it. -/
theorem closed_or_cut (quote : Char) (cs : List Char) :
    (∃ body text later, cs = body ++ quote :: later ∧ Body quote body text) ∨ Cut quote cs := by
  cases htext : (literal quote cs).text? with
  | none => exact .inr (cut_of_literal htext)
  | some text =>
      rcases body_of_literal htext with ⟨body, htaken, hbody⟩
      have hall := literal_taken_append_rest quote cs
      rw [htaken, List.append_assoc, List.singleton_append] at hall
      exact .inl ⟨body, text, _, hall.symm, hbody⟩

end Lexeme

/-- It makes no difference whether the text is still a part of the line or has been copied: from every
place within the string the reader goes on as with a copy of the text so far. -/
theorem Cursor.readLiteral_copied {c : Cursor} {quote : Char} {lead front soFar ahead : List Char}
    (hquote : quote ≠ '\\') (hgo : c.atEnd = false) (h : c.Stands lead)
    (hrest : c.rest = front ++ ahead) (hbody : Lexeme.Body quote front soFar) :
    c.readLiteral quote c.position none
      = (c.moveOver front ahead).readLiteral quote c.position (some soFar) := by
  have hhere : c.Stands (lead ++ []) := by rwa [List.append_nil]
  have hthere : (c.moveOver front ahead).Stands (lead ++ front) := h.moveOver hrest
  rw [h.position, readLiteral_eq hquote hgo hhere none,
    readLiteral_eq (c := c.moveOver front ahead) hquote hgo hthere (some soFar), hrest,
    Lexeme.literal_append hbody, moveOver_moveOver]
  simp [moveOver, Function.comp_def]

/-! ## Strings of a lexer -/

namespace Lexer

variable {l : Lexer} {quote : Char} {before cs : List Char}

/-! ### Every lexer stands in its line -/

theorem exists_stands_scanHere (h : l.cursor.Stands before) :
    ∃ before, l.scanHere.2.cursor.Stands before := by
  unfold scanHere
  split
  next x more hrest =>
    have hread : l.cursor.rest = (Lexeme.read x more).taken ++ (Lexeme.read x more).rest := by
      rw [hrest, Lexeme.taken_append_rest]
    exact ⟨_, h.moveOver hread⟩
  next =>
    split
    next => exact ⟨before, h⟩
    next => exact h.advance

theorem exists_stands_scan (h : l.cursor.Stands before) :
    ∃ before, l.scan.2.cursor.Stands before := by
  unfold scan
  split
  next => exact ⟨before, h⟩
  next =>
    split
    next => exact ⟨before, h⟩
    next => exact exists_stands_scanHere (l := { l with cursor := l.cursor.skipBlanks }) h.skipBlanks

theorem exists_stands_next (h : l.cursor.Stands before) :
    ∃ before, l.next.2.cursor.Stands before := by
  unfold next
  split
  next => exact exists_stands_scan h
  next =>
    rcases h.advance with ⟨before', hadvance⟩
    split
    next c hc =>
      rw [hc] at hadvance
      exact exists_stands_scan (l := { l with cursor := c, started := true }) hadvance
    next e c hc =>
      rw [hc] at hadvance
      exact ⟨before', hadvance⟩

/-- After every number of calls the lexer of a text stands in one of its lines. -/
theorem exists_stands_iterate (text : List Char) (n : Nat) :
    ∃ before, ((fun l : Lexer => l.next.2)^[n] (ofText text)).cursor.Stands before := by
  induction n with
  | zero => exact ⟨[], rfl, rfl⟩
  | succ n ih =>
      rcases ih with ⟨before, h⟩
      rw [Function.iterate_succ_apply']
      exact exists_stands_next h

/-! ### One string -/

/-- The token or the error of a string, where the cursor stands at its opening quote. -/
def readString (l : Lexer) (quote : Char) : Except LexError Token × Lexer :=
  match l.cursor.bump.readLiteral quote l.cursor.bump.position none with
  | (some text, c) => (.ok ⟨.string (String.ofList text), l.cursor.place⟩, { l with cursor := c })
  | (none, c) => (.error (.unterminatedString l.cursor.place), { l with cursor := c })

/-- Behind the opening quote nothing has been copied yet. -/
theorem readLiteral_opened (hquote : Lexeme.isQuote quote = true) (hstands : l.cursor.Stands before)
    (hgo : l.cursor.atEnd = false) (hrest : l.cursor.rest = quote :: cs) :
    l.cursor.bump.readLiteral quote l.cursor.bump.position none
      = ((Lexeme.literal quote cs).text?,
          l.cursor.moveOver (quote :: (Lexeme.literal quote cs).taken)
            (Lexeme.literal quote cs).rest) := by
  have hopened : (l.cursor.moveOver [quote] cs).Stands (before ++ [quote]) := hstands.moveOver hrest
  have hnothing : (l.cursor.moveOver [quote] cs).Stands (before ++ [quote] ++ []) := by
    rwa [List.append_nil]
  rw [Cursor.bump_of_rest hgo hrest, hopened.position,
    Cursor.readLiteral_eq (c := l.cursor.moveOver [quote] cs)
      (Lexeme.ne_backslash_of_isQuote hquote) hgo hnothing none,
    Cursor.moveOver_moveOver]
  simp [Cursor.moveOver]

theorem scanHere_eq_readString (hquote : Lexeme.isQuote quote = true)
    (hstands : l.cursor.Stands before) (hgo : l.cursor.atEnd = false)
    (hrest : l.cursor.rest = quote :: cs) : l.scanHere = l.readString quote := by
  unfold scanHere
  rw [readString, readLiteral_opened hquote hstands hgo hrest, hrest]
  simp only [Lexeme.read_quote hquote, Lexeme.string, tokenAt]
  -- Both make the same token of a text, and the same error of none.
  cases (Lexeme.literal quote cs).text? <;> rfl

theorem readString_of_body {body text later : List Char} (hquote : Lexeme.isQuote quote = true)
    (hstands : l.cursor.Stands before) (hgo : l.cursor.atEnd = false)
    (hrest : l.cursor.rest = quote :: (body ++ quote :: later))
    (hbody : Lexeme.Body quote body text) :
    l.readString quote
      = (.ok ⟨.string (String.ofList text), l.cursor.place⟩,
          { l with cursor := l.cursor.moveOver (quote :: body ++ [quote]) later }) := by
  have hliteral := Lexeme.literal_of_body hbody (Lexeme.ne_backslash_of_isQuote hquote) later
  rw [readString, readLiteral_opened hquote hstands hgo hrest, hliteral]
  rfl

theorem readString_of_cut (hquote : Lexeme.isQuote quote = true)
    (hstands : l.cursor.Stands before) (hgo : l.cursor.atEnd = false)
    (hrest : l.cursor.rest = quote :: cs) (hcut : Lexeme.Cut quote cs) :
    l.readString quote
      = (.error (.unterminatedString l.cursor.place),
          { l with cursor := l.cursor.moveOver (quote :: cs) [] }) := by
  rw [readString, readLiteral_opened hquote hstands hgo hrest, Lexeme.literal_of_cut hcut]

end Lexer

/-! ## A string as a whole text -/

/-- The cursor at the start of the only line of a text. -/
def Cursor.atLine (line : List Char) : Cursor where
  pending := []
  line := line
  rest := line
  position := 0
  lineNumber := 1
  leadingSpaces := 0
  atEnd := false

theorem Cursor.advance_ofText {c : Char} {cs : List Char} (hline : Text.IsLine (c :: cs))
    (hblank : Text.isBlank c = false) :
    (ofText (c :: cs ++ ['\n'])).advance = (.ok (), atLine (c :: cs)) := by
  have hlines : Text.lines (c :: cs ++ ['\n']) = [c :: cs] := hline.lines_append []
  have hspace : ¬(fun x => decide (x = ' ')) c = true := by
    intro hc
    rw [of_decide_eq_true hc] at hblank
    cases hblank
  have hnone : (c :: cs).takeWhile (fun x => decide (x = ' ')) = [] :=
    List.takeWhile_cons_of_neg hspace
  have hall : (c :: cs).dropWhile (fun x => decide (x = ' ')) = c :: cs :=
    List.dropWhile_cons_of_neg hspace
  rw [ofText, hlines, advance, advanceThrough]
  simp only [List.all_cons, hblank, Bool.false_and, Bool.false_eq_true, if_false, load, hnone, hall]
  rfl

/-- Where nothing blank is ahead, nothing is skipped. -/
theorem Cursor.skipBlanks_of_rest {c : Cursor} (h : c.rest.takeWhile Text.isBlank = []) :
    c.skipBlanks = c := by
  have hall : c.rest.dropWhile Text.isBlank = c.rest := by
    calc c.rest.dropWhile Text.isBlank
        = c.rest.takeWhile Text.isBlank ++ c.rest.dropWhile Text.isBlank := by
          rw [h, List.nil_append]
      _ = c.rest := List.takeWhile_append_dropWhile
  rw [skipBlanks, h, hall]
  rfl

/-- Where no block opens or closes and nothing blank is ahead, a call scans what stands there. -/
theorem Lexer.next_eq_scanHere {c : Cursor} (hspaces : c.leadingSpaces = 0)
    (h : c.rest.takeWhile Text.isBlank = []) :
    (Lexer.mk c 0 true).next = (Lexer.mk c 0 true).scanHere := by
  have hlevel : c.level = 0 := by rw [Cursor.level, hspaces]
  simp only [next, scan, scanLine, hlevel, Cursor.skipBlanks_of_rest h, Nat.lt_irrefl, if_true,
    if_false]

/-- The first call for a line that is one string. -/
theorem Lexer.next_quoted {quote : Char} (hquote : Lexeme.isQuote quote = true)
    {text body : List Char} (hbody : Lexeme.Body quote body text) :
    (Lexer.mk (.atLine (quote :: body ++ [quote])) 0 true).next
      = (.ok ⟨.string (String.ofList text), ⟨1, 1⟩⟩,
          ⟨(Cursor.atLine (quote :: body ++ [quote])).moveOver (quote :: body ++ [quote]) [], 0,
            true⟩) := by
  have hstands : (Cursor.atLine (quote :: body ++ [quote])).Stands [] := ⟨rfl, rfl⟩
  have hblank : ¬Text.isBlank quote = true := by
    rw [Lexeme.isBlank_eq_false_of_isQuote hquote]
    exact Bool.false_ne_true
  have hhead : (quote :: body ++ [quote]).takeWhile Text.isBlank = [] :=
    List.takeWhile_cons_of_neg hblank
  rw [next_eq_scanHere rfl hhead, scanHere_eq_readString hquote hstands rfl rfl,
    readString_of_body hquote hstands rfl rfl hbody]
  rfl

theorem tokenize_quoted {quote : Char} (hquote : Lexeme.isQuote quote = true) (text : List Char) :
    tokenize (String.ofList (quote :: text.flatMap (Written.escape quote) ++ [quote, '\n']))
      = .ok [⟨.string (String.ofList text), ⟨1, 1⟩⟩,
          ⟨.newline,
            ⟨1, Text.byteSize (quote :: text.flatMap (Written.escape quote) ++ [quote]) + 1⟩⟩,
          ⟨.endOfInput, ⟨1, 1⟩⟩] := by
  have hisLine := Written.isLine_lexeme (.string quote hquote text)
  have hbody := Written.body_of_text hquote text
  rw [Written.lexeme] at hisLine
  generalize text.flatMap (Written.escape quote) = body at hisLine hbody ⊢
  -- The cursors at the string, at the end of its line and at the end of the text.
  let start : Cursor := .atLine (quote :: body ++ [quote])
  let behind : Cursor := start.moveOver (quote :: body ++ [quote]) []
  have hloaded : (Cursor.ofText (quote :: body ++ [quote, '\n'])).advance = (.ok (), start) := by
    have hsplit : quote :: body ++ [quote, '\n'] = quote :: (body ++ [quote]) ++ ['\n'] := by simp
    rw [hsplit]
    exact Cursor.advance_ofText hisLine (Lexeme.isBlank_eq_false_of_isQuote hquote)
  have hstring : (Lexer.mk start 0 true).next
      = (.ok ⟨.string (String.ofList text), ⟨1, 1⟩⟩, ⟨behind, 0, true⟩) :=
    Lexer.next_quoted hquote hbody
  have hfeed : (Lexer.mk behind 0 true).next
      = (.ok ⟨.newline, ⟨1, Text.byteSize (quote :: body ++ [quote]) + 1⟩⟩,
          ⟨behind.finish, 0, true⟩) := by
    have hplace : behind.place = ⟨1, Text.byteSize (quote :: body ++ [quote]) + 1⟩ := by
      simp [behind, start, Cursor.place, Cursor.moveOver, Cursor.atLine]
    rw [Lexer.next_eq_scanHere rfl rfl, ← hplace]
    rfl
  have hend : (Lexer.mk behind.finish 0 true).next
      = (.ok ⟨.endOfInput, ⟨1, 1⟩⟩, ⟨behind.finish, 0, true⟩) := by
    rw [Lexer.next_eq_scanHere rfl rfl]
    rfl
  have hmore : Kind.string (String.ofList text) ≠ .endOfInput := by
    intro hkind
    cases hkind
  have hlast : Kind.newline ≠ .endOfInput := by decide
  rw [tokenize_eq_ok_iff, String.toList_ofList, Stream.ofText, Lexer.answers_ofText hloaded,
    Lexer.answers_of_token hstring hmore, Lexer.answers_of_token hfeed hlast,
    Lexer.answers_of_end hend rfl]
  rfl

/-! ## What strings are -/

/-- What the lexer makes of a string whose opening quote stands at the cursor, with `cs` behind it. -/
structure Lexer.ReadsString (l : Lexer) (quote : Char) (cs : List Char) : Prop where
  /-- The lexer reads the string as the reader by bytes does. -/
  scans : l.scanHere = l.readString quote
  /-- The first quote that is not escaped closes the string, and the cursor stands just behind it. -/
  closed : ∀ body text later, cs = body ++ quote :: later → Lexeme.Body quote body text →
    l.readString quote
      = (.ok ⟨.string (String.ofList text), l.cursor.place⟩,
          { l with cursor := l.cursor.moveOver (quote :: body ++ [quote]) later })
  /-- A line that ends first, behind a backslash too, is an error at the opening quote. -/
  cut : Lexeme.Cut quote cs → l.readString quote
    = (.error (.unterminatedString l.cursor.place),
        { l with cursor := l.cursor.moveOver (quote :: cs) [] })
  /-- There is no third case. -/
  closedOrCut : (∃ body text later, cs = body ++ quote :: later ∧ Lexeme.Body quote body text)
    ∨ Lexeme.Cut quote cs
  /-- Wherever the reader starts to keep a copy, it comes to the same result. -/
  copied : ∀ front ahead soFar, cs = front ++ ahead → Lexeme.Body quote front soFar →
    l.cursor.bump.readLiteral quote l.cursor.bump.position none
      = (l.cursor.bump.moveOver front ahead).readLiteral quote l.cursor.bump.position (some soFar)
  /-- A text that is written with escapes is read back. -/
  escaped : ∀ text later, cs = text.flatMap (Written.escape quote) ++ quote :: later →
    l.scanHere
      = (.ok ⟨.string (String.ofList text), l.cursor.place⟩,
          { l with
            cursor := l.cursor.moveOver (quote :: text.flatMap (Written.escape quote) ++ [quote])
              later })

/-- The lexer reads strings as they are defined, and each text can be written as one. That the cursor
stands in its line is true of every lexer that has been called (`exists_stands_iterate`). -/
theorem scanHere_string {quote : Char} (hquote : Lexeme.isQuote quote = true) :
    (∀ (l : Lexer) (before cs : List Char), l.cursor.Stands before → l.cursor.atEnd = false →
        l.cursor.rest = quote :: cs → l.ReadsString quote cs)
      ∧ ∀ text : List Char,
          tokenize (String.ofList (quote :: text.flatMap (Written.escape quote) ++ [quote, '\n']))
            = .ok [⟨.string (String.ofList text), ⟨1, 1⟩⟩,
                ⟨.newline,
                  ⟨1, Text.byteSize (quote :: text.flatMap (Written.escape quote) ++ [quote]) + 1⟩⟩,
                ⟨.endOfInput, ⟨1, 1⟩⟩] := by
  refine ⟨fun l before cs hstands hgo hrest => ?_, tokenize_quoted hquote⟩
  have hscans : l.scanHere = l.readString quote :=
    Lexer.scanHere_eq_readString hquote hstands hgo hrest
  have hclosed : ∀ body text later, cs = body ++ quote :: later → Lexeme.Body quote body text →
      l.readString quote
        = (.ok ⟨.string (String.ofList text), l.cursor.place⟩,
            { l with cursor := l.cursor.moveOver (quote :: body ++ [quote]) later }) := by
    rintro body text later rfl hbody
    exact Lexer.readString_of_body hquote hstands hgo hrest hbody
  refine ⟨hscans, hclosed, ?_, Lexeme.closed_or_cut quote cs, ?_, ?_⟩
  · exact Lexer.readString_of_cut hquote hstands hgo hrest
  · intro front ahead soFar hsplit hbody
    have hopened : (l.cursor.moveOver [quote] cs).Stands (before ++ [quote]) :=
      hstands.moveOver hrest
    rw [Cursor.bump_of_rest hgo hrest]
    exact Cursor.readLiteral_copied (c := l.cursor.moveOver [quote] cs)
      (Lexeme.ne_backslash_of_isQuote hquote) hgo hopened hsplit hbody
  · intro text later hsplit
    rw [hscans]
    -- What is written for a text is a string that stands for it, as any other.
    exact hclosed _ text later hsplit (Written.body_of_text hquote text)

/-- Both quotes, both kinds of escapes and a character of two bytes, with more of the line behind. -/
theorem scanHere_string_of_escapes :
    let body := ['é', '\\', 't', '\x22', '\\', '\x27']
    let l : Lexer := ⟨.atLine ('\x27' :: body ++ ['\x27', '+']), 0, true⟩
    Lexeme.isQuote '\x27' = true ∧ l.cursor.Stands [] ∧ l.cursor.atEnd = false
      ∧ l.scanHere
        = (.ok ⟨.string "é\t\x22'", ⟨1, 1⟩⟩,
            { l with cursor := l.cursor.moveOver ('\x27' :: body ++ ['\x27']) ['+'] }) := by
  intro body l
  have hquote : Lexeme.isQuote '\x27' = true := rfl
  have hstands : l.cursor.Stands [] := ⟨rfl, rfl⟩
  have hbody : Lexeme.Body '\x27' body ['é', '\t', '\x22', '\x27'] :=
    .plain (by decide) (by decide) (.escaped (.plain (by decide) (by decide) (.escaped .nil)))
  have hstring := (scanHere_string hquote).1 l [] _ hstands rfl rfl
  refine ⟨hquote, hstands, rfl, ?_⟩
  calc l.scanHere
      = l.readString '\x27' := hstring.scans
    _ = _ := hstring.closed body _ ['+'] rfl hbody

end Offside
