import Offside.Proofs.Lexis.Literals

/-!
# Moves — where a cursor gets to by single characters and lines

A lexer moves its cursor over whole tokens.  This file moves a cursor by single characters and lines in
any order, on behind lines that cannot be loaded and behind the end, and reads its line by bytes:

- `Text.slice?`   : the part of a text between two bytes, if both stand at the start of a character
- `Cursor.peek?`  : what stands at a cursor, read from the byte at its position on
- `Cursor.Move`   : what can be asked of a cursor
- `Cursor.Keeps`  : moves that load no other line
- `Cursor.Placed` : what every move preserves
- `Cursor.Sound`  : what holds of a cursor wherever moves have led it

The main statement, `moves_sound`, says that every cursor that moves lead to is sound, and that the
cursors of the lexer are among them.
-/

namespace Offside

/-! ## Reading by bytes -/

namespace Text

/-- The part of a text between two byte positions. There is none where a position is within a character
or behind the end of the text, or where the second one stands before the first. -/
def slice? (start stop : Nat) (cs : List Char) : Option (List Char) := do
  let first ← (String.ofList cs).pos? ⟨start⟩
  let last ← (String.ofList cs).pos? ⟨stop⟩
  let part ← (String.ofList cs).slice? first last
  return part.copy.toList

theorem rawEndPos_ofList (cs : List Char) : (String.ofList cs).rawEndPos = ⟨byteSize cs⟩ := by
  have hsize := byteSize_toList (String.ofList cs)
  rw [String.toList_ofList] at hsize
  rw [hsize]
  rfl

/-- Behind each front part of a text a character starts, or the text ends. -/
theorem isValid_byteSize (before after : List Char) :
    String.Pos.Raw.IsValid (String.ofList (before ++ after)) ⟨byteSize before⟩ := by
  rw [String.Pos.Raw.isValid_iff_exists_append]
  exact ⟨_, _, String.ofList_append, (rawEndPos_ofList before).symm⟩

theorem exists_pos?_eq {cs before after : List Char} (hsplit : cs = before ++ after) :
    ∃ p, (String.ofList cs).pos? ⟨byteSize before⟩ = some p
      ∧ p.Splits (String.ofList before) (String.ofList after) := by
  subst hsplit
  have hvalid := isValid_byteSize before after
  have hslice := String.Pos.Raw.isValidForSlice_eq_true_iff.mpr hvalid.toSlice
  refine ⟨(String.ofList (before ++ after)).pos _ hvalid, ?_, ?_⟩
  · rw [String.pos?, String.Slice.pos?, dif_pos hslice]
    rfl
  · exact ⟨String.ofList_append, (rawEndPos_ofList before).symm⟩

/-- Between the ends of two front parts stands what the longer one has more. -/
theorem slice?_eq {cs before part after : List Char} (hsplit : cs = before ++ (part ++ after)) :
    slice? (byteSize before) (byteSize (before ++ part)) cs = some part := by
  have hsplit' : cs = before ++ part ++ after := by rw [hsplit, List.append_assoc]
  rcases exists_pos?_eq hsplit with ⟨first, hfirst, hbefore⟩
  rcases exists_pos?_eq hsplit' with ⟨last, hlast, hbehind⟩
  rw [String.ofList_append] at hbefore hbehind
  rcases String.copy_slice_eq_iff_splits.mpr ⟨_, _, hbefore, hbehind⟩ with ⟨hle, hcopy⟩
  simp only [slice?, hfirst, hlast, String.slice?, dif_pos hle, Option.bind_eq_bind,
    Option.bind_some, hcopy, String.toList_ofList, Option.pure_def]

end Text

namespace Cursor

/-- What stands at a cursor, by the bytes of its line from the position on. There is no answer where the
position is none of a character. -/
def peek? (c : Cursor) : Option Ahead :=
  if c.atEnd then some .endOfText
  else
    (Text.slice? c.position (Text.byteSize c.line) c.line).map fun
      | [] => .endOfLine
      | x :: _ => .char x

theorem Stands.peek?_eq {c : Cursor} {before : List Char} (h : c.Stands before) :
    c.peek? = some c.ahead := by
  have hall : c.line = before ++ (c.rest ++ []) := by rw [List.append_nil, h.line]
  have hslice := Text.slice?_eq hall
  rw [← h.line, ← h.position] at hslice
  rw [peek?, ahead, hslice]
  split
  · rfl
  · cases c.rest <;> rfl

/-! ## Moves -/

/-- What can be asked of a cursor: what stands there, to move over it, and to load the next line. -/
inductive Move where
  | peek
  | bump
  | advance
deriving DecidableEq, Repr

def move (c : Cursor) : Move → Cursor
  | .peek => c
  | .bump => c.bump
  | .advance => c.advance.2

/-- The cursor after some moves, in order. -/
def moves (c : Cursor) (ms : List Move) : Cursor :=
  ms.foldl move c

/-- On these moves the current line stays: each line that they ask for cannot be loaded, or the text has
ended. -/
def Keeps (c : Cursor) : List Move → Prop
  | [] => True
  | m :: ms => (m = .advance → c.advance.1 ≠ .ok () ∨ c.atEnd = true) ∧ (c.move m).Keeps ms

theorem moves_append (c : Cursor) (ms ms' : List Move) :
    c.moves (ms ++ ms') = (c.moves ms).moves ms' :=
  List.foldl_append

/-! ## What one move preserves -/

/-- The cursor stands in its line, and behind as many lines as it has counted. -/
structure Placed (text : List Char) (c : Cursor) : Prop where
  stands : ∃ before, c.Stands before
  even : c.leadingSpaces % 2 = 0
  counted : c.lineNumber ≤ (Text.lines text).length
  pending : c.pending = (Text.lines text).drop c.lineNumber
  ended : c.atEnd = true → c.finish = c

variable {text : List Char} {c : Cursor}

theorem placed_ofText (text : List Char) : (ofText text).Placed text :=
  ⟨⟨[], rfl, rfl⟩, rfl, Nat.zero_le _, rfl, nofun⟩

theorem bump_eq_self (h : ∀ x, c.ahead ≠ .char x) : c.bump = c := by
  unfold bump
  split
  next x _ _ hahead _ => exact absurd hahead (h x)
  next => rfl

theorem atEnd_of_ahead {x : Char} (h : c.ahead = .char x) : c.atEnd = false := by
  refine eq_false_of_ne_true fun hend => ?_
  rw [ahead, if_pos hend] at h
  cases h

/-- A bump moves over the character that stands at the cursor, or does nothing. -/
theorem bump_cases (c : Cursor) :
    (∃ x more, c.ahead = .char x ∧ c.atEnd = false ∧ c.rest = x :: more
        ∧ c.bump = c.moveOver [x] more)
      ∨ c.bump = c := by
  cases hahead : c.ahead with
  | char x =>
      rcases exists_of_ahead hahead with ⟨more, hrest, -⟩
      have hgo := atEnd_of_ahead hahead
      exact .inl ⟨x, more, rfl, hgo, hrest, bump_of_rest hgo hrest⟩
  | endOfLine => exact .inr (bump_eq_self (by simp [hahead]))
  | endOfText => exact .inr (bump_eq_self (by simp [hahead]))

namespace Advances

variable {raws : List (List Char)} {result : Except LexError Unit × Cursor}

/-- Of the cursor nothing but what is left to read and the number of lines has changed where no line
could be loaded. -/
theorem eq_of_error (h : Advances c raws result) {e : LexError} (herror : result.1 = .error e) :
    result.2
      = { c with pending := result.2.pending, lineNumber := result.2.lineNumber } := by
  induction h with
  | finish => cases herror
  | blank _ _ ih => exact ih herror
  | odd => rfl
  | load => cases herror

/-- Each line that is taken is counted. -/
theorem counted (h : Advances c raws result) (hraws : raws = (Text.lines text).drop c.lineNumber)
    (hle : c.lineNumber ≤ (Text.lines text).length) :
    result.2.pending = (Text.lines text).drop result.2.lineNumber
      ∧ result.2.lineNumber ≤ (Text.lines text).length := by
  have hnext : ∀ {n : Nat} {raw : List Char} {later : List (List Char)},
      raw :: later = (Text.lines text).drop n →
        later = (Text.lines text).drop (n + 1) ∧ n + 1 ≤ (Text.lines text).length := by
    intro n raw later hdrop
    have hlength := congrArg List.length hdrop
    rw [List.length_cons, List.length_drop] at hlength
    refine ⟨?_, by omega⟩
    rw [← List.tail_drop, ← hdrop, List.tail_cons]
  induction h with
  | finish => exact ⟨hraws, hle⟩
  | blank _ _ ih => exact ih (hnext hraws).1 (hnext hraws).2
  | odd => exact hnext hraws
  | load => exact hnext hraws

theorem ended (h : Advances c raws result) (hgo : c.atEnd = false) (hend : result.2.atEnd = true) :
    result.2.finish = result.2 := by
  have hstop : c.atEnd = true → False := by simp [hgo]
  induction h with
  | finish => rfl
  | blank _ _ ih => exact ih hgo hend hstop
  | odd => exact (hstop hend).elim
  | load => exact (hstop hend).elim

end Advances

namespace Placed

theorem advance_of_atEnd (h : c.Placed text) (hend : c.atEnd = true) : c.advance = (.ok (), c) := by
  have hnil : c.pending = [] := by
    rw [← h.ended hend]
    rfl
  rw [Cursor.advance, hnil, advanceThrough, h.ended hend]

theorem advance (h : c.Placed text) : c.advance.2.Placed text := by
  cases hend : c.atEnd with
  | true => rwa [h.advance_of_atEnd hend]
  | false =>
      rcases h.stands with ⟨before, hstands⟩
      have hadvances : Advances c c.pending c.advance := c.advances_advanceThrough c.pending
      have hcounted := hadvances.counted h.pending h.counted
      have hsettled := hadvances.settled h.even (by simp [hend])
      exact ⟨hstands.advance, hsettled.even, hcounted.2, hcounted.1, hadvances.ended hend⟩

theorem bump (h : c.Placed text) : c.bump.Placed text := by
  rcases c.bump_cases with ⟨x, more, -, hgo, hrest, hbump⟩ | hbump
  · rcases h.stands with ⟨before, hstands⟩
    have hmoved : (c.moveOver [x] more).Stands (before ++ [x]) := hstands.moveOver hrest
    have hended : c.atEnd = true → (c.moveOver [x] more).finish = c.moveOver [x] more := by
      simp [hgo]
    rw [hbump]
    exact ⟨⟨_, hmoved⟩, h.even, h.counted, h.pending, hended⟩
  · rwa [hbump]

theorem move (h : c.Placed text) (m : Move) : (c.move m).Placed text := by
  cases m with
  | peek => exact h
  | bump => exact h.bump
  | advance => exact h.advance

theorem moves (h : c.Placed text) (ms : List Move) : (c.moves ms).Placed text := by
  induction ms generalizing c with
  | nil => exact h
  | cons m ms ih => exact ih (h.move m)

end Placed

/-! ## What stays while the line stays -/

/-- A move that loads no other line reads on in the current one, or stays where it is. -/
theorem Stands.move {before : List Char} (h : c.Stands before) (hplaced : c.Placed text) {m : Move}
    (hkeeps : m = .advance → c.advance.1 ≠ .ok () ∨ c.atEnd = true) :
    (c.move m).line = c.line ∧ ∃ read, (c.move m).Stands (before ++ read) := by
  have hstay : c.Stands (before ++ []) := by rwa [List.append_nil]
  cases m with
  | peek => exact ⟨rfl, [], hstay⟩
  | bump =>
      rw [Cursor.move]
      rcases c.bump_cases with ⟨x, more, -, -, hrest, hbump⟩ | hbump
      · rw [hbump]
        exact ⟨rfl, [x], h.moveOver hrest⟩
      · rw [hbump]
        exact ⟨rfl, [], hstay⟩
  | advance =>
      rw [Cursor.move]
      rcases hkeeps rfl with hfail | hend
      · cases herror : c.advance.1 with
        | ok => exact absurd herror hfail
        | error e =>
            have hadvances : Advances c c.pending c.advance := c.advances_advanceThrough c.pending
            rw [hadvances.eq_of_error herror]
            exact ⟨rfl, [], hstay.line, hstay.position⟩
      · rw [hplaced.advance_of_atEnd hend]
        exact ⟨rfl, [], hstay⟩

theorem Stands.moves {before : List Char} (h : c.Stands before) (hplaced : c.Placed text)
    {ms : List Move} (hkeeps : c.Keeps ms) :
    (c.moves ms).line = c.line ∧ ∃ read, (c.moves ms).Stands (before ++ read) := by
  induction ms generalizing c before with
  | nil => exact ⟨rfl, [], by rwa [List.append_nil]⟩
  | cons m ms ih =>
      rcases hkeeps with ⟨hfirst, hlater⟩
      rcases h.move hplaced hfirst with ⟨hline, read, hread⟩
      rcases ih hread (hplaced.move m) hlater with ⟨hline', read', hread'⟩
      rw [List.append_assoc] at hread'
      exact ⟨hline'.trans hline, _, hread'⟩

/-- The line between two positions that were taken on it is what has been read in between. -/
theorem Placed.slice (h : c.Placed text) {ms : List Move} (hkeeps : c.Keeps ms) :
    (c.moves ms).line = c.line
      ∧ ∃ read, c.rest = read ++ (c.moves ms).rest
        ∧ Text.slice? c.position (c.moves ms).position c.line = some read := by
  rcases h.stands with ⟨before, hstands⟩
  rcases hstands.moves h hkeeps with ⟨hline, read, hlater⟩
  have hsplit : c.line = before ++ (read ++ (c.moves ms).rest) := by
    rw [← hline, hlater.line, List.append_assoc]
  refine ⟨hline, read, ?_, ?_⟩
  · exact List.append_cancel_left (hstands.line.symm.trans hsplit)
  · rw [hstands.position, hlater.position]
    exact Text.slice?_eq hsplit

/-! ## Sound cursors -/

/-- What holds of a cursor of a text wherever moves have led it. -/
structure Sound (text : List Char) (c : Cursor) : Prop where
  /-- At its position a character of the line starts, or the line ends. -/
  boundary : String.Pos.Raw.IsValid (String.ofList c.line) ⟨c.position⟩
  /-- What stands there can be read from the bytes of the line. -/
  peeks : c.peek? = some c.ahead
  /-- A position that is taken later on the same line stands behind this one, and between them stands
  what has been read since. -/
  slices : ∀ ms, c.Keeps ms → (c.moves ms).line = c.line
    ∧ ∃ read, c.rest = read ++ (c.moves ms).rest
      ∧ Text.slice? c.position (c.moves ms).position c.line = some read
  indented : c.leadingSpaces = 2 * c.level
  /-- The lines that have been taken are those that have been counted. -/
  counted : c.lineNumber ≤ (Text.lines text).length
    ∧ c.pending = (Text.lines text).drop c.lineNumber
  /-- A line that cannot be loaded is counted and dropped, and nothing else. -/
  failed : ∀ e, c.advance.1 = .error e → c.advance.2
    = { c with pending := c.advance.2.pending, lineNumber := c.advance.2.lineNumber }
  /-- A bump gives what stands at the cursor. It moves over a character and takes its bytes. -/
  bumps : ∀ x, c.ahead = .char x → c.rest = x :: c.bump.rest
    ∧ c.bump = { c with rest := c.bump.rest, position := c.position + x.utf8Size }
  /-- It does not get over the end of a line or of the text. -/
  stops : (∀ x, c.ahead ≠ .char x) → c.bump = c
  /-- At the end of the text no block is open, and every move stays there. -/
  ended : c.atEnd = true → c.ahead = .endOfText ∧ c.bump = c ∧ c.level = 0
    ∧ c.advance = (.ok (), c)

theorem Placed.sound (h : c.Placed text) : c.Sound text where
  boundary := by
    rcases h.stands with ⟨before, hstands⟩
    rw [hstands.position, hstands.line]
    exact Text.isValid_byteSize before c.rest
  peeks := by
    rcases h.stands with ⟨before, hstands⟩
    exact hstands.peek?_eq
  slices _ hkeeps := h.slice hkeeps
  indented := by
    have heven := h.even
    rw [level]
    omega
  counted := ⟨h.counted, h.pending⟩
  failed _ herror := (c.advances_advanceThrough c.pending).eq_of_error herror
  bumps x hahead := by
    rcases exists_of_ahead hahead with ⟨more, hrest, -⟩
    rw [bump_of_rest (atEnd_of_ahead hahead) hrest]
    exact ⟨hrest, rfl⟩
  stops := bump_eq_self
  ended hend := by
    have hahead : c.ahead = .endOfText := if_pos hend
    have hlevel : c.level = 0 := by
      rw [← h.ended hend]
      exact Nat.zero_div 2
    exact ⟨hahead, bump_eq_self (by simp [hahead]), hlevel, h.advance_of_atEnd hend⟩

/-! ## The moves of the lexer -/

/-- A part of the line is passed character by character. -/
theorem moveOver_eq_moves {taken rest : List Char} (hgo : c.atEnd = false)
    (hrest : c.rest = taken ++ rest) :
    c.moveOver taken rest = c.moves (List.replicate taken.length .bump) := by
  induction taken generalizing c with
  | nil =>
      rcases c with ⟨pending, line, ahead, position, lineNumber, leadingSpaces, atEnd⟩
      cases hrest
      rfl
  | cons x taken ih =>
      have hlater := ih (c := c.moveOver [x] (taken ++ rest)) hgo rfl
      rw [moveOver_moveOver] at hlater
      rw [List.length_cons, List.replicate_succ, moves, List.foldl_cons, move,
        bump_of_rest hgo hrest]
      exact hlater

theorem Placed.exists_moves_skipBlanks (h : c.Placed text) : ∃ ms, c.skipBlanks = c.moves ms := by
  cases hend : c.atEnd with
  | false => exact ⟨_, moveOver_eq_moves hend List.takeWhile_append_dropWhile.symm⟩
  | true =>
      have hnil : c.rest.takeWhile Text.isBlank = [] := by
        rw [← h.ended hend]
        rfl
      exact ⟨[], skipBlanks_of_rest hnil⟩

end Cursor

namespace Lexer

variable {text : List Char} {l : Lexer}

theorem exists_moves_scanHere (h : l.cursor.Placed text) :
    ∃ ms, l.scanHere.2.cursor = l.cursor.moves ms := by
  unfold scanHere
  split
  next x more hrest =>
    have hgo : l.cursor.atEnd = false := by
      refine eq_false_of_ne_true fun hend => ?_
      rw [← h.ended hend] at hrest
      cases hrest
    have hread : l.cursor.rest = (Lexeme.read x more).taken ++ (Lexeme.read x more).rest := by
      rw [hrest, Lexeme.taken_append_rest]
    exact ⟨_, Cursor.moveOver_eq_moves hgo hread⟩
  next =>
    split
    next => exact ⟨[], rfl⟩
    next => exact ⟨[.advance], rfl⟩

theorem exists_moves_scan (h : l.cursor.Placed text) :
    ∃ ms, l.scan.2.cursor = l.cursor.moves ms := by
  unfold scan
  split
  next => exact ⟨[], rfl⟩
  next =>
    split
    next => exact ⟨[], rfl⟩
    next =>
      rcases h.exists_moves_skipBlanks with ⟨ms, hskip⟩
      have hplaced : l.cursor.skipBlanks.Placed text := hskip ▸ h.moves ms
      rcases exists_moves_scanHere (l := { l with cursor := l.cursor.skipBlanks }) hplaced with
        ⟨ms', hscan⟩
      exact ⟨ms ++ ms', by rw [Cursor.moves_append, ← hskip]; exact hscan⟩

/-- A call of the lexer moves its cursor by characters and lines. -/
theorem exists_moves_next (h : l.cursor.Placed text) :
    ∃ ms, l.next.2.cursor = l.cursor.moves ms := by
  have hadvanced := h.advance
  unfold next
  split
  next => exact exists_moves_scan h
  next =>
    split
    next c hadvance =>
      rw [hadvance] at hadvanced
      rcases exists_moves_scan (l := { l with cursor := c, started := true }) hadvanced with
        ⟨ms, hscan⟩
      refine ⟨.advance :: ms, hscan.trans ?_⟩
      rw [Cursor.moves, Cursor.moves, List.foldl_cons, Cursor.move, hadvance]
    next e c hadvance =>
      refine ⟨[.advance], ?_⟩
      rw [Cursor.moves, List.foldl_cons, List.foldl_nil, Cursor.move, hadvance]

theorem exists_moves_iterate (text : List Char) (n : Nat) :
    ∃ ms, ((fun l : Lexer => l.next.2)^[n] (ofText text)).cursor = (Cursor.ofText text).moves ms := by
  induction n with
  | zero => exact ⟨[], rfl⟩
  | succ n ih =>
      rcases ih with ⟨ms, hreached⟩
      rw [Function.iterate_succ_apply']
      have hplaced := (Cursor.placed_ofText text).moves ms
      rw [← hreached] at hplaced
      rcases exists_moves_next hplaced with ⟨ms', hnext⟩
      exact ⟨ms ++ ms', by rw [hnext, hreached, Cursor.moves_append]⟩

end Lexer

/-- Wherever moves lead from the start of a text, in any order, the cursor is sound; and the lexer gets
nowhere else. -/
theorem moves_sound (text : List Char) :
    (∀ ms, ((Cursor.ofText text).moves ms).Sound text)
      ∧ ∀ n, ∃ ms, ((fun l : Lexer => l.next.2)^[n] (Lexer.ofText text)).cursor
        = (Cursor.ofText text).moves ms :=
  ⟨fun ms => ((Cursor.placed_ofText text).moves ms).sound, Lexer.exists_moves_iterate text⟩

/-- The second line cannot be loaded, and the first one is read on, behind a character of two bytes. A
slice that starts within that character is none. -/
example :
    let c := (Cursor.ofText "é1+\n x\n".toList).moves [.advance, .bump, .advance, .bump]
    c.position = 3 ∧ c.lineNumber = 2 ∧ c.peek? = some (.char '+')
      ∧ Text.slice? 2 c.position c.line = some ['1'] ∧ Text.slice? 1 c.position c.line = none := by
  decide +kernel

end Offside
