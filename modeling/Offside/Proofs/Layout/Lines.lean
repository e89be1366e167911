import Offside.Text.Blank
import Offside.Token.Lexeme

/-!
# Lines — what the layout of a text gives

This file defines the tokens that the lines of a text have to give, independently of the lexer:

* `Line` is a line with content, and `contentLines` are those of a text;
* `Reads text ks`: the kinds `ks` are read from a piece of a line, up to its end;
* `Layout depth lines tokens`: the tokens that `lines` give where `depth` blocks are open before them.

Blank lines have no part in it.  That the lexer gives these tokens is shown in
`Offside.Proofs.Layout.Run`.
-/

namespace Offside

/-- A token that neither ends a line nor opens or closes a block nor ends the text. -/
def Kind.isContent : Kind → Bool
  | .newline | .indent | .dedent | .endOfInput => false
  | .identifier _ | .integer _ | .string _ | .keyword _ | .punct _ => true

theorem Kind.ne_of_isContent {k k' : Kind} (h : k.isContent = true) (h' : k'.isContent = false) :
    k ≠ k' := by
  rintro rfl
  rw [h] at h'
  cases h'

namespace Layout

/-! ## Lines with content -/

/-- A line of which some character is not blank. -/
structure Line where
  number : Nat
  /-- The number of leading spaces. -/
  spaces : Nat
  /-- The line without them. -/
  text : List Char
  hasContent : text.all Text.isBlank = false

/-- Two leading spaces a level. -/
def Line.level (line : Line) : Nat :=
  line.spaces / 2

theorem all_dropWhile_spaces (raw : List Char) :
    (raw.dropWhile (· = ' ')).all Text.isBlank = raw.all Text.isBlank := by
  induction raw with
  | nil => rfl
  | cons c cs ih =>
      by_cases hc : c = ' '
      · subst hc
        simpa [Text.isBlank] using ih
      · simp [hc]

/-- A line as it stands in the text, if it has content. -/
def Line.ofRaw? (number : Nat) (raw : List Char) : Option Line :=
  if h : raw.all Text.isBlank = false then
    some ⟨number, (raw.takeWhile (· = ' ')).length, raw.dropWhile (· = ' '),
      (all_dropWhile_spaces raw).trans h⟩
  else
    none

/-- The lines with content among the lines after the first `n`. -/
def contentLinesFrom (n : Nat) : List (List Char) → List Line
  | [] => []
  | raw :: later =>
      match Line.ofRaw? (n + 1) raw with
      | some line => line :: contentLinesFrom (n + 1) later
      | none => contentLinesFrom (n + 1) later

/-- The lines with content of a text, in order. -/
def contentLines (text : List Char) : List Line :=
  contentLinesFrom 0 (Text.lines text)

/-! ## Tokens of a line -/

/-- The kinds of the tokens of a piece of a line, up to its end. -/
inductive Reads : List Char → List Kind → Prop where
  | done {text : List Char} (h : text.all Text.isBlank = true) : Reads text []
  | token {text more : List Char} {c : Char} {k : Kind} {ks : List Kind}
      (hhead : text.dropWhile Text.isBlank = c :: more)
      (hread : (Lexeme.read c more).reading = .ok k)
      (hlater : Reads (Lexeme.read c more).rest ks) : Reads text (k :: ks)

/-- The blocks that open or close before a line of the given level. -/
def shift (depth level : Nat) : List Kind :=
  List.replicate (level - depth) .indent ++ List.replicate (depth - level) .dedent

/-- The tokens of a line, in the order in which they stand. -/
structure LineTokens where
  shift : List Token
  content : List Token
  newline : Token

def LineTokens.all (ts : LineTokens) : List Token :=
  ts.shift ++ ts.content ++ [ts.newline]

/-- The tokens that a line of the given number and level has from `text` on, where `depth` blocks are
open. -/
structure LineTokens.Fit (ts : LineTokens) (depth number level : Nat) (text : List Char) :
    Prop where
  shift_kinds : ts.shift.map (·.kind) = Layout.shift depth level
  content_kinds : Reads text (ts.content.map (·.kind))
  isContent : ∀ t ∈ ts.content, t.kind.isContent = true
  newline_kind : ts.newline.kind = .newline
  line_eq : ∀ t ∈ ts.all, t.place.line = number

end Layout

/-! ## Layout of a text -/

/-- The tokens of lines with content, where `depth` blocks are open before them. -/
inductive Layout : Nat → List Layout.Line → List Token → Prop where
  /-- The end of the text closes all blocks. -/
  | finish {depth : Nat} {closing : List Token} {last : Token}
      (hclosing : closing.map (·.kind) = List.replicate depth .dedent)
      (hlast : last.kind = .endOfInput) : Layout depth [] (closing ++ [last])
  | line {depth : Nat} {line : Layout.Line} {lines : List Layout.Line} {ts : Layout.LineTokens}
      {later : List Token} (heven : line.spaces % 2 = 0)
      (htokens : ts.Fit depth line.number line.level line.text) (hcontent : ts.content ≠ [])
      (hlater : Layout line.level lines later) : Layout depth (line :: lines) (ts.all ++ later)

namespace Layout

/-! ## Reading a line -/

/-- A reading from the characters of a line is content. -/
theorem isContent_of_reading {c : Char} {cs : List Char} {k : Kind}
    (h : (Lexeme.read c cs).reading = .ok k) : k.isContent = true := by
  unfold Lexeme.read at h
  split at h
  · simp only [Lexeme.integer] at h
    split at h
    · cases h
      rfl
    · cases h
  split at h
  · unfold Lexeme.word Kind.ofWord at h
    split at h
    · cases h
      rfl
    · cases h
      rfl
  split at h
  · simp only [Lexeme.string] at h
    split at h
    · cases h
      rfl
    · cases h
  · unfold Lexeme.punct at h
    split at h
    · cases h
      rfl
    · split at h
      · cases h
        rfl
      · cases h

theorem Reads.ne_nil {text : List Char} {ks : List Kind} (h : Reads text ks)
    (hcontent : text.all Text.isBlank = false) : ks ≠ [] := by
  cases h with
  | done hblank =>
      rw [hcontent] at hblank
      cases hblank
  | token => nofun

/-- The level of the current line is reached step by step. -/
theorem shift_of_lt {depth level : Nat} (h : depth < level) :
    shift depth level = .indent :: shift (depth + 1) level := by
  have hindents : level - depth = level - (depth + 1) + 1 := by omega
  have hdedents : depth - level = depth + 1 - level := by omega
  rw [shift, shift, hindents, hdedents, List.replicate_succ, List.cons_append]

theorem shift_of_gt {depth level : Nat} (h : level < depth) :
    shift depth level = .dedent :: shift (depth - 1) level := by
  have hindents : level - depth = 0 := by omega
  have hindents' : level - (depth - 1) = 0 := by omega
  have hdedents : depth - level = depth - 1 - level + 1 := by omega
  rw [shift, shift, hindents, hindents', hdedents, List.replicate_succ, List.replicate_zero,
    List.nil_append, List.nil_append]

theorem shift_self (depth : Nat) : shift depth depth = [] := by
  rw [shift, Nat.sub_self]
  rfl

namespace LineTokens.Fit

variable {ts : LineTokens} {depth number level : Nat} {text : List Char} {token : Token}

theorem cons_shift {depth' : Nat} (h : ts.Fit depth' number level text)
    (hshift : Layout.shift depth level = token.kind :: Layout.shift depth' level)
    (hline : token.place.line = number) :
    { ts with shift := token :: ts.shift : LineTokens }.Fit depth number level text where
  shift_kinds := by rw [List.map_cons, h.shift_kinds, hshift]
  content_kinds := h.content_kinds
  isContent := h.isContent
  newline_kind := h.newline_kind
  line_eq := List.forall_mem_cons.mpr ⟨hline, h.line_eq⟩

/-- On the level of the line, tokens come in front of the content. -/
theorem shift_eq_nil (h : ts.Fit level number level text) : ts.shift = [] := by
  have hkinds := h.shift_kinds
  rw [shift_self] at hkinds
  exact List.map_eq_nil_iff.mp hkinds

theorem cons_content {c : Char} {more : List Char}
    (h : ts.Fit level number level (Lexeme.read c more).rest)
    (hhead : text.dropWhile Text.isBlank = c :: more)
    (hread : (Lexeme.read c more).reading = .ok token.kind) (hline : token.place.line = number) :
    { ts with content := token :: ts.content : LineTokens }.Fit level number level text where
  shift_kinds := h.shift_kinds
  content_kinds := .token hhead hread h.content_kinds
  isContent := List.forall_mem_cons.mpr ⟨isContent_of_reading hread, h.isContent⟩
  newline_kind := h.newline_kind
  line_eq := by
    have hlater := h.line_eq
    rw [LineTokens.all, h.shift_eq_nil] at hlater
    rw [LineTokens.all, h.shift_eq_nil]
    exact List.forall_mem_cons.mpr ⟨hline, hlater⟩

/-- Where only blanks remain, the line ends. -/
theorem newline_only (hkind : token.kind = .newline) (hline : token.place.line = number)
    (hblank : text.all Text.isBlank = true) :
    (LineTokens.mk [] [] token).Fit level number level text where
  shift_kinds := (shift_self level).symm
  content_kinds := .done hblank
  isContent := nofun
  newline_kind := hkind
  line_eq := List.forall_mem_singleton.mpr hline

end LineTokens.Fit

end Layout

end Offside
