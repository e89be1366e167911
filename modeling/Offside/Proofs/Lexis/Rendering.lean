import Offside.Proofs.Layout.Nesting
import Offside.Proofs.Lexis.Coverage
import Mathlib.Data.List.Basic

/-!
# Rendering — texts that are written for tokens

This file writes tokens down and reads them back:

- `Written`        : a token with content, and how it is written
- `Written.Line`   : a line, by its level and its tokens
- `Written.render` : the text of lines, with one space between two tokens

The main statement, `tokenize_render`, says that the lexer accepts each such text and gives the tokens of
the lines, with the layout of their levels.
-/

namespace Offside

/-! ## Tokens -/

/-- A token as it is written in a line. -/
inductive Written where
  /-- A name that is no keyword. -/
  | name (first : Char) (later : List Char) (hstart : Lexeme.startsName first = true)
      (hlater : ∀ c ∈ later, Lexeme.continuesName c = true)
      (hword : Keyword.ofText? (String.ofList (first :: later)) = none)
  | integer (n : Nat) (hle : n ≤ Lexeme.maxInteger)
  | string (quote : Char) (hquote : Lexeme.isQuote quote = true) (text : List Char)
  | keyword (k : Keyword)
  | punct (p : Punct)

namespace Written

def kind : Written → Kind
  | name first later _ _ _ => .identifier (String.ofList (first :: later))
  | integer n _ => .integer (Int64.ofNat n)
  | string _ _ text => .string (String.ofList text)
  | keyword k => .keyword k
  | punct p => .punct p

/-- A character of a string between quotes. -/
def escape (quote c : Char) : List Char :=
  if c = '\\' ∨ c = quote then ['\\', c]
  else if c = '\n' then ['\\', 'n']
  else if c = '\t' then ['\\', 't']
  else [c]

def lexeme : Written → List Char
  | name first later _ _ _ => first :: later
  | integer n _ => Nat.toDigits 10 n
  | string quote _ text => quote :: text.flatMap (escape quote) ++ [quote]
  | keyword k => k.text.toList
  | punct p => p.text.toList

theorem body_of_text {quote : Char} (hquote : Lexeme.isQuote quote = true) (text : List Char) :
    Lexeme.Body quote (text.flatMap (escape quote)) text := by
  induction text with
  | nil => exact .nil
  | cons c cs ih =>
      rw [List.flatMap_cons, escape]
      split
      next hc =>
        -- Neither the backslash nor a quote stands for another character.
        have hself : Lexeme.unescape c = c := by
          rcases hc with rfl | rfl
          · rfl
          · rcases Lexeme.eq_of_isQuote hquote with rfl | rfl <;> rfl
        have hbody : Lexeme.Body quote _ (Lexeme.unescape c :: cs) := .escaped ih
        rwa [hself] at hbody
      next hc =>
        split
        next hnewline =>
          subst hnewline
          exact .escaped ih
        next =>
          split
          next htab =>
            subst htab
            exact .escaped ih
          next => exact .plain (fun h => hc (.inr h)) (fun h => hc (.inl h)) ih

theorem isWord_keyword (k : Keyword) :
    ∃ c cs, k.text.toList = c :: cs ∧ Lexeme.startsName c = true
      ∧ ∀ d ∈ cs, Lexeme.continuesName d = true := by
  have hword : ∃ c cs, k.text.toList = c :: cs ∧ Lexeme.startsName c = true
      ∧ cs.all Lexeme.continuesName = true := by
    cases k <;> exact ⟨_, _, rfl, rfl, rfl⟩
  rcases hword with ⟨c, cs, hcons, hstart, hlater⟩
  exact ⟨c, cs, hcons, hstart, List.all_eq_true.mp hlater⟩

theorem spells (t : Written) : Spells t.kind t.lexeme := by
  cases t with
  | name first later hstart hlater hword =>
      have hspells := Spells.word hstart hlater
      rwa [Kind.ofWord, hword] at hspells
  | integer n hle =>
      have hdecimal : Lexeme.decimal (Nat.toDigits 10 n) = n :=
        Nat.ofDigitChars_ten_toDigits
      have hdigits : ∀ d ∈ Nat.toDigits 10 n, d.isDigit = true := fun d hd =>
        Nat.isDigit_of_mem_toDigits (by decide) (by decide) hd
      rcases List.exists_cons_of_ne_nil (Nat.toDigits_ne_nil (n := n) (b := 10)) with ⟨c, cs, hcons⟩
      rw [hcons] at hdecimal hdigits
      have hspells := Spells.integer hdigits (hdecimal ▸ hle)
      rw [kind, lexeme, hcons]
      rwa [hdecimal] at hspells
  | string quote hquote text => exact .string hquote (body_of_text hquote text)
  | keyword k =>
      rcases isWord_keyword k with ⟨c, cs, hcons, hstart, hlater⟩
      have hspells := Spells.word hstart hlater
      rw [← hcons, String.ofList_toList, Kind.ofWord, Keyword.ofText?_text] at hspells
      exact hspells
  | punct p => exact .punct p

/-- A blank or the end of the line ends every token. -/
theorem maximal_of_space (t : Written) (later : List Char) :
    t.kind.Maximal [] ∧ t.kind.Maximal (' ' :: later) := by
  refine ⟨nofun, fun c hc => ?_⟩
  cases hc
  cases t with
  | punct p => cases p <;> rfl
  | _ => rfl

/-! ## Lines -/

/-- A line of tokens. -/
structure Line where
  level : Nat
  tokens : List Written
  nonempty : tokens ≠ []

/-- Tokens with one space between two of them. -/
def spaced (tokens : List Written) : List Char :=
  [' '].intercalate (tokens.map lexeme)

def Line.text (line : Line) : List Char :=
  List.replicate (2 * line.level) ' ' ++ spaced line.tokens

/-- The text of lines, each with a line feed behind it. -/
def render (lines : List Line) : String :=
  String.ofList (lines.flatMap fun line => line.text ++ ['\n'])

/-- The kinds of the tokens of lines, where `depth` blocks are open before them. -/
def kindsFrom (depth : Nat) : List Line → List Kind
  | [] => List.replicate depth .dedent ++ [.endOfInput]
  | line :: lines =>
      Layout.shift depth line.level ++ line.tokens.map kind
        ++ .newline :: kindsFrom line.level lines

theorem spaced_singleton (t : Written) : spaced [t] = t.lexeme := by
  simp [spaced]

theorem spaced_cons_cons (t u : Written) (ts : List Written) :
    spaced (t :: u :: ts) = t.lexeme ++ ' ' :: spaced (u :: ts) := by
  simp [spaced, List.intercalate]

end Written

namespace Layout.Reads

variable {text later : List Char} {k : Kind} {ks : List Kind}

theorem cons_blank {c : Char} (hc : Text.isBlank c = true) (h : Layout.Reads text ks) :
    Layout.Reads (c :: text) ks := by
  cases h with
  | done hblank => exact .done (by simp [hc, hblank])
  | token hhead hread hlater => exact .token (by rwa [List.dropWhile_cons_of_pos hc]) hread hlater

theorem of_spells {lexeme : List Char} (hspells : Spells k lexeme) (hmax : k.Maximal later)
    (h : Layout.Reads later ks) : Layout.Reads (lexeme ++ later) (k :: ks) := by
  rcases hspells.exists_cons with ⟨c, cs, rfl, hc⟩
  have hread := Lexeme.read_of_spells hspells hmax
  rw [List.cons_append]
  refine .token (c := c) (List.dropWhile_cons_of_neg (by simp [hc])) ?_ ?_
  · rw [hread]
  · rwa [hread]

end Layout.Reads

namespace Written

/-- The tokens are read from what is written for them. -/
theorem reads_spaced (tokens : List Written) :
    Layout.Reads (spaced tokens) (tokens.map kind) := by
  induction tokens with
  | nil => exact .done rfl
  | cons t ts ih =>
      cases ts with
      | nil =>
          have hreads := Layout.Reads.of_spells t.spells (t.maximal_of_space []).1 (.done rfl)
          rwa [List.append_nil, ← spaced_singleton] at hreads
      | cons u ts =>
          rw [spaced_cons_cons]
          exact .of_spells t.spells (t.maximal_of_space _).2 (.cons_blank rfl ih)

end Written

/-! ## Lines of a text -/

namespace Text

/-- A line feed behind the characters ends a line of exactly these. -/
structure IsLine (cs : List Char) : Prop where
  noFeed : '\n' ∉ cs
  noReturn : cs.getLast? ≠ some '\r'

namespace IsLine

variable {c : Char} {cs ds : List Char}

theorem append (hcs : '\n' ∉ cs) (h : IsLine (c :: ds)) : IsLine (cs ++ c :: ds) where
  noFeed := fun hmem => (List.mem_append.mp hmem).elim hcs h.noFeed
  noReturn := by
    rw [List.getLast?_append_cons]
    exact h.noReturn

theorem tail (h : IsLine (c :: cs)) : IsLine cs where
  noFeed := fun hmem => h.noFeed (List.mem_cons_of_mem c hmem)
  noReturn := by
    cases cs with
    | nil => nofun
    | cons d ds => exact List.getLast?_cons_cons ▸ h.noReturn

theorem lines_append (h : IsLine cs) (rest : List Char) :
    lines (cs ++ '\n' :: rest) = cs :: lines rest := by
  induction cs with
  | nil => rfl
  | cons c cs ih =>
      rw [List.cons_append, lines, ih h.tail]
      · exact fun hc => h.noFeed (hc ▸ List.mem_cons_self)
      · -- A carriage return is not the last character in front of the line feed.
        rintro cs' rfl hnext
        cases cs with
        | nil => exact h.noReturn rfl
        | cons d ds =>
            cases hnext
            exact h.tail.noFeed List.mem_cons_self

end IsLine

end Text

namespace Written

theorem plain_of_word {first : Char} {later : List Char} (hstart : Lexeme.startsName first = true)
    (hlater : ∀ c ∈ later, Lexeme.continuesName c = true) :
    ∀ c ∈ first :: later, c ≠ '\n' ∧ c ≠ '\r' := by
  intro c hc
  have hall : ∀ c ∈ first :: later, Lexeme.continuesName c = true :=
    List.forall_mem_cons.mpr ⟨Lexeme.continuesName_of_startsName hstart, hlater⟩
  have hname := hall c hc
  constructor <;> rintro rfl <;> cases hname

theorem plain_of_punct (p : Punct) : ∀ c ∈ p.text.toList, c ≠ '\n' ∧ c ≠ '\r' := by
  have hall : (p.text.toList.all fun c => c != '\n' && c != '\r') = true := by
    cases p <;> rfl
  intro c hc
  simpa using List.all_eq_true.mp hall c hc

/-- The characters of a token that is no string do not end a line. -/
theorem plain_or_string (t : Written) :
    (∀ c ∈ t.lexeme, c ≠ '\n' ∧ c ≠ '\r') ∨ ∃ quote hquote text, t = .string quote hquote text := by
  cases t with
  | name first later hstart hlater hword => exact .inl (plain_of_word hstart hlater)
  | integer n hle =>
      refine .inl fun c hc => ?_
      have hdigit : c.isDigit = true := Nat.isDigit_of_mem_toDigits (by decide) (by decide) hc
      constructor <;> rintro rfl <;> cases hdigit
  | string quote hquote text => exact .inr ⟨quote, hquote, text, rfl⟩
  | keyword k =>
      rcases isWord_keyword k with ⟨c, cs, hcons, hstart, hlater⟩
      have hplain := plain_of_word hstart hlater
      rw [← hcons] at hplain
      exact .inl hplain
  | punct p => exact .inl (plain_of_punct p)

theorem newline_notMem_escape {quote : Char} (hquote : quote ≠ '\n') (c : Char) :
    '\n' ∉ escape quote c := by
  unfold escape
  split
  next hc =>
    have hne : c ≠ '\n' := by
      rcases hc with rfl | rfl
      · decide
      · exact hquote
    simpa using hne.symm
  next =>
    split
    next => decide
    next hne =>
      split
      next => decide
      next => simpa using Ne.symm hne

theorem isLine_lexeme (t : Written) : Text.IsLine t.lexeme := by
  rcases t.plain_or_string with hplain | ⟨quote, hquote, text, rfl⟩
  · exact ⟨fun hmem => (hplain _ hmem).1 rfl,
      fun hlast => (hplain _ (List.mem_of_getLast? hlast)).2 rfl⟩
  · have hne : quote ≠ '\n' := by rcases Lexeme.eq_of_isQuote hquote with rfl | rfl <;> decide
    have hend : Text.IsLine [quote] := by
      rcases Lexeme.eq_of_isQuote hquote with rfl | rfl <;> exact ⟨by decide, by decide⟩
    -- The last character is the closing quote.
    refine .append ?_ hend
    simp [hne.symm, newline_notMem_escape hne]

variable {tokens : List Written}

/-- A line starts with the first character of a token. -/
theorem spaced_eq_cons (h : tokens ≠ []) :
    ∃ c cs, spaced tokens = c :: cs ∧ Text.isBlank c = false := by
  cases tokens with
  | nil => exact absurd rfl h
  | cons t ts =>
      rcases t.spells.exists_cons with ⟨c, cs, hcons, hc⟩
      cases ts with
      | nil => exact ⟨c, cs, by rw [spaced_singleton, hcons], hc⟩
      | cons u ts => exact ⟨c, _, by rw [spaced_cons_cons, hcons, List.cons_append], hc⟩

theorem isLine_spaced (tokens : List Written) : Text.IsLine (spaced tokens) := by
  induction tokens with
  | nil => exact ⟨nofun, nofun⟩
  | cons t ts ih =>
      cases ts with
      | nil =>
          rw [spaced_singleton]
          exact t.isLine_lexeme
      | cons u ts =>
          rcases spaced_eq_cons (List.cons_ne_nil u ts) with ⟨c, cs, hcons, -⟩
          rw [hcons] at ih
          have hlater : Text.IsLine (' ' :: c :: cs) := .append (by decide : '\n' ∉ [' ']) ih
          rw [spaced_cons_cons, hcons]
          exact hlater.append t.isLine_lexeme.noFeed

namespace Line

variable (line : Line)

/-- The spaces of a line end where its first token starts. -/
theorem indentation_and_unindented :
    Text.indentation line.text = List.replicate (2 * line.level) ' '
      ∧ Text.unindented line.text = spaced line.tokens := by
  have hspaces : ∀ c ∈ List.replicate (2 * line.level) ' ', decide (c = ' ') = true :=
    fun c hc => decide_eq_true (List.eq_of_mem_replicate hc)
  refine Lexeme.takeWhile_dropWhile_append hspaces fun c hc => decide_eq_false ?_
  rcases spaced_eq_cons line.nonempty with ⟨d, ds, hcons, hd⟩
  rw [hcons] at hc
  cases hc
  rintro rfl
  cases hd

theorem hasContent : line.text.all Text.isBlank = false := by
  rcases spaced_eq_cons line.nonempty with ⟨c, cs, hcons, hc⟩
  simp [text, hcons, hc]

theorem isLine_text : Text.IsLine line.text := by
  rcases spaced_eq_cons line.nonempty with ⟨c, cs, hcons, -⟩
  have hspaced := isLine_spaced line.tokens
  rw [hcons] at hspaced
  rw [text, hcons]
  exact hspaced.append (by simp)

end Line

theorem lines_render (lines : List Line) :
    Text.lines (render lines).toList = lines.map Line.text := by
  rw [render, String.toList_ofList]
  induction lines with
  | nil => rfl
  | cons line lines ih =>
      rw [List.flatMap_cons, List.append_assoc, List.singleton_append,
        line.isLine_text.lines_append, ih]
      rfl

end Written

/-! ## Lines that are read -/

/-- A token is read at the first character that is not blank. -/
theorem Layout.Reads.exists_token {gap more : List Char} {c : Char} {ks : List Kind}
    (hgap : gap.all Text.isBlank = true) (hc : Text.isBlank c = false)
    (h : Layout.Reads (gap ++ c :: more) ks) :
    ∃ k ks', (Lexeme.read c more).reading = .ok k
      ∧ Layout.Reads (Lexeme.read c more).rest ks' := by
  have hfirst : ∀ d ∈ (c :: more).head?, Text.isBlank d = false := by
    intro d hd
    cases hd
    exact hc
  have hdrop := (Lexeme.takeWhile_dropWhile_append (List.all_eq_true.mp hgap) hfirst).2
  cases h with
  | done hblank => simp [hc] at hblank
  | token hhead hread hlater =>
      cases hdrop.symm.trans hhead
      exact ⟨_, _, hread, hlater⟩

theorem Covers.reads {number : Nat} {before text after rest : List Char} {tokens : List Token}
    {ks : List Kind} (h : Covers number before text tokens after rest)
    (hreads : Layout.Reads text ks) : ∃ ks', Layout.Reads rest ks' := by
  induction h generalizing ks with
  | nil => exact ⟨ks, hreads⟩
  | token hgap hspells hmax _ ih =>
      rcases hspells.exists_cons with ⟨c, cs, rfl, hc⟩
      rw [List.append_assoc, List.cons_append] at hreads
      rcases hreads.exists_token hgap hc with ⟨k, ks', -, hlater⟩
      rw [Lexeme.read_of_spells hspells hmax] at hlater
      exact ih hlater

/-- No error is in a line that has an even number of leading spaces and tokens up to its end. -/
theorem StopsAt.false {number : Nat} {raw : List Char} {covered tokens : List Token} {e : LexError}
    {ks : List Kind} (h : StopsAt number raw covered tokens e)
    (heven : (Text.indentation raw).length % 2 = 0)
    (hreads : Layout.Reads (Text.unindented raw) ks) : False := by
  cases h with
  | odd _ hodd => omega
  | malformed hline hgap hhead hread =>
      rcases hline.content.reads hreads with ⟨ks', hrest⟩
      rcases hrest.exists_token hgap hhead with ⟨k, ks', hok, -⟩
      rw [hread] at hok
      cases hok

/-- The kinds of tokens of written lines are those of their layout. -/
theorem Layout.kinds_eq_kindsFrom {depth : Nat} {lines : List Layout.Line} {tokens : List Token}
    (h : Layout depth lines tokens) {written : List Written.Line}
    (hlines : lines.map (·.shape)
      = written.map fun line => (2 * line.level, Written.spaced line.tokens)) :
    tokens.map (·.kind) = Written.kindsFrom depth written := by
  induction h generalizing written with
  | finish hclosing hlast =>
      cases written with
      | nil => simp [Written.kindsFrom, hclosing, hlast]
      | cons => cases hlines
  | @line depth line lines ts later heven htokens hcontent hlater ih =>
      cases written with
      | nil => cases hlines
      | cons written more =>
          rcases List.cons.inj hlines with ⟨hshape, hshapes⟩
          have hspaces : line.spaces = 2 * written.level := congrArg Prod.fst hshape
          have htext : line.text = Written.spaced written.tokens := congrArg Prod.snd hshape
          have hlevel : line.level = written.level := by rw [Layout.Line.level, hspaces]; omega
          have hreads := htokens.content_kinds
          rw [htext] at hreads
          rw [List.map_append, ih hshapes, htokens.kinds_eq,
            hreads.unique (Written.reads_spaced written.tokens), hlevel, Written.kindsFrom]
          simp

/-- The text that is written for lines has the tokens of the lines, and blocks open and close between
them as their levels say. -/
theorem tokenize_render (lines : List Written.Line) :
    ∃ tokens, tokenize (Written.render lines) = .ok tokens
      ∧ tokens.map (·.kind) = Written.kindsFrom 0 lines := by
  have hraws := Written.lines_render lines
  have haccount := account_ofText (Written.render lines).toList
  rcases hstream : Stream.ofText (Written.render lines).toList with ⟨tokens, fault⟩
  rw [hstream, hraws] at haccount
  cases fault with
  | some e =>
      rcases haccount.stopsAt (Nat.zero_le 1) with ⟨read, raw, unread, covered, hsplit, -, hstops⟩
      have hmem : raw ∈ lines.map Written.Line.text := by simp [hsplit]
      rcases List.mem_map.mp hmem with ⟨line, -, rfl⟩
      rcases line.indentation_and_unindented with ⟨hspaces, htokens⟩
      have heven : (Text.indentation line.text).length % 2 = 0 := by
        rw [hspaces, List.length_replicate]
        omega
      have hreads := Written.reads_spaced line.tokens
      rw [← htokens] at hreads
      exact (hstops.false heven hreads).elim
  | none =>
      have hok : tokenize (Written.render lines) = .ok tokens := tokenize_eq_ok_iff.mpr hstream
      refine ⟨tokens, hok, (layout_of_tokenize hok).kinds_eq_kindsFrom ?_⟩
      have hfilter : (lines.map Written.Line.text).filter (!·.all Text.isBlank)
          = lines.map Written.Line.text := by
        refine List.filter_eq_self.mpr fun raw hraw => ?_
        rcases List.mem_map.mp hraw with ⟨line, -, rfl⟩
        simp [line.hasContent]
      rw [Layout.contentLines, Layout.shapes_contentLinesFrom, hraws, hfilter, List.map_map]
      refine List.map_congr_left fun line _ => ?_
      rcases line.indentation_and_unindented with ⟨hspaces, htokens⟩
      have hlength : (Text.indentation line.text).length = 2 * line.level := by
        rw [hspaces, List.length_replicate]
      exact Prod.ext hlength htokens

example :
    let x : Written := .name 'x' [] (by decide) nofun (by decide +kernel)
    let condition : Written.Line := ⟨0, [.keyword .ifKw, x, .punct .colon], nofun⟩
    let body : Written.Line :=
      ⟨1, [x, .punct .assign, .string '\x27' (by decide) "it's".toList], nofun⟩
    Written.render [condition, body] = "if x :\n  x = 'it\\'s'\n" := by
  decide +kernel

end Offside
