import Offside.Text.Blank
import Offside.Token.Lexeme

/-!
# Spelling — how tokens are written

This file says which characters may be written for a token, independently of the reader of tokens:

- `Lexeme.Body`  : what stands between the quotes of a string, and the text that it stands for
- `Spells`       : the characters that may be written for a kind of token
- `Kind.Maximal` : what follows a token does not continue it

The reader finds exactly the maximal spellings: it takes each of them (`read_of_spells`), what it takes
is one (`spells_of_reading`), and where it finds an error there is none (`not_exists_spells`).
-/

namespace Offside

/-! ## Spellings -/

/-- Between quotes a backslash stands before a character that is not meant as it is written. -/
inductive Lexeme.Body (quote : Char) : List Char → List Char → Prop where
  | nil : Body quote [] []
  | plain {c : Char} {body text : List Char} (hquote : c ≠ quote) (hplain : c ≠ '\\')
      (h : Body quote body text) : Body quote (c :: body) (c :: text)
  | escaped {c : Char} {body text : List Char} (h : Body quote body text) :
      Body quote ('\\' :: c :: body) (Lexeme.unescape c :: text)

/-- The characters are written for a token of the kind. -/
inductive Spells : Kind → List Char → Prop where
  | word {c : Char} {cs : List Char} (hstart : Lexeme.startsName c = true)
      (hlater : ∀ d ∈ cs, Lexeme.continuesName d = true) :
      Spells (.ofWord (String.ofList (c :: cs))) (c :: cs)
  | integer {c : Char} {cs : List Char} (hdigits : ∀ d ∈ c :: cs, d.isDigit = true)
      (hle : Lexeme.decimal (c :: cs) ≤ Lexeme.maxInteger) :
      Spells (.integer (Int64.ofNat (Lexeme.decimal (c :: cs)))) (c :: cs)
  | string {quote : Char} {body text : List Char} (hquote : Lexeme.isQuote quote = true)
      (hbody : Lexeme.Body quote body text) :
      Spells (.string (String.ofList text)) (quote :: body ++ [quote])
  | punct (p : Punct) : Spells (.punct p) p.text.toList

/-- The character would be part of a longer token. -/
def Kind.continues : Kind → Char → Bool
  | .identifier _ | .keyword _ => Lexeme.continuesName
  | .integer _ => Char.isDigit
  | .punct .assign | .punct .less | .punct .greater => (· = '=')
  | _ => fun _ => false

/-- A token ends before `later`. -/
def Kind.Maximal (k : Kind) (later : List Char) : Prop :=
  ∀ c ∈ later.head?, k.continues c = false

theorem Kind.continues_ofWord (word : String) :
    (Kind.ofWord word).continues = Lexeme.continuesName := by
  unfold Kind.ofWord
  split
  · rfl
  · rfl

/-! ## First characters -/

/-- Where no interval of one set meets one of the other, no character is in both. -/
theorem CharSet.contains_eq_false_of_apart {s t : CharSet} {c : Char}
    (hapart : ∀ i ∈ s.intervals, ∀ j ∈ t.intervals, i.2 < j.1 ∨ j.2 < i.1)
    (h : t.contains c = true) : s.contains c = false := by
  refine eq_false_of_ne_true fun hboth => ?_
  rcases CharSet.contains_eq_true_iff.mp h with ⟨j, hj, hin⟩
  rcases CharSet.contains_eq_true_iff.mp hboth with ⟨i, hi, hin'⟩
  have happart := hapart i hi j hj
  omega

namespace Text

theorem isDigit_iff {c : Char} : c.isDigit = true ↔ 48 ≤ c.toNat ∧ c.toNat ≤ 57 := by
  delta Char.isDigit
  simp only [Bool.and_eq_true, decide_eq_true_eq, ge_iff_le, UInt32.le_iff_toNat_le]
  rfl

theorem isAlpha_iff {c : Char} :
    c.isAlpha = true ↔ (65 ≤ c.toNat ∧ c.toNat ≤ 90) ∨ (97 ≤ c.toNat ∧ c.toNat ≤ 122) := by
  delta Char.isAlpha Char.isUpper Char.isLower
  simp only [Bool.or_eq_true, Bool.and_eq_true, decide_eq_true_eq, ge_iff_le,
    UInt32.le_iff_toNat_le]
  rfl

/-- The blanks of ASCII come first. -/
theorem isBlank_eq_false_of_lt {c : Char} (h : 32 < c.toNat) (hlt : c.toNat < 128) :
    isBlank c = false := by
  have hspace : c ≠ ' ' := by
    rintro rfl
    revert h
    decide
  rw [isBlank, if_pos hlt]
  simp [hspace]
  omega

theorem isBlank_eq_false_of_isLetter {c : Char} (h : isLetter c = true) : isBlank c = false := by
  unfold isLetter at h
  split at h
  next hlt =>
    have hcode := isAlpha_iff.mp h
    exact isBlank_eq_false_of_lt (by omega) hlt
  next hge =>
    rw [isBlank, if_neg hge]
    exact CharSet.contains_eq_false_of_apart (by decide +kernel) h

theorem isBlank_eq_false_of_isNumeral {c : Char} (h : isNumeral c = true) : isBlank c = false := by
  unfold isNumeral at h
  split at h
  next hlt =>
    have hcode := isDigit_iff.mp h
    exact isBlank_eq_false_of_lt (by omega) hlt
  next hge =>
    rw [isBlank, if_neg hge]
    exact CharSet.contains_eq_false_of_apart (by decide +kernel) h

end Text

namespace Lexeme

theorem isBlank_eq_false_of_continuesName {c : Char} (h : continuesName c = true) :
    Text.isBlank c = false := by
  rcases Bool.or_eq_true_iff.mp h with hword | hunderscore
  · rcases Bool.or_eq_true_iff.mp hword with hletter | hnumeral
    · exact Text.isBlank_eq_false_of_isLetter hletter
    · exact Text.isBlank_eq_false_of_isNumeral hnumeral
  · rw [of_decide_eq_true hunderscore]
    rfl

theorem isBlank_eq_false_of_startsName {c : Char} (h : startsName c = true) :
    Text.isBlank c = false :=
  isBlank_eq_false_of_continuesName (continuesName_of_startsName h)

theorem isDigit_eq_false_of_startsName {c : Char} (h : startsName c = true) :
    c.isDigit = false := by
  refine eq_false_of_ne_true fun hdigit => ?_
  have hcode := Text.isDigit_iff.mp hdigit
  rcases Bool.or_eq_true_iff.mp h with hletter | hunderscore
  · have hlt : c.toNat < 128 := by omega
    rw [Text.isLetter, if_pos hlt, Text.isAlpha_iff] at hletter
    omega
  · rw [of_decide_eq_true hunderscore] at hcode
    revert hcode
    decide

theorem isBlank_eq_false_of_isDigit {c : Char} (h : c.isDigit = true) : Text.isBlank c = false := by
  have hcode := Text.isDigit_iff.mp h
  exact Text.isBlank_eq_false_of_lt (by omega) (by omega)

theorem eq_of_isQuote {quote : Char} (h : isQuote quote = true) :
    quote = '\x22' ∨ quote = '\x27' := by
  simpa [isQuote] using h

theorem isBlank_eq_false_of_isQuote {quote : Char} (h : isQuote quote = true) :
    Text.isBlank quote = false := by
  rcases eq_of_isQuote h with rfl | rfl <;> rfl

theorem ne_backslash_of_isQuote {quote : Char} (h : isQuote quote = true) : quote ≠ '\\' := by
  rcases eq_of_isQuote h with rfl | rfl <;> decide

/-- No token but a string starts with a quote. -/
theorem read_quote {quote : Char} (h : isQuote quote = true) (cs : List Char) :
    read quote cs = string quote cs := by
  rcases eq_of_isQuote h with rfl | rfl <;> rfl

/-! ## Strings -/

theorem literal_cons {quote c : Char} (hplain : c ≠ '\\') (cs : List Char) :
    literal quote (c :: cs)
      = if c = quote then ⟨some [], [c], cs⟩ else (literal quote cs).push [c] c := by
  rw [literal]
  · exact fun hc _ => hplain hc
  · exact fun _ _ hc => absurd hc hplain

theorem literal_of_body {quote : Char} {body text : List Char} (h : Body quote body text)
    (hquote : quote ≠ '\\') (later : List Char) :
    literal quote (body ++ quote :: later) = ⟨some text, body ++ [quote], later⟩ := by
  induction h with
  | nil => rw [List.nil_append, literal_cons hquote, if_pos rfl, List.nil_append]
  | plain hc hplain _ ih =>
      rw [List.cons_append, literal_cons hplain, if_neg hc, ih]
      rfl
  | escaped _ ih =>
      rw [List.cons_append, List.cons_append, literal, ih]
      rfl

/-- What is left by the arms for a backslash is none. -/
theorem ne_backslash_of_arms {c : Char} {cs : List Char} (hlone : c = '\\' → cs = [] → False)
    (hescape : ∀ d ds, c = '\\' → cs = d :: ds → False) : c ≠ '\\' := by
  intro hc
  cases cs with
  | nil => exact hlone hc rfl
  | cons d ds => exact hescape d ds hc rfl

theorem body_of_literal {quote : Char} {cs text : List Char}
    (h : (literal quote cs).text? = some text) :
    ∃ body, (literal quote cs).taken = body ++ [quote] ∧ Body quote body text := by
  fun_induction literal quote cs generalizing text with
  | case1 => cases h
  | case2 => cases h
  | case3 c cs ih =>
      rcases Option.map_eq_some_iff.mp h with ⟨text, htext, rfl⟩
      rcases ih htext with ⟨body, htaken, hbody⟩
      refine ⟨'\\' :: c :: body, ?_, .escaped hbody⟩
      rw [Literal.push, htaken]
      rfl
  | case4 cs hlone hescape =>
      cases h
      exact ⟨[], rfl, .nil⟩
  | case5 c cs hlone hescape hquote ih =>
      rcases Option.map_eq_some_iff.mp h with ⟨text, htext, rfl⟩
      rcases ih htext with ⟨body, htaken, hbody⟩
      have hplain : c ≠ '\\' := ne_backslash_of_arms hlone hescape
      refine ⟨c :: body, ?_, .plain hquote hplain hbody⟩
      rw [Literal.push, htaken]
      rfl

end Lexeme

/-! ## Marks -/

namespace Punct

theorem text_of_single? {c : Char} {p : Punct} (h : single? c = some p) : p.text.toList = [c] := by
  unfold single? at h
  split at h <;> cases h <;> rfl

theorem text_of_withEquals? {c : Char} {p : Punct} (h : withEquals? c = some p) :
    p.text.toList = [c, '='] := by
  unfold withEquals? at h
  split at h <;> cases h <;> rfl

def first : Punct → Char
  | assign | equal => '='
  | less | lessEqual => '<'
  | greater | greaterEqual => '>'
  | notEqual => '!'
  | plus => '+'
  | minus => '-'
  | star => '*'
  | slash => '/'
  | leftParen => '('
  | rightParen => ')'
  | colon => ':'
  | comma => ','
  | dot => '.'

theorem single?_or_withEquals? (p : Punct) :
    single? p.first = some p ∨ withEquals? p.first = some p := by
  cases p <;> decide

/-- A mark of one character goes on with an equals sign where there is a mark of both. -/
theorem continues_of_single? {c : Char} {p : Punct} (h : single? c = some p) (d : Char) :
    (Kind.punct p).continues d = ((withEquals? c).isSome && d = '=') := by
  unfold single? at h
  split at h <;> cases h <;> rfl

theorem continues_of_withEquals? {c : Char} {p : Punct} (h : withEquals? c = some p) (d : Char) :
    (Kind.punct p).continues d = false := by
  unfold withEquals? at h
  split at h <;> cases h <;> rfl

end Punct

namespace Lexeme

/-- No token but a mark starts with the first character of one. -/
theorem read_first (p : Punct) (cs : List Char) : read p.first cs = punct p.first cs := by
  cases p <;> rfl

theorem isBlank_first (p : Punct) : Text.isBlank p.first = false := by
  cases p <;> rfl

theorem read_of_punct {p : Punct} {later : List Char} (hmax : (Kind.punct p).Maximal later) :
    ∃ cs, p.text.toList = p.first :: cs
      ∧ read p.first (cs ++ later) = ⟨.ok (.punct p), p.first :: cs, later⟩ := by
  rcases p.single?_or_withEquals? with hsingle | hdouble
  · refine ⟨[], Punct.text_of_single? hsingle, ?_⟩
    rw [read_first, List.nil_append]
    unfold punct
    split
    next q rest hq =>
      -- With the equals sign a longer mark could be read.
      have hstop := hmax '=' (Option.mem_some_self _)
      rw [Punct.continues_of_single? hsingle, hq] at hstop
      cases hstop
    next =>
      simp only [hsingle]
  · refine ⟨['='], Punct.text_of_withEquals? hdouble, ?_⟩
    rw [read_first]
    simp only [punct, hdouble, List.cons_append, List.nil_append]

theorem spells_of_punct {c : Char} {cs : List Char} {k : Kind}
    (h : (punct c cs).reading = .ok k) :
    Spells k (punct c cs).taken ∧ k.Maximal (punct c cs).rest := by
  unfold punct at h ⊢
  split at h
  next p rest hp =>
    cases h
    have hspells := Spells.punct p
    rw [Punct.text_of_withEquals? hp] at hspells
    exact ⟨hspells, fun d _ => Punct.continues_of_withEquals? hp d⟩
  next hdouble =>
    split at h
    next p hp =>
      cases h
      have hspells := Spells.punct p
      rw [Punct.text_of_single? hp] at hspells
      refine ⟨hspells, fun d hd => ?_⟩
      rw [Punct.continues_of_single? hp]
      -- An equals sign behind the mark would have been taken as a part of it.
      refine eq_false_of_ne_true fun hlonger => ?_
      rcases Bool.and_eq_true_iff.mp hlonger with ⟨hsome, hequals⟩
      rcases Option.isSome_iff_exists.mp hsome with ⟨q, hq⟩
      rcases List.head?_eq_some_iff.mp hd with ⟨rest, hrest⟩
      rw [of_decide_eq_true hequals] at hrest
      exact hdouble q rest hq hrest
    next => cases h

/-! ## Maximal spellings -/

theorem takeWhile_dropWhile_append {p : Char → Bool} {lexeme later : List Char}
    (hall : ∀ d ∈ lexeme, p d = true) (hstop : ∀ d ∈ later.head?, p d = false) :
    (lexeme ++ later).takeWhile p = lexeme ∧ (lexeme ++ later).dropWhile p = later := by
  rw [List.takeWhile_append_of_pos hall, List.dropWhile_append_of_pos hall]
  cases later with
  | nil => exact ⟨List.append_nil _, rfl⟩
  | cons d later =>
      have hd : ¬ p d = true := by simp [hstop d (Option.mem_some_self _)]
      rw [List.takeWhile_cons_of_neg hd, List.dropWhile_cons_of_neg hd]
      exact ⟨List.append_nil _, rfl⟩

theorem head?_dropWhile {p : Char → Bool} {cs : List Char} :
    ∀ d ∈ (cs.dropWhile p).head?, p d = false := by
  intro d hd
  have hnot := List.head?_dropWhile_not p cs
  rw [hd] at hnot
  exact hnot

/-- Each maximal spelling of a token is read, up to its end. -/
theorem read_of_spells {k : Kind} {c : Char} {cs later : List Char} (h : Spells k (c :: cs))
    (hmax : k.Maximal later) : read c (cs ++ later) = ⟨.ok k, c :: cs, later⟩ := by
  generalize hlexeme : c :: cs = lexeme at h
  cases h with
  | word hstart hlater =>
      cases hlexeme
      have hall : ∀ d ∈ c :: cs, continuesName d = true :=
        List.forall_mem_cons.mpr ⟨continuesName_of_startsName hstart, hlater⟩
      have hstop : ∀ d ∈ later.head?, continuesName d = false := by
        rw [← Kind.continues_ofWord]
        exact hmax
      rcases takeWhile_dropWhile_append hall hstop with ⟨htake, hdrop⟩
      rw [read, isDigit_eq_false_of_startsName hstart, if_neg Bool.false_ne_true, if_pos hstart,
        word, ← List.cons_append, htake, hdrop]
  | integer hdigits hle =>
      cases hlexeme
      rcases takeWhile_dropWhile_append hdigits hmax with ⟨htake, hdrop⟩
      rw [read, if_pos (hdigits c List.mem_cons_self), integer, ← List.cons_append]
      simp only [htake, hdrop, if_pos hle]
  | @string quote body text hquote hbody =>
      rw [List.cons_append] at hlexeme
      rcases List.cons.inj hlexeme with ⟨rfl, rfl⟩
      have hsplit : body ++ [c] ++ later = body ++ c :: later := by simp
      rw [hsplit]
      have hliteral := literal_of_body hbody (ne_backslash_of_isQuote hquote) later
      rw [read_quote hquote, string]
      simp only [hliteral, List.cons_append]
  | punct p =>
      rcases read_of_punct hmax with ⟨cs', htext, hread⟩
      rw [htext] at hlexeme ⊢
      cases hlexeme
      exact hread

/-- What is taken for a token is a maximal spelling of it. -/
theorem spells_of_reading {k : Kind} {c : Char} {cs : List Char}
    (h : (read c cs).reading = .ok k) : Spells k (read c cs).taken ∧ k.Maximal (read c cs).rest := by
  unfold read at h ⊢
  split at h
  next hdigit =>
    simp only [integer] at h
    split at h
    next hle =>
      cases h
      rw [if_pos hdigit]
      have htake : (c :: cs).takeWhile Char.isDigit = c :: cs.takeWhile Char.isDigit :=
        List.takeWhile_cons_of_pos hdigit
      simp only [integer, htake] at hle ⊢
      refine ⟨.integer ?_ hle, head?_dropWhile⟩
      rw [← htake]
      exact List.all_eq_true.mp List.all_takeWhile
    next => cases h
  next hdigit =>
    split at h
    next hstart =>
      cases h
      rw [if_neg hdigit, if_pos hstart]
      have htake : (c :: cs).takeWhile continuesName = c :: cs.takeWhile continuesName :=
        List.takeWhile_cons_of_pos (continuesName_of_startsName hstart)
      simp only [word, htake]
      refine ⟨.word hstart (List.all_eq_true.mp List.all_takeWhile), ?_⟩
      rw [Kind.Maximal, Kind.continues_ofWord]
      exact head?_dropWhile
    next hstart =>
      split at h
      next hquote =>
        rw [if_neg hdigit, if_neg hstart, if_pos hquote]
        simp only [string] at h
        split at h
        next text htext =>
          cases h
          rcases body_of_literal htext with ⟨body, htaken, hbody⟩
          simp only [string, htaken]
          exact ⟨.string hquote hbody, fun _ _ => rfl⟩
        next => cases h
      next hquote =>
        rw [if_neg hdigit, if_neg hstart, if_neg hquote]
        exact spells_of_punct h

end Lexeme

namespace Spells

variable {k : Kind} {lexeme : List Char}

/-- A token is written with some character, and the first one is not blank. -/
theorem exists_cons (h : Spells k lexeme) :
    ∃ c cs, lexeme = c :: cs ∧ Text.isBlank c = false := by
  cases h with
  | word hstart => exact ⟨_, _, rfl, Lexeme.isBlank_eq_false_of_startsName hstart⟩
  | integer hdigits =>
      exact ⟨_, _, rfl, Lexeme.isBlank_eq_false_of_isDigit (hdigits _ List.mem_cons_self)⟩
  | string hquote => exact ⟨_, _, rfl, Lexeme.isBlank_eq_false_of_isQuote hquote⟩
  | punct p =>
      have hmax : (Kind.punct p).Maximal [] := nofun
      rcases Lexeme.read_of_punct hmax with ⟨cs, htext, -⟩
      exact ⟨p.first, cs, htext, Lexeme.isBlank_first p⟩

end Spells

/-- Where the reader finds an error, no token is written. -/
theorem Lexeme.not_exists_spells {m : Malformed} {c : Char} {cs : List Char}
    (h : (Lexeme.read c cs).reading = .error m) :
    ¬ ∃ k lexeme later, c :: cs = lexeme ++ later ∧ Spells k lexeme ∧ k.Maximal later := by
  rintro ⟨k, lexeme, later, htext, hspells, hmax⟩
  rcases hspells.exists_cons with ⟨d, ds, rfl, -⟩
  rw [List.cons_append] at htext
  rcases List.cons.inj htext with ⟨rfl, rfl⟩
  rw [read_of_spells hspells hmax] at h
  cases h

end Offside
