import Mathlib.Computability.Language
import Offside.Proofs.Grammar.Unambiguity

/-!
# Shapes — parts of productions and what may follow them

A parser at work reads a part of a production: the rest of a list, say, up to the closing parenthesis.
This file defines

* `Shape`: such a part, by the words that it derives and the tokens that may stand after a word;
* `Shape.Forces a w k`: before the token `k` the tokens `w` are a word, and no other word can be read
  from them, whatever stands after `k`;
* `Shape.Refuses a ks k`: the tokens `ks` begin a word, and with `k` after them no word can be read;
* `Shape.Narrows a k b`: where the next token is `k`, nothing of `a` is left but `b`.

Forcing and refusal pass from the parts of a sequence to the whole (`Forces.append`,
`Refuses.append`, `Forces.append_refuses`) and from a shape to a wider one.
-/

namespace Offside
namespace Grammar

/-! ## Words of a symbol -/

/-- The token lists that a symbol derives. -/
def Symbol.language (s : Symbol) : Language Kind :=
  {ks | ∃ d : Phrase s, d.kinds = ks}

theorem Rung.exists_phrase (r : Rung) : Nonempty (Phrase (.expr r)) := by
  let primary : Phrase (.expr .primary) := .literal .none
  let factor : Phrase (.expr .factor) := .unsigned primary
  let product : Phrase (.expr (.chain .product)) := .chain factor .done
  let sum : Phrase (.expr (.chain .sum)) := .chain product .done
  let comparison : Phrase (.expr .comparison) := .comparison sum .absent
  let inversion : Phrase (.expr .inversion) := .compared comparison
  let conjunction : Phrase (.expr (.chain .and)) := .chain inversion .done
  cases r with
  | primary => exact ⟨primary⟩
  | factor => exact ⟨factor⟩
  | comparison => exact ⟨comparison⟩
  | inversion => exact ⟨inversion⟩
  | chain l =>
      cases l with
      | product => exact ⟨product⟩
      | sum => exact ⟨sum⟩
      | and => exact ⟨conjunction⟩
      | or => exact ⟨.chain conjunction .done⟩

/-- Every symbol derives something. -/
theorem Symbol.exists_phrase (s : Symbol) : Nonempty (Phrase s) := by
  let name : Phrase .name := .name ""
  let path : Phrase .path := .path name .done
  let application : Phrase .application := .application .noItems .done
  let block : Phrase .block := .block .done
  rcases Rung.exists_phrase (.chain .sum) with ⟨sum⟩
  induction s with
  | name => exact ⟨name⟩
  | path => exact ⟨path⟩
  | many s => exact ⟨.done⟩
  | option s => exact ⟨.absent⟩
  | after p s ih => exact ih.map (.after p)
  | list s => exact ⟨.noItems⟩
  | expr r => exact r.exists_phrase
  | link l =>
      rcases l.operand.exists_phrase with ⟨operand⟩
      cases l with
      | or => exact ⟨.link .or operand⟩
      | and => exact ⟨.link .and operand⟩
      | sum => exact ⟨.link .plus operand⟩
      | product => exact ⟨.link .times operand⟩
  | relation => exact ⟨.relation .less sum⟩
  | application => exact ⟨application⟩
  | call => exact ⟨.call name .noItems⟩
  | simple => exact ⟨.apply path application⟩
  | block => exact ⟨block⟩
  | statement => exact ⟨.simple (.apply path application)⟩
  | alternative => exact ⟨.alternative block⟩
  | base => exact ⟨.base name⟩
  | method => exact ⟨.method name .noItems block⟩

/-! ## Shapes -/

/-- A part of a production. -/
@[ext] structure Shape where
  words : Language Kind
  /-- What may stand after a word. -/
  stops : Kind → Bool
  exists_word : ∃ w, w ∈ words

namespace Shape

def token (k : Kind) : Shape where
  words := {[k]}
  stops _ := true
  exists_word := ⟨[k], rfl⟩

def symbol (s : Symbol) : Shape where
  words := s.language
  stops := s.stops
  exists_word := s.exists_phrase.elim fun d => ⟨d.kinds, d, rfl⟩

/-- No token at all. -/
def nothing : Shape where
  words := 1
  stops _ := true
  exists_word := ⟨[], rfl⟩

/-- One shape after the other. -/
instance : Append Shape where
  append a b :=
    { words := a.words * b.words
      stops := b.stops
      exists_word :=
        a.exists_word.elim fun v hv => b.exists_word.elim fun w hw => ⟨v ++ w, v, hv, w, hw, rfl⟩ }

/-- One of two shapes. -/
def either (a b : Shape) : Shape where
  words := a.words + b.words
  stops k := a.stops k && b.stops k
  exists_word := a.exists_word.elim fun w hw => ⟨w, .inl hw⟩

/-- The same words, where only some tokens may follow. -/
def upTo (a : Shape) (stops : Kind → Bool) : Shape :=
  { a with stops }

variable {a b c : Shape} {s t : Symbol} {stops : Kind → Bool} {k k₁ : Kind}
  {ks v w rest r₀ r₁ : List Kind}

theorem mem_append : w ∈ (a ++ b).words ↔ ∃ u ∈ a.words, ∃ v ∈ b.words, u ++ v = w :=
  Language.mem_mul

theorem append_assoc (a b c : Shape) : a ++ b ++ c = a ++ (b ++ c) :=
  Shape.ext (mul_assoc a.words b.words c.words) rfl

/-! ## Words in front of other tokens -/

/-- The tokens may stand after a word. -/
def Halts (a : Shape) (ks : List Kind) : Prop :=
  ∃ k r, ks = k :: r ∧ a.stops k = true

/-- A word, and tokens that may stand after it. -/
structure Fits (a : Shape) (w rest : List Kind) : Prop where
  word : w ∈ a.words
  halts : a.Halts rest

/-- What begins with a word of `b` may stand after a word of `a`. -/
def Precedes (a b : Shape) : Prop :=
  ∀ ⦃w rest : List Kind⦄, b.Fits w rest → a.Halts (w ++ rest)

theorem Fits.exists_append (h : (a ++ b).Fits w rest) (hab : a.Precedes b) :
    ∃ u v, u ++ v = w ∧ a.Fits u (v ++ rest) ∧ b.Fits v rest := by
  rcases mem_append.mp h.word with ⟨u, hu, v, hv, huv⟩
  have hfit : b.Fits v rest := ⟨hv, h.halts⟩
  exact ⟨u, v, huv, ⟨hu, hab hfit⟩, hfit⟩

namespace Precedes

theorem append (hab : a.Precedes b) (hbc : b.Precedes c) : a.Precedes (b ++ c) := by
  intro w rest h
  rcases h.exists_append hbc with ⟨u, v, rfl, hu, -⟩
  rw [List.append_assoc]
  exact hab hu

theorem token (h : a.stops k = true) : a.Precedes (token k) := by
  rintro _ rest ⟨rfl, -⟩
  exact ⟨k, rest, rfl, h⟩

theorem token_append (h : a.stops k = true) : a.Precedes (Shape.token k ++ b) := by
  intro w rest hfit
  rcases mem_append.mp hfit.word with ⟨_, rfl, v, -, rfl⟩
  exact ⟨k, v ++ rest, rfl, h⟩

theorem symbol (hstarts : ∀ k, s.starts k = true → a.stops k = true)
    (hstops : s.nullable = true → ∀ k, stops k = true → a.stops k = true) :
    a.Precedes ((Shape.symbol s).upTo stops) := by
  rintro _ _ ⟨⟨d, rfl⟩, k, r, rfl, hk⟩
  rcases d.heads k r with ⟨k₁, r₁, h₁, hstart | ⟨hnull, rfl⟩⟩
  · exact ⟨k₁, r₁, h₁, hstarts k₁ hstart⟩
  · exact ⟨k₁, r₁, h₁, hstops hnull k₁ hk⟩

theorem of_symbols (h : s.Precedes t) : (Shape.symbol s).Precedes (Shape.symbol t) :=
  symbol h.starts h.stops

theorem of_stops (h : ∀ k, a.stops k = true) : a.Precedes b := by
  rintro w _ ⟨-, k, r, rfl, -⟩
  cases w with
  | nil => exact ⟨k, r, rfl, h k⟩
  | cons k₁ w => exact ⟨k₁, w ++ k :: r, rfl, h k₁⟩

theorem either (hb : a.Precedes b) (hc : a.Precedes c) : a.Precedes (Shape.either b c) := by
  rintro w _ ⟨hword, k, r, rfl, hk⟩
  rcases Bool.and_eq_true_iff.mp hk with ⟨hkb, hkc⟩
  rcases hword with hw | hw
  · exact hb ⟨hw, k, r, rfl, hkb⟩
  · exact hc ⟨hw, k, r, rfl, hkc⟩

theorem upTo (hab : a.Precedes b) (h : ∀ k, stops k = true → b.stops k = true) :
    a.Precedes (b.upTo stops) := by
  rintro w _ ⟨hw, k, r, rfl, hk⟩
  exact hab ⟨hw, k, r, rfl, h k hk⟩

end Precedes

/-- The first token does not depend on what stands after the one behind a word. -/
theorem exists_cons_of_append (h : w ++ k :: r₀ = k₁ :: r₁) (r : List Kind) :
    ∃ r', w ++ k :: r = k₁ :: r' := by
  cases w with
  | nil => exact ⟨r, by rw [(List.cons.inj h).1]; rfl⟩
  | cons k₂ w => exact ⟨w ++ k :: r, by rw [← (List.cons.inj h).1]; rfl⟩

/-! ## Forcing and refusal -/

/-- The tokens `w` before `k` are a word, and no other word can be read from them. -/
structure Forces (a : Shape) (w : List Kind) (k : Kind) : Prop where
  word : w ∈ a.words
  only : ∀ ⦃w' rest r : List Kind⦄, a.Fits w' rest → w' ++ rest = w ++ k :: r → w' = w

/-- The tokens `ks` begin a word, and with `k` after them no word can be read. -/
structure Refuses (a : Shape) (ks : List Kind) (k : Kind) : Prop where
  viable : ∃ r, ks ++ r ∈ a.words
  none : ∀ ⦃w rest r : List Kind⦄, a.Fits w rest → w ++ rest ≠ ks ++ k :: r

/-- No word can be read where the next token is `k`. -/
def Rejects (a : Shape) (k : Kind) : Prop :=
  ∀ ⦃w rest r : List Kind⦄, a.Fits w rest → w ++ rest ≠ k :: r

theorem Rejects.refuses (h : a.Rejects k) : a.Refuses [] k :=
  ⟨a.exists_word, h⟩

theorem rejects_token (h : k ≠ k₁) : (token k₁).Rejects k := by
  rintro _ rest r ⟨rfl, -⟩ heq
  exact h (List.cons.inj heq).1.symm

theorem rejects_symbol (hs : s.nullable = false) (hk : s.starts k = false) :
    ((symbol s).upTo stops).Rejects k := by
  rintro _ _ r ⟨⟨d, rfl⟩, k', r', rfl, -⟩ heq
  exact d.heads.ne hs hk heq.symm

theorem Rejects.append (ha : a.Rejects k) (hab : a.Precedes b) : (a ++ b).Rejects k := by
  intro w rest r hfit heq
  rcases hfit.exists_append hab with ⟨u, v, rfl, hu, -⟩
  rw [List.append_assoc] at heq
  exact ha hu heq

theorem Forces.append (ha : a.Forces v k₁) (hb : b.Forces w k) (hab : a.Precedes b)
    (hk : w ++ k :: r₀ = k₁ :: r₁) : (a ++ b).Forces (v ++ w) k := by
  refine ⟨mem_append.mpr ⟨v, ha.word, w, hb.word, rfl⟩, fun w' rest r hfit heq => ?_⟩
  rcases hfit.exists_append hab with ⟨u, x, rfl, hu, hx⟩
  rw [List.append_assoc, List.append_assoc] at heq
  rcases exists_cons_of_append hk r with ⟨r', hr'⟩
  -- The first part stops before the token that stands first in the second.
  obtain rfl : u = v := ha.only hu (heq.trans (congrArg (v ++ ·) hr'))
  rw [hb.only hx (List.append_cancel_left heq)]

theorem Refuses.append (ha : a.Refuses ks k) (hab : a.Precedes b) :
    (a ++ b).Refuses ks k := by
  rcases ha.viable with ⟨r, hr⟩
  rcases b.exists_word with ⟨x, hx⟩
  refine ⟨⟨r ++ x, mem_append.mpr ⟨ks ++ r, hr, x, hx, List.append_assoc ..⟩⟩, ?_⟩
  intro w rest r hfit heq
  rcases hfit.exists_append hab with ⟨u, v, rfl, hu, -⟩
  rw [List.append_assoc] at heq
  exact ha.none hu heq

theorem Forces.append_refuses (ha : a.Forces v k₁) (hb : b.Refuses ks k) (hab : a.Precedes b)
    (hk : ks ++ k :: r₀ = k₁ :: r₁) : (a ++ b).Refuses (v ++ ks) k := by
  rcases hb.viable with ⟨r, hr⟩
  refine ⟨⟨r, mem_append.mpr ⟨v, ha.word, ks ++ r, hr, (List.append_assoc ..).symm⟩⟩, ?_⟩
  intro w rest r hfit heq
  rcases hfit.exists_append hab with ⟨u, x, rfl, hu, hx⟩
  rw [List.append_assoc, List.append_assoc] at heq
  rcases exists_cons_of_append hk r with ⟨r', hr'⟩
  obtain rfl : u = v := ha.only hu (heq.trans (congrArg (v ++ ·) hr'))
  exact hb.none hx (List.append_cancel_left heq)

/-! ## Narrowing -/

/-- Where the next token is `k`, nothing of `a` is left but `b`. -/
structure Narrows (a : Shape) (k : Kind) (b : Shape) : Prop where
  words : ∀ ⦃w : List Kind⦄, w ∈ b.words → w ∈ a.words
  fits : ∀ ⦃w rest r : List Kind⦄, a.Fits w rest → w ++ rest = k :: r → b.Fits w rest

theorem Forces.narrow (hb : b.Forces w k) (hab : a.Narrows k₁ b) (hk : w ++ k :: r₀ = k₁ :: r₁) :
    a.Forces w k := by
  refine ⟨hab.words hb.word, fun w' rest r hfit heq => ?_⟩
  rcases exists_cons_of_append hk r with ⟨r', hr'⟩
  exact hb.only (hab.fits hfit (heq.trans hr')) heq

theorem Refuses.narrow (hb : b.Refuses ks k) (hab : a.Narrows k₁ b)
    (hk : ks ++ k :: r₀ = k₁ :: r₁) : a.Refuses ks k := by
  rcases hb.viable with ⟨r, hr⟩
  refine ⟨⟨r, hab.words hr⟩, fun w rest r hfit heq => ?_⟩
  rcases exists_cons_of_append hk r with ⟨r', hr'⟩
  exact hb.none (hab.fits hfit (heq.trans hr')) heq

/-- Fewer tokens may follow. -/
theorem Narrows.of_stops (h : ∀ k, stops k = true → a.stops k = true) :
    (a.upTo stops).Narrows k a where
  words _ hw := hw
  fits := by
    rintro w _ _ ⟨hw, k', r', rfl, hk'⟩ -
    exact ⟨hw, k', r', rfl, h k' hk'⟩

theorem Narrows.trans (hab : a.Narrows k b) (hbc : b.Narrows k c) : a.Narrows k c where
  words _ hw := hab.words (hbc.words hw)
  fits _ _ _ hfit heq := hbc.fits (hab.fits hfit heq) heq

/-- A shape is narrowed by its first part. -/
theorem Narrows.append (hab : a.Narrows k b) (hac : a.Precedes c) :
    (a ++ c).Narrows k (b ++ c) where
  words := by
    rintro _ ⟨u, hu, v, hv, rfl⟩
    exact ⟨u, hab.words hu, v, hv, rfl⟩
  fits := by
    intro w rest r hfit heq
    rcases hfit.exists_append hac with ⟨u, v, rfl, hu, hv⟩
    rw [List.append_assoc] at heq
    exact ⟨⟨u, (hab.fits hu heq).word, v, hv.word, rfl⟩, hv.halts⟩

theorem Narrows.left (hb : b.Rejects k) : (either a b).Narrows k a where
  words _ hw := .inl hw
  fits := by
    rintro w _ r ⟨hword, k', r', rfl, hk'⟩ heq
    rcases Bool.and_eq_true_iff.mp hk' with ⟨hka, hkb⟩
    rcases hword with hw | hw
    · exact ⟨hw, k', r', rfl, hka⟩
    · exact absurd heq (hb ⟨hw, k', r', rfl, hkb⟩)

theorem Narrows.right (ha : a.Rejects k) : (either a b).Narrows k b where
  words _ hw := .inr hw
  fits := by
    rintro w _ r ⟨hword, k', r', rfl, hk'⟩ heq
    rcases Bool.and_eq_true_iff.mp hk' with ⟨hka, hkb⟩
    rcases hword with hw | hw
    · exact absurd heq (ha ⟨hw, k', r', rfl, hka⟩)
    · exact ⟨hw, k', r', rfl, hkb⟩

/-- The phrases of a symbol that start with `k` are those of a production. -/
theorem Narrows.of_phrases (hphrase : ∀ w ∈ b.words, ∃ d : Phrase s, d.kinds = w)
    (hstops : ∀ k, stops k = true → b.stops k = true)
    (hword : ∀ (d : Phrase s) (k' : Kind) (r' r : List Kind), stops k' = true →
      d.kinds ++ k' :: r' = k :: r → d.kinds ∈ b.words) :
    ((symbol s).upTo stops).Narrows k b where
  words := hphrase
  fits := by
    rintro _ _ r ⟨⟨d, rfl⟩, k', r', rfl, hk'⟩ heq
    exact ⟨hword d k' r' r hk' heq, k', r', rfl, hstops k' hk'⟩

end Shape
end Grammar
end Offside
