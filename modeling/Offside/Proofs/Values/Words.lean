import Mathlib.Data.Int.ModEq
import Offside.Value.Arithmetic

/-!
# Words — what the operators give on integers of 64 bits

An integer of the language is a word of 64 bits, and the operators go around at both ends of its range.
This file says which word they give, by the integers that the words stand for:

- `Wraps`      : the word is congruent to an integer modulo `2 ^ 64`
- `Truncated`  : a quotient that is cut off toward zero, by what remains of the dividend
- `Gives`      : an outcome is the only word with some property
- `RingLaws`   : the laws of a commutative ring, for operations that may fail

The main statement, `arithmetic_exact`, goes through all operators and all kinds of operands.  No operator
is left without an outcome: where it gives no value, it fails with one of two errors, and only a division
of integers fails by its divisor.
-/

namespace Offside

/-! ## The word of an integer -/

/-- The word stands for the integer as far as 64 bits hold it. -/
def Wraps (z : Int) (w : Int64) : Prop :=
  w.toInt ≡ z [ZMOD 2 ^ 64]

namespace Wraps

variable {z : Int} {w w' : Int64}

theorem of_bmod (h : w.toInt = z.bmod (2 ^ 64)) : Wraps z w := by
  have hsame : z.bmod (2 ^ 64) % 2 ^ 64 = z % 2 ^ 64 := Int.bmod_emod
  rw [Wraps, h]
  exact hsame

/-- Two words with the same remainder lie in one period, so that they are equal. -/
theorem unique (h : Wraps z w) (h' : Wraps z w') : w = w' := by
  have hsame : w.toInt % 2 ^ 64 = w'.toInt % 2 ^ 64 := Int.ModEq.trans h h'.symm
  -- Both integers lie between `-2 ^ 63` and `2 ^ 63`.
  have hlow := w.le_toInt
  have hhigh := w.toInt_lt
  have hlow' := w'.le_toInt
  have hhigh' := w'.toInt_lt
  apply Int64.toInt_inj.mp
  omega

theorem iff_eq (h : Wraps z w) {other : Int64} : Wraps z other ↔ other = w := by
  constructor
  · intro hother
    exact hother.unique h
  · rintro rfl
    exact h

end Wraps

/-! ## Quotients -/

/-- The quotient is cut off toward zero: what remains is smaller than the divisor, and it is nothing or it
has the sign of the dividend. -/
def Truncated (a b q : Int) : Prop :=
  ∃ r, a = b * q + r ∧ |r| < |b| ∧ (r = 0 ∨ r.sign = a.sign)

theorem truncated_tdiv (a : Int) {b : Int} (hb : b ≠ 0) : Truncated a b (a.tdiv b) := by
  refine ⟨a.tmod b, (Int.mul_tdiv_add_tmod a b).symm, ?_, ?_⟩
  · have hlt : a.natAbs % b.natAbs < b.natAbs := Nat.mod_lt _ (Int.natAbs_pos.mpr hb)
    rw [Int.abs_eq_natAbs, Int.abs_eq_natAbs, Int.natAbs_tmod]
    exact Int.ofNat_lt.mpr hlt
  · have hsign := Int.sign_tmod a b
    by_cases hdvd : b ∣ a
    · rw [if_pos hdvd] at hsign
      exact .inl (Int.sign_eq_zero_iff_zero.mp hsign)
    · rw [if_neg hdvd] at hsign
      exact .inr hsign

/-- No other quotient leaves so little. -/
theorem Truncated.eq_tdiv {a b q : Int} (h : Truncated a b q) (hb : b ≠ 0) : q = a.tdiv b := by
  rcases h with ⟨r, ha, hlt, hsign⟩
  rw [Int.abs_eq_natAbs, Int.abs_eq_natAbs] at hlt
  have hsum : r + b * q = a := by omega
  -- The remainder lies on the side of the dividend, of which there are two.
  rcases Int.le_total 0 a with hpos | hneg
  · have hr : 0 ≤ r := by
      rcases hsign with rfl | hsign
      · exact Int.le_refl 0
      · exact Int.sign_nonneg_iff.mp (hsign ▸ Int.sign_nonneg_iff.mpr hpos)
    have hunique := (Int.tdiv_tmod_unique hpos hb).mpr ⟨hsum, hr, by omega⟩
    exact hunique.1.symm
  · have hr : r ≤ 0 := by
      rcases hsign with rfl | hsign
      · exact Int.le_refl 0
      · exact Int.sign_nonpos_iff.mp (hsign ▸ Int.sign_nonpos_iff.mpr hneg)
    have hunique := (Int.tdiv_tmod_unique' hneg hb).mpr ⟨hsum, by omega, hr⟩
    exact hunique.1.symm

/-! ## Outcomes -/

/-- The outcome is a word with the property, and there is no other such word. -/
def Gives (outcome : Except RuntimeError Value) (P : Int64 → Prop) : Prop :=
  ∃ w, outcome = .ok (.int w) ∧ ∀ other, P other ↔ other = w

theorem gives_wraps {outcome : Except RuntimeError Value} {w : Int64} {z : Int}
    (houtcome : outcome = .ok (.int w)) (hw : w.toInt = z.bmod (2 ^ 64)) :
    Gives outcome (Wraps z) :=
  ⟨w, houtcome, fun _ => (Wraps.of_bmod hw).iff_eq⟩

namespace Arithmetic

/-- A divisor that is not zero gives the quotient, but for the one that does not fit. -/
theorem div_gives {a b : Int64} (hb : b ≠ 0) (hfits : ¬(a = Int64.minValue ∧ b = -1)) :
    Gives (div.apply (.int a) (.int b)) fun q => Truncated a.toInt b.toInt q.toInt := by
  have hzero : b.toInt ≠ 0 := by
    intro h
    exact hb (Int64.toInt_inj.mp h)
  -- Of all quotients of words, only the excluded one is beyond the greatest word.
  have hquotient : (a / b).toInt = a.toInt.tdiv b.toInt := by
    by_cases ha : a = Int64.minValue
    · exact Int64.toInt_div_of_ne_right a b fun hone => hfits ⟨ha, hone⟩
    · exact Int64.toInt_div_of_ne_left a b ha
  refine ⟨a / b, ?_, fun other => ?_⟩
  · show (onIntegers .div a b).map Value.int = _
    rw [onIntegers, if_neg hb]
    rfl
  · constructor
    · intro hother
      apply Int64.toInt_inj.mp
      rw [hother.eq_tdiv hzero, hquotient]
    · rintro rfl
      rw [hquotient]
      exact truncated_tdiv a.toInt hzero

/-- Operands of two kinds, or of a kind without operators, are refused before the divisor is looked at. -/
theorem apply_of_kinds {left right : Value} (op : Arithmetic)
    (hint : ¬(left.kind = .int ∧ right.kind = .int))
    (hstr : ¬(left.kind = .str ∧ right.kind = .str)) :
    op.apply left right = .error (.unsupportedOperands op left.kind right.kind) := by
  unfold apply
  split
  · exact absurd ⟨rfl, rfl⟩ hint
  · exact absurd ⟨rfl, rfl⟩ hstr
  · rfl

theorem apply_text (op : Arithmetic) (s t : String) :
    op.apply (.str s) (.str t)
      = if op = .add then .ok (.str (s ++ t)) else .error (.unsupportedOperands op .str .str) := by
  cases op <;> rfl

end Arithmetic

theorem Sign.apply_of_kind {operand : Value} (sign : Sign) (h : operand.kind ≠ .int) :
    sign.apply operand = .error (.unsupportedOperand sign operand.kind) := by
  cases operand with
  | int n => exact absurd rfl h
  | _ => rfl

/-! ## Laws -/

/-- The laws of a commutative ring for operations on the values of integers. An operation may fail, and a
law then says that both sides fail alike. -/
structure RingLaws (sum product : Value → Value → Except RuntimeError Value)
    (opposite : Value → Except RuntimeError Value) : Prop where
  add_comm (a b : Int64) : sum (.int a) (.int b) = sum (.int b) (.int a)
  add_assoc (a b c : Int64) :
    (do sum (← sum (.int a) (.int b)) (.int c)) = (do sum (.int a) (← sum (.int b) (.int c)))
  zero_add (a : Int64) : sum (.int 0) (.int a) = .ok (.int a)
  neg_add (a : Int64) : (do sum (← opposite (.int a)) (.int a)) = .ok (.int 0)
  mul_comm (a b : Int64) : product (.int a) (.int b) = product (.int b) (.int a)
  mul_assoc (a b c : Int64) :
    (do product (← product (.int a) (.int b)) (.int c))
      = (do product (.int a) (← product (.int b) (.int c)))
  one_mul (a : Int64) : product (.int 1) (.int a) = .ok (.int a)
  mul_add (a b c : Int64) :
    (do product (.int a) (← sum (.int b) (.int c)))
      = (do sum (← product (.int a) (.int b)) (← product (.int a) (.int c)))

theorem ok_int_congr {w w' : Int64} (h : w = w') :
    (.ok (.int w) : Except RuntimeError Value) = .ok (.int w') := by
  rw [h]

/-- Sums, products and opposites never fail, so that the laws are those of words. -/
theorem Arithmetic.ringLaws : RingLaws add.apply mul.apply Sign.minus.apply where
  add_comm a b := ok_int_congr (Int64.add_comm a b)
  add_assoc a b c := ok_int_congr (Int64.add_assoc a b c)
  zero_add a := ok_int_congr (Int64.zero_add a)
  neg_add a := ok_int_congr (Int64.add_left_neg a)
  mul_comm a b := ok_int_congr (Int64.mul_comm a b)
  mul_assoc a b c := ok_int_congr (Int64.mul_assoc a b c)
  one_mul a := ok_int_congr (Int64.one_mul a)
  mul_add _ _ _ := ok_int_congr Int64.mul_add

/-! ## All operators -/

/-- Sums, differences, products and opposites of integers are the words that stand for the exact results,
and quotients are exact but for the one that does not fit, which goes around to its dividend. Texts can
only be added. All other operands are refused by their kinds, also where the divisor is zero. -/
theorem arithmetic_exact :
    (∀ a b : Int64,
      Gives (Arithmetic.add.apply (.int a) (.int b)) (Wraps (a.toInt + b.toInt))
        ∧ Gives (Arithmetic.sub.apply (.int a) (.int b)) (Wraps (a.toInt - b.toInt))
        ∧ Gives (Arithmetic.mul.apply (.int a) (.int b)) (Wraps (a.toInt * b.toInt))
        ∧ (b ≠ 0 → ¬(a = Int64.minValue ∧ b = -1) →
          Gives (Arithmetic.div.apply (.int a) (.int b)) fun q =>
            Truncated a.toInt b.toInt q.toInt))
      ∧ (∀ a : Int64, Arithmetic.div.apply (.int a) (.int 0) = .error .divisionByZero
        ∧ Gives (Sign.minus.apply (.int a)) (Wraps (-a.toInt))
        ∧ Sign.plus.apply (.int a) = .ok (.int a))
      ∧ Arithmetic.div.apply (.int Int64.minValue) (.int (-1)) = .ok (.int Int64.minValue)
      ∧ Sign.minus.apply (.int Int64.minValue) = .ok (.int Int64.minValue)
      ∧ (∀ (op : Arithmetic) (s t : String), op.apply (.str s) (.str t)
        = if op = .add then .ok (.str (s ++ t)) else .error (.unsupportedOperands op .str .str))
      ∧ (∀ (op : Arithmetic) (left right : Value), ¬(left.kind = .int ∧ right.kind = .int) →
        ¬(left.kind = .str ∧ right.kind = .str) →
          op.apply left right = .error (.unsupportedOperands op left.kind right.kind))
      ∧ (∀ (sign : Sign) (operand : Value), operand.kind ≠ .int →
        sign.apply operand = .error (.unsupportedOperand sign operand.kind))
      ∧ RingLaws Arithmetic.add.apply Arithmetic.mul.apply Sign.minus.apply := by
  refine ⟨?_, ?_, ?_, ?_, Arithmetic.apply_text, ?_, ?_, Arithmetic.ringLaws⟩
  · intro a b
    have hsum : Gives (Arithmetic.add.apply (.int a) (.int b)) _ :=
      gives_wraps rfl (Int64.toInt_add a b)
    have hdifference : Gives (Arithmetic.sub.apply (.int a) (.int b)) _ :=
      gives_wraps rfl (Int64.toInt_sub a b)
    have hproduct : Gives (Arithmetic.mul.apply (.int a) (.int b)) _ :=
      gives_wraps rfl (Int64.toInt_mul a b)
    exact ⟨hsum, hdifference, hproduct, Arithmetic.div_gives⟩
  · intro a
    exact ⟨rfl, gives_wraps rfl (Int64.toInt_neg a), rfl⟩
  · exact ok_int_congr Int64.minValue_div_neg_one
  · exact ok_int_congr (by decide)
  · intro op left right hint hstr
    exact op.apply_of_kinds hint hstr
  · intro sign operand hkind
    exact sign.apply_of_kind hkind

/-- The least integer by ten, a text by zero, and the opposite of a truth value. -/
theorem arithmetic_exact_at_edges :
    (∃ q : Int64, Arithmetic.div.apply (.int Int64.minValue) (.int 10) = .ok (.int q)
      ∧ Truncated Int64.minValue.toInt 10 q.toInt)
      ∧ Arithmetic.div.apply (.str "a") (.int 0) = .error (.unsupportedOperands .div .str .int)
      ∧ Sign.minus.apply (.bool true) = .error (.unsupportedOperand .minus .bool) := by
  rcases arithmetic_exact with ⟨hwords, -, -, -, -, hkinds, hkind, -⟩
  rcases (hwords Int64.minValue 10).2.2.2 (by decide) (by decide) with ⟨q, hq, honly⟩
  have htruncated := (honly q).mpr rfl
  exact ⟨⟨q, hq, htruncated⟩, hkinds .div (.str "a") (.int 0) (by decide) (by decide),
    hkind .minus (.bool true) (by decide)⟩

end Offside
