import Mathlib.Data.List.Basic
import Reconciler.Number.Decimal
import Reconciler.Proofs.Magnitudes

/-!
# The text of a double tells the double

No two doubles have the same text (`Double.text_injective`), except that all NaNs share one. From
the text of a decimal number its digits before and after the point can be read, and what is read
from them is the same magnitude again: the shortest decimal is only taken if it reads back, and the
exact one always does.
-/

namespace Reconciler

namespace Decimal

/-! ## Reading back -/

/-- Powers of ten are powers of five, shifted. -/
theorem five_mul_shiftLeft (n : Nat) : Nat.pow 5 n * (1 <<< n) = ten n := by
  rw [Nat.one_shiftLeft]
  exact (Nat.mul_pow 5 2 n).symm

theorem ten_succ (n : Nat) : ten (n + 1) = 10 * ten n :=
  (Nat.pow_succ 10 n).trans (Nat.mul_comm _ _)

theorem ten_pos (n : Nat) : 0 < ten n := by
  induction n with
  | zero => exact Nat.one_pos
  | succ n ih =>
    rw [ten_succ]
    omega

/-- What a grid offers for a magnitude reads back. -/
theorem nearest_of_onGrid? {b : Nat} {e : Int} {d : Decimal} (h : onGrid? b e = some d) :
    d.nearest = b := by
  unfold onGrid? at h
  have hreads := List.find?_some h
  exact beq_iff_eq.1 hreads

/-- A magnitude written out exactly reads back. -/
theorem nearest_exact {b : Nat} (hb : b ≤ Double.infinityBits) : (exact b).nearest = b := by
  have hone : Double.one = 1 <<< 1074 := rfl
  have hexponent : (-1074 : Int) = -((1074 : Nat) : Int) := rfl
  rw [exact, hexponent]
  -- the grid is as fine as the units are, and how fine that is does not matter
  generalize 1074 = n at hone ⊢
  have hzero : (-(n : Int)).toNat = 0 := by omega
  have hplaces : (-(-(n : Int))).toNat = n := by omega
  have hten : ten 0 = 1 := rfl
  rw [nearest, hzero, hplaces, hone, hten, Nat.mul_one, Nat.mul_assoc, five_mul_shiftLeft]
  exact Double.nearest_units_mul hb (ten_pos n)

/-- The decimal number that is written for a magnitude reads back. -/
theorem nearest_shortest {b : Nat} (hb : b ≤ Double.infinityBits) : (shortest b).nearest = b := by
  unfold shortest
  dsimp only
  generalize hfound : List.findSome? _ _ = found
  cases found with
  | none => exact nearest_exact hb
  | some d =>
    obtain ⟨i, -, hd⟩ := List.exists_of_findSome?_eq_some hfound
    exact nearest_of_onGrid? hd

/-! ## Text and digits -/

theorem length_lastDigits (n m : Nat) : (lastDigits n m).length = n := by
  induction n generalizing m with
  | zero => rfl
  | succ n ih =>
    rw [lastDigits, List.length_append, ih]
    rfl

/-- The last digits tell what is left of a number by so many powers of ten. -/
theorem mod_eq_of_lastDigits_eq {n m k : Nat} (h : lastDigits n m = lastDigits n k) :
    m % ten n = k % ten n := by
  induction n generalizing m k with
  | zero => exact (Nat.mod_one m).trans (Nat.mod_one k).symm
  | succ n ih =>
    rw [lastDigits, lastDigits] at h
    have hparts := List.append_inj h (by rw [length_lastDigits, length_lastDigits])
    have hrest := ih hparts.1
    have hdigit : (m % 10).digitChar = (k % 10).digitChar := List.singleton_inj.1 hparts.2
    have hlast : m % 10 = k % 10 := by
      have hm := Nat.toNat_digitChar_sub_48_of_lt_ten (Nat.mod_lt m (by decide : 0 < 10))
      have hk := Nat.toNat_digitChar_sub_48_of_lt_ten (Nat.mod_lt k (by decide : 0 < 10))
      rw [← hm, ← hk, hdigit]
    rw [ten_succ, Nat.mod_mul, Nat.mod_mul, hlast, hrest]

theorem toDigits_injective {m k : Nat} (h : Nat.toDigits 10 m = Nat.toDigits 10 k) : m = k := by
  rw [← Nat.ofDigitChars_ten_toDigits (n := m), h, Nat.ofDigitChars_ten_toDigits]

/-- Whether a character may stand in the text of a decimal number. -/
def isDecimalChar (c : Char) : Bool := c.isDigit || c == '.'

theorem isDigit_digitChar {n : Nat} (h : n < 10) : n.digitChar.isDigit = true := by
  have hmem : n.digitChar ∈ Nat.toDigits 10 n := by
    rw [Nat.toDigits_of_lt_base h]
    exact List.mem_singleton.2 rfl
  exact Nat.isDigit_of_mem_toDigits (by decide) (by decide) hmem

theorem isDigit_of_mem_lastDigits {n m : Nat} {c : Char} (h : c ∈ lastDigits n m) :
    c.isDigit = true := by
  induction n generalizing m with
  | zero => cases h
  | succ n ih =>
    rw [lastDigits, List.mem_append] at h
    rcases h with hrest | hlast
    · exact ih hrest
    · rw [List.mem_singleton.1 hlast]
      exact isDigit_digitChar (Nat.mod_lt m (by decide))

theorem isDigit_of_mem_toDigits {m : Nat} {c : Char} (h : c ∈ Nat.toDigits 10 m) :
    c.isDigit = true :=
  Nat.isDigit_of_mem_toDigits (by decide) (by decide) h

/-- The point is no digit. -/
theorem not_mem_point {cs : List Char} (h : ∀ c ∈ cs, c.isDigit = true) : '.' ∉ cs := by
  intro hmem
  have hdigit := h '.' hmem
  revert hdigit
  decide

/-- The text of a decimal number has digits and a point in it, and nothing else. -/
theorem isDecimalChar_of_mem_text {d : Decimal} {c : Char} (h : c ∈ d.text.toList) :
    isDecimalChar c = true := by
  have hdigit : ∀ {c : Char}, c.isDigit = true → isDecimalChar c = true := by
    intro c hc
    simp [isDecimalChar, hc]
  unfold text at h
  split at h
  · rw [String.toList_ofList, List.mem_append, List.mem_cons] at h
    rcases h with hwhole | rfl | hplaces
    · exact hdigit (isDigit_of_mem_toDigits hwhole)
    · rfl
    · exact hdigit (isDigit_of_mem_lastDigits hplaces)
  · rw [String.toList_ofList] at h
    exact hdigit (isDigit_of_mem_toDigits h)

/-- Decimal numbers of one text read as one magnitude. -/
theorem nearest_eq_of_text_eq {d e : Decimal} (h : d.text = e.text) : d.nearest = e.nearest := by
  by_cases hd : d.exponent < 0 <;> by_cases he : e.exponent < 0
  · -- digits before the point, and places after it
    simp only [text, hd, he, if_true, String.ofList_inj] at h
    have hparts := (List.append_cons_inj_of_notMem (not_mem_point fun _ => isDigit_of_mem_toDigits)
      (not_mem_point fun _ => isDigit_of_mem_lastDigits)).1 h
    rcases hparts with ⟨hwhole, -, hplaces⟩
    have hlength := congrArg List.length hplaces
    rw [length_lastDigits, length_lastDigits] at hlength
    have hexponent : d.exponent = e.exponent := by omega
    rw [hexponent] at hwhole hplaces
    have hquotient := toDigits_injective hwhole
    have hremainder := mod_eq_of_lastDigits_eq hplaces
    rw [Nat.mod_mod, Nat.mod_mod] at hremainder
    have hdigits : d.digits = e.digits := by
      rw [← Nat.div_add_mod d.digits (ten (-e.exponent).toNat), hquotient, hremainder,
        Nat.div_add_mod]
    rw [nearest, nearest, hdigits, hexponent]
  · -- one of the texts has a point in it, and the other one has none
    simp only [text, hd, he, if_true, if_false, String.ofList_inj] at h
    have hpoint : '.' ∈ Nat.toDigits 10 (e.digits * ten e.exponent.toNat) := by
      rw [← h]
      simp
    exact absurd hpoint (not_mem_point fun _ => isDigit_of_mem_toDigits)
  · simp only [text, hd, he, if_true, if_false, String.ofList_inj] at h
    have hpoint : '.' ∈ Nat.toDigits 10 (d.digits * ten d.exponent.toNat) := by
      rw [h]
      simp
    exact absurd hpoint (not_mem_point fun _ => isDigit_of_mem_toDigits)
  · -- whole numbers
    simp only [text, hd, he, if_false, String.ofList_inj] at h
    have hwhole := toDigits_injective h
    have hd' : (-d.exponent).toNat = 0 := by omega
    have he' : (-e.exponent).toNat = 0 := by omega
    rw [nearest, nearest, hwhole, hd', he']

end Decimal

namespace Double

/-! ## Signs and magnitudes -/

/-- A double is its sign and its magnitude. -/
theorem eq_of_magnitude_eq {x y : Double} (hsign : x.isNegative = y.isNegative)
    (hmagnitude : x.magnitude = y.magnitude) : x = y := by
  rcases x with ⟨x⟩
  rcases y with ⟨y⟩
  have hx := x.toNat_lt
  have hy := y.toNat_lt
  unfold isNegative signBit at hsign
  unfold magnitude signBit at hmagnitude
  rw [decide_eq_decide] at hsign
  simp only at hsign hmagnitude
  have hbits : x.toNat = y.toNat := by omega
  rw [UInt64.toNat_inj.1 hbits]

/-- The text of a magnitude. -/
def magnitudeText (b : Nat) : String :=
  if b = infinityBits then "inf" else if b = 0 then "0" else (Decimal.shortest b).text

/-- The text of a number is its sign, if that is minus, and the text of its magnitude. -/
theorem text_of_not_isNaN {x : Double} (hx : x.isNaN = false) :
    x.text = (if x.isNegative then "-" else "") ++ magnitudeText x.magnitude := by
  unfold text magnitudeText isInfinite isZero
  simp only [hx, Bool.false_eq_true, if_false, beq_iff_eq]
  split <;> simp

/-- The decimal number that is written for a finite magnitude. -/
theorem exists_decimal {b : Nat} (hb : b < infinityBits) :
    ∃ d : Decimal, magnitudeText b = d.text ∧ d.nearest = b := by
  by_cases hzero : b = 0
  · subst hzero
    exact ⟨⟨0, 0⟩, by decide, by decide⟩
  · refine ⟨Decimal.shortest b, ?_, Decimal.nearest_shortest (Nat.le_of_lt hb)⟩
    rw [magnitudeText, if_neg (Nat.ne_of_lt hb), if_neg hzero]

/-- No finite magnitude is written as the infinite one. -/
theorem magnitudeText_ne_inf {b : Nat} (hb : b < infinityBits) : magnitudeText b ≠ "inf" := by
  intro h
  obtain ⟨d, htext, -⟩ := exists_decimal hb
  have hmem : 'i' ∈ d.text.toList := by
    rw [← htext, h]
    decide
  have hdecimal := Decimal.isDecimalChar_of_mem_text hmem
  revert hdecimal
  decide

/-- No magnitude has a sign in its text. -/
theorem minus_not_mem_magnitudeText {b : Nat} (hb : b ≤ infinityBits) :
    '-' ∉ (magnitudeText b).toList := by
  intro hmem
  rcases Nat.lt_or_eq_of_le hb with hlt | rfl
  · obtain ⟨d, htext, -⟩ := exists_decimal hlt
    rw [htext] at hmem
    have hdecimal := Decimal.isDecimalChar_of_mem_text hmem
    revert hdecimal
    decide
  · revert hmem
    decide

theorem magnitudeText_injective {b c : Nat} (hb : b ≤ infinityBits) (hc : c ≤ infinityBits)
    (h : magnitudeText b = magnitudeText c) : b = c := by
  have hinf : magnitudeText infinityBits = "inf" := rfl
  rcases Nat.lt_or_eq_of_le hb with hb | rfl <;> rcases Nat.lt_or_eq_of_le hc with hc | rfl
  · obtain ⟨d, hd, hdb⟩ := exists_decimal hb
    obtain ⟨e, he, hec⟩ := exists_decimal hc
    rw [← hdb, ← hec]
    apply Decimal.nearest_eq_of_text_eq
    rw [← hd, ← he, h]
  · rw [hinf] at h
    exact absurd h (magnitudeText_ne_inf hb)
  · rw [hinf] at h
    exact absurd h.symm (magnitudeText_ne_inf hc)
  · rfl

/-- Numbers of one text are one. -/
theorem text_injective {x y : Double} (hx : x.isNaN = false) (hy : y.isNaN = false)
    (h : x.text = y.text) : x = y := by
  have hbx : x.magnitude ≤ infinityBits := by simpa [isNaN] using hx
  have hby : y.magnitude ≤ infinityBits := by simpa [isNaN] using hy
  rw [text_of_not_isNaN hx, text_of_not_isNaN hy] at h
  have hminus : ∀ {b c : Nat}, c ≤ infinityBits →
      "-" ++ magnitudeText b ≠ "" ++ magnitudeText c := by
    intro b c hc heq
    apply minus_not_mem_magnitudeText hc
    rw [String.empty_append] at heq
    rw [← heq, String.toList_append]
    simp
  cases hsx : x.isNegative <;> cases hsy : y.isNegative <;> rw [hsx, hsy] at h
  · exact eq_of_magnitude_eq (hsx.trans hsy.symm)
      (magnitudeText_injective hbx hby ((String.append_right_inj _).1 h))
  · exact absurd h.symm (hminus hbx)
  · exact absurd h (hminus hby)
  · exact eq_of_magnitude_eq (hsx.trans hsy.symm)
      (magnitudeText_injective hbx hby ((String.append_right_inj _).1 h))

end Double

end Reconciler
