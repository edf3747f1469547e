import Reconciler.Number.Double

/-!
# Exact magnitudes

A finite magnitude is a significand of up to fifty-three bits, shifted by a number of places. Its
bits are the number of places times `Double.fractions`, and the significand, so every magnitude is
found again from its units (`Double.nearest_units_mul`). Rounding changes nothing of a number that
some magnitude stands for; all natural numbers of up to fifty-three bits are such
(`Double.units_nearest_of_lt`).
-/

namespace Reconciler.Double

/-! ## Significands -/

/-- A significand may stand for a magnitude when it is shifted so far: it has at most fifty-three
bits, and as many unless it is not shifted. -/
structure Significand (places j : Nat) : Prop where
  lt : j < 2 * fractions
  normal : places = 0 ∨ fractions ≤ j

/-- Every magnitude is a shifted significand. -/
theorem exists_significand (b : Nat) :
    ∃ places j, Significand places j ∧ b = places * fractions + j := by
  unfold fractions
  refine ⟨b / 0x10000000000000 - 1, b - (b / 0x10000000000000 - 1) * 0x10000000000000, ?_, ?_⟩
  · constructor <;> unfold fractions <;> omega
  · omega

namespace Significand

variable {places j : Nat}

/-- The places and the significand can be read from the bits. -/
theorem places_eq (h : Significand places j) :
    (places * fractions + j) / fractions - 1 = places := by
  have hlt := h.lt
  rcases h.normal with hzero | hle
  · unfold fractions at *
    omega
  · unfold fractions at *
    omega

/-- The bits of a shifted significand stand for so many units. -/
theorem units_eq (h : Significand places j) :
    units (places * fractions + j) = j <<< places := by
  have hj : places * fractions + j - places * fractions = j := Nat.add_sub_cancel_left _ _
  simp only [units, h.places_eq, hj]

/-- The places can be read from the units. -/
theorem log2_eq (h : Significand places j) : Nat.log2 (j <<< places) - 52 = places := by
  have hlt := h.lt
  rw [Nat.shiftLeft_eq]
  rcases h.normal with rfl | hle
  · have hsmall : Nat.log2 (j * 2 ^ 0) ≤ 52 := by
      by_cases hj : j = 0
      · simp [hj]
      · have hbound : j * 2 ^ 0 < 2 ^ 53 := by
          unfold fractions at hlt
          omega
        have hlog := (Nat.log2_lt (by omega)).2 hbound
        omega
    omega
  · have hpos : 0 < 2 ^ places := Nat.two_pow_pos places
    have hlog : Nat.log2 (j * 2 ^ places) = 52 + places := by
      have hfractions : fractions = 2 ^ 52 := rfl
      rw [hfractions] at hle hlt
      have hne : j * 2 ^ places ≠ 0 := by
        have hj : 0 < j := by omega
        exact Nat.ne_of_gt (Nat.mul_pos hj hpos)
      rw [Nat.log2_eq_iff hne, Nat.pow_add]
      constructor
      · exact Nat.mul_le_mul_right _ hle
      · have htop : 2 ^ (52 + places + 1) = 2 * 2 ^ 52 * 2 ^ places := by
          rw [Nat.pow_add_one, Nat.pow_add]
          omega
        rw [htop]
        exact Nat.mul_lt_mul_of_pos_right hlt hpos
    omega

end Significand

/-! ## Rounding what is exact -/

/-- A whole quotient is rounded to itself. -/
theorem roundHalfEven_mul (q : Nat) {den : Nat} (hden : 0 < den) :
    roundHalfEven (q * den) den = q := by
  have hdiv : q * den / den = q := Nat.mul_div_cancel q hden
  have hmod : q * den % den = 0 := Nat.mul_mod_left q den
  simp [roundHalfEven, hdiv, hmod, hden]

/-- A shifted significand is rounded to the magnitude that it is, over any denominator. -/
theorem Significand.nearest_eq {places j : Nat} (h : Significand places j) {den : Nat}
    (hden : 0 < den) (finite : places * fractions + j ≤ infinityBits) :
    nearest ((j <<< places) * den) den = places * fractions + j := by
  have hdiv : (j <<< places) * den / den = j <<< places := Nat.mul_div_cancel _ hden
  have hshift : 0 < den <<< places := by
    rw [Nat.shiftLeft_eq]
    exact Nat.mul_pos hden (Nat.two_pow_pos places)
  have hwhole : (j <<< places) * den = j * (den <<< places) := by
    rw [Nat.shiftLeft_eq, Nat.shiftLeft_eq, Nat.mul_right_comm, Nat.mul_assoc]
  unfold nearest
  simp only [hdiv, h.log2_eq]
  rw [hwhole, roundHalfEven_mul j hshift, Nat.min_eq_left finite]

/-- A magnitude is the nearest one to the units that it stands for. -/
theorem nearest_units_mul {b den : Nat} (hb : b ≤ infinityBits) (hden : 0 < den) :
    nearest (units b * den) den = b := by
  obtain ⟨places, j, h, rfl⟩ := exists_significand b
  rw [h.units_eq, h.nearest_eq hden hb]

/-- A natural number of up to fifty-three bits is a finite magnitude. -/
theorem exists_units_eq {n : Nat} (hn : n < 2 * fractions) :
    ∃ b, b < infinityBits ∧ units b = n * one := by
  by_cases hzero : n = 0
  · subst hzero
    exact ⟨0, by decide, by decide⟩
  · have hfractions : fractions = 2 ^ 52 := rfl
    have hlow : 2 ^ Nat.log2 n ≤ n := Nat.log2_self_le hzero
    have hhigh : n < 2 ^ (Nat.log2 n + 1) := Nat.lt_log2_self
    have hlog : Nat.log2 n < 53 := (Nat.log2_lt hzero).2 (by omega)
    -- shifted to the left as far as it goes, the number has all of the fifty-three bits
    have hsplit : 2 ^ Nat.log2 n * 2 ^ (52 - Nat.log2 n) = fractions := by
      rw [← Nat.pow_add, hfractions]
      congr 1
      omega
    have hpos : 0 < 2 ^ (52 - Nat.log2 n) := Nat.two_pow_pos _
    have hle : fractions ≤ n * 2 ^ (52 - Nat.log2 n) := by
      rw [← hsplit]
      exact Nat.mul_le_mul_right _ hlow
    have hlt : n * 2 ^ (52 - Nat.log2 n) < 2 * fractions := by
      have htop : 2 * fractions = 2 ^ (Nat.log2 n + 1) * 2 ^ (52 - Nat.log2 n) := by
        rw [Nat.pow_add_one, Nat.mul_right_comm, hsplit, Nat.mul_comm]
      rw [htop]
      exact Nat.mul_lt_mul_of_pos_right hhigh hpos
    have h : Significand (1022 + Nat.log2 n) (n * 2 ^ (52 - Nat.log2 n)) := ⟨hlt, .inr hle⟩
    refine ⟨(1022 + Nat.log2 n) * fractions + n * 2 ^ (52 - Nat.log2 n), ?_, ?_⟩
    · unfold fractions at *
      unfold infinityBits
      omega
    · have hexponent : 52 - Nat.log2 n + (1022 + Nat.log2 n) = 1074 := by omega
      have hone : one = 1 <<< (52 - Nat.log2 n + (1022 + Nat.log2 n)) := by
        rw [hexponent]
        rfl
      rw [h.units_eq, hone, Nat.one_shiftLeft, Nat.shiftLeft_eq, Nat.mul_assoc, ← Nat.pow_add]

/-- No number of up to fifty-three bits is changed when it is rounded. -/
theorem units_nearest_of_lt {n : Nat} (hn : n < 2 * fractions) :
    nearest (n * one) 1 < infinityBits ∧ units (nearest (n * one) 1) = n * one := by
  obtain ⟨b, hb, hunits⟩ := exists_units_eq hn
  have hnearest : nearest (n * one) 1 = b := by
    have hself := nearest_units_mul (Nat.le_of_lt hb) Nat.one_pos
    rwa [hunits, Nat.mul_one] at hself
  rw [hnearest]
  exact ⟨hb, hunits⟩

/-! ## Signs -/

/-- What is rounded goes no further than to the infinite magnitude. -/
theorem nearest_le (num den : Nat) : nearest num den ≤ infinityBits := by
  unfold nearest
  exact Nat.min_le_right _ _

/-- The magnitude of a number with a sign can be read from its bits. -/
theorem magnitude_ofMagnitude {b : Nat} (h : b ≤ infinityBits) (negative : Bool) :
    (ofMagnitude negative b).magnitude = b := by
  unfold infinityBits at h
  unfold magnitude ofMagnitude signBit
  cases negative <;> simp <;> omega

theorem isNegative_ofMagnitude {b : Nat} (h : b ≤ infinityBits) (negative : Bool) :
    (ofMagnitude negative b).isNegative = negative := by
  unfold infinityBits at h
  unfold isNegative ofMagnitude signBit
  cases negative <;> simp <;> omega

/-- A magnitude up to the infinite one is that of a number. -/
theorem isNaN_ofMagnitude {b : Nat} (h : b ≤ infinityBits) (negative : Bool) :
    (ofMagnitude negative b).isNaN = false := by
  simpa [isNaN, magnitude_ofMagnitude h] using h

/-! ## Whole numbers -/

/-- A double is a whole number, of this sign even if it is zero. -/
structure IsWhole (x : Double) (negative : Bool) (n : Nat) : Prop where
  sign : x.isNegative = negative
  finite : x.magnitude < infinityBits
  units_eq : units x.magnitude = n * one

theorem IsWhole.ofMagnitude {b n : Nat} (hb : b < infinityBits) (hunits : units b = n * one)
    (negative : Bool) : (Double.ofMagnitude negative b).IsWhole negative n := by
  have hmagnitude := magnitude_ofMagnitude (Nat.le_of_lt hb) negative
  constructor
  · exact isNegative_ofMagnitude (Nat.le_of_lt hb) negative
  · rwa [hmagnitude]
  · rwa [hmagnitude]

/-- A product and a sum of up to fifty-three bits are not rounded. -/
theorem units_step {b n base d : Nat} (hunits : units b = n * one)
    (hsmall : n * base + d < 2 * fractions) :
    addBits (scaleBits b base) d < infinityBits ∧
      units (addBits (scaleBits b base) d) = (n * base + d) * one := by
  have hproduct : units (scaleBits b base) = n * base * one := by
    have hexact := units_nearest_of_lt (n := n * base) (by omega)
    rw [scaleBits, hunits, Nat.mul_right_comm]
    exact hexact.2
  rw [addBits, hproduct, ← Nat.add_mul]
  exact units_nearest_of_lt hsmall

theorem le_foldl_digits {base : Nat} (hbase : 0 < base) (ds : List Nat) (n : Nat) :
    n ≤ ds.foldl (fun n d => n * base + d) n := by
  induction ds generalizing n with
  | nil => exact Nat.le_refl n
  | cons d ds ih =>
    have hstep : n ≤ n * base + d := Nat.le_add_right_of_le (Nat.le_mul_of_pos_right n hbase)
    exact Nat.le_trans hstep (ih _)

/-- Digits that make up no more than fifty-three bits are put together without rounding. -/
theorem units_fold {base : Nat} (hbase : 0 < base) {ds : List Nat} {b n : Nat}
    (hb : b < infinityBits) (hunits : units b = n * one)
    (hsmall : ds.foldl (fun n d => n * base + d) n < 2 * fractions) :
    ds.foldl (fun b d => addBits (scaleBits b base) d) b < infinityBits ∧
      units (ds.foldl (fun b d => addBits (scaleBits b base) d) b) =
        ds.foldl (fun n d => n * base + d) n * one := by
  induction ds generalizing b n with
  | nil => exact ⟨hb, hunits⟩
  | cons d ds ih =>
    -- no number on the way is larger than the last one
    have hstep : n * base + d < 2 * fractions :=
      Nat.lt_of_le_of_lt (le_foldl_digits hbase ds _) hsmall
    obtain ⟨hfinite, hexact⟩ := units_step hunits hstep
    exact ih hfinite hexact hsmall

end Reconciler.Double
