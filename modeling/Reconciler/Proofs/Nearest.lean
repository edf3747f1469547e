import Mathlib.Data.Nat.Dist
import Mathlib.Order.Monotone.Basic
import Reconciler.Proofs.Magnitudes

/-!
# The nearest magnitude

Which magnitude is the nearest one to a number is said here without any rounding: none of the others
is closer, and of two that are equally close it is the one with even bits. `Double.nearest` finds
this magnitude and no other one does (`Double.isNearest_iff`). The infinite magnitude counts as two
to the power of 1024, which comes next after the largest finite one.

The nearest magnitude to a whole number is a whole number again, so that rounding can be seen on
natural numbers alone: `Double.rounded` keeps the first fifty-three bits of a number. As long as
nothing is too large, this is what the units of the nearest magnitude make up
(`Double.units_nearest`).
-/

namespace Reconciler.Double

/-! ## Magnitudes in order -/

/-- The next magnitude has one more of the same shifted units. -/
theorem Significand.units_succ {places j : Nat} (h : Significand places j) :
    units (places * fractions + j + 1) = (j + 1) <<< places := by
  by_cases hlast : j + 1 < 2 * fractions
  · have hnext : Significand places (j + 1) := by
      constructor
      · exact hlast
      · exact h.normal.imp_right fun hle => Nat.le_succ_of_le hle
    rw [Nat.add_assoc, hnext.units_eq]
  · -- after the last significand of these places comes the first one of the next
    have hlt := h.lt
    have hj : j + 1 = 2 * fractions := by omega
    have hnext : Significand (places + 1) fractions := ⟨by decide, .inr (Nat.le_refl _)⟩
    have hbits : places * fractions + j + 1 = (places + 1) * fractions + fractions := by
      rw [Nat.add_assoc, hj, Nat.succ_mul places, Nat.two_mul, Nat.add_assoc]
    rw [hbits, hnext.units_eq, hj, Nat.shiftLeft_succ, Nat.shiftLeft_eq, Nat.shiftLeft_eq,
      Nat.mul_assoc]

theorem units_lt_succ (b : Nat) : units b < units (b + 1) := by
  obtain ⟨places, j, h, rfl⟩ := exists_significand b
  rw [h.units_succ, h.units_eq, Nat.shiftLeft_eq, Nat.shiftLeft_eq]
  exact Nat.mul_lt_mul_of_pos_right (Nat.lt_succ_self j) (Nat.two_pow_pos places)

/-- More bits stand for more units. -/
theorem units_strictMono : StrictMono units := strictMono_nat_of_lt_succ units_lt_succ

/-- The distance of the magnitudes that are next to so many units. -/
def gap (n : Nat) : Nat := 1 <<< (n.log2 - 52)

theorem gap_pos (n : Nat) : 0 < gap n := by
  rw [gap, Nat.one_shiftLeft]
  exact Nat.two_pow_pos _

/-- What is below a number in whole gaps is a significand. -/
theorem significand_div_gap (n : Nat) : Significand (n.log2 - 52) (n / gap n) := by
  rw [gap, Nat.one_shiftLeft]
  have hfractions : fractions = 2 ^ 52 := rfl
  by_cases hzero : n = 0
  · subst hzero
    exact ⟨by decide, .inl rfl⟩
  · have hlow : 2 ^ n.log2 ≤ n := Nat.log2_self_le hzero
    have hhigh : n < 2 ^ (n.log2 + 1) := Nat.lt_log2_self
    constructor
    · rw [Nat.div_lt_iff_lt_mul (Nat.two_pow_pos _)]
      refine Nat.lt_of_lt_of_le hhigh ?_
      have htop : 2 * fractions = 2 ^ 53 := rfl
      rw [htop, ← Nat.pow_add]
      exact Nat.pow_le_pow_right (by decide) (by omega)
    · by_cases hsmall : n.log2 ≤ 52
      · exact .inl (by omega)
      · right
        rw [Nat.le_div_iff_mul_le (Nat.two_pow_pos _), hfractions, ← Nat.pow_add]
        have hlog : 52 + (n.log2 - 52) = n.log2 := by omega
        rwa [hlog]

/-! ## Rounding -/

/-- Rounding goes down if what is left is less than half, or if it is half and the quotient is even.
Otherwise it goes up. -/
theorem roundHalfEven_cases (num den : Nat) :
    (roundHalfEven num den = num / den ∧
        (2 * (num % den) < den ∨ 2 * (num % den) = den ∧ num / den % 2 = 0)) ∨
      (roundHalfEven num den = num / den + 1 ∧
        (den < 2 * (num % den) ∨ 2 * (num % den) = den ∧ num / den % 2 = 1)) := by
  unfold roundHalfEven
  dsimp only
  split
  · next hless => exact .inl ⟨rfl, .inl hless⟩
  · split
    · next hmore => exact .inr ⟨rfl, .inl hmore⟩
    · have hhalf : 2 * (num % den) = den := by omega
      by_cases heven : num / den % 2 = 0
      · exact .inl ⟨by omega, .inr ⟨hhalf, heven⟩⟩
      · exact .inr ⟨by omega, .inr ⟨hhalf, by omega⟩⟩

/-- The bits of the last magnitude that is no more than a number of units, if it were not for the
largest one. -/
def floorBits (num : Nat) : Nat := (num.log2 - 52) * fractions + num / gap num

/-- What the last magnitude up to a number stands for, and the one after it. -/
theorem units_floorBits (num : Nat) :
    units (floorBits num) = gap num * (num / gap num) ∧
      units (floorBits num + 1) = gap num * (num / gap num) + gap num := by
  have h := significand_div_gap num
  have hshift : ∀ j, j <<< (num.log2 - 52) = gap num * j := by
    intro j
    rw [gap, Nat.shiftLeft_eq, Nat.one_shiftLeft, Nat.mul_comm]
  rw [floorBits, h.units_eq, h.units_succ, hshift, hshift, Nat.mul_succ]
  exact ⟨rfl, rfl⟩

theorem nearest_one (num : Nat) :
    nearest num 1 =
      min ((num.log2 - 52) * fractions + roundHalfEven num (gap num)) infinityBits := by
  simp only [nearest, gap, Nat.div_one]

/-- Rounding takes the last magnitude up to a number or the one after it, whichever is closer, and
the even one if neither is. -/
theorem nearest_cases (num : Nat) :
    (nearest num 1 = min (floorBits num) infinityBits ∧
        (2 * (num % gap num) < gap num ∨
          2 * (num % gap num) = gap num ∧ floorBits num % 2 = 0)) ∨
      (nearest num 1 = min (floorBits num + 1) infinityBits ∧
        (gap num < 2 * (num % gap num) ∨
          2 * (num % gap num) = gap num ∧ floorBits num % 2 = 1)) := by
  have hparity : (num.log2 - 52) * fractions % 2 = 0 := by
    have hfractions : fractions = 2 * 0x8000000000000 := rfl
    rw [hfractions, Nat.mul_left_comm]
    exact Nat.mul_mod_right 2 _
  rw [nearest_one, floorBits]
  rcases roundHalfEven_cases num (gap num) with ⟨hround, hdown⟩ | ⟨hround, hup⟩
  · left
    rw [hround]
    exact ⟨rfl, by omega⟩
  · right
    rw [hround, ← Nat.add_assoc]
    exact ⟨rfl, by omega⟩

/-- The magnitude with bits `b` is the nearest one to a number of units: no magnitude is closer, and
none is as close unless the bits are even. -/
structure IsNearest (b num : Nat) : Prop where
  le : b ≤ infinityBits
  closest : ∀ c ≤ infinityBits, (units b).dist num ≤ (units c).dist num
  even : ∀ c ≤ infinityBits, c ≠ b → (units c).dist num = (units b).dist num → b % 2 = 0

/-- A magnitude is the nearest one if every other one is farther, or as far and it is even. -/
theorem IsNearest.of_dist {b num : Nat} (hb : b ≤ infinityBits)
    (h : ∀ c ≤ infinityBits, c ≠ b →
      (units b).dist num < (units c).dist num ∨
        (units b).dist num = (units c).dist num ∧ b % 2 = 0) : IsNearest b num := by
  refine ⟨hb, ?_, ?_⟩
  · intro c hc
    by_cases hne : c = b
    · rw [hne]
    · have hc := h c hc hne
      omega
  · intro c hc hne hdist
    have hc := h c hc hne
    omega

/-- Rounding finds the nearest magnitude. -/
theorem isNearest_nearest (num : Nat) : IsNearest (nearest num 1) num := by
  obtain ⟨hbelow, habove⟩ := units_floorBits num
  have hnum : gap num * (num / gap num) + num % gap num = num := Nat.div_add_mod num (gap num)
  have hless : num % gap num < gap num := Nat.mod_lt num (gap_pos num)
  have hrounded := nearest_cases num
  generalize floorBits num = below at hbelow habove hrounded
  by_cases hlarge : infinityBits ≤ below
  · -- all magnitudes are below the number, and the infinite one is the last of them
    have hinfinite : nearest num 1 = infinityBits := by omega
    have htop := units_strictMono.monotone hlarge
    rw [hinfinite]
    refine .of_dist (Nat.le_refl _) ?_
    intro c hc hne
    have hlt : units c < units infinityBits := units_strictMono (by omega)
    unfold Nat.dist
    omega
  · rcases hrounded with ⟨hnearest, hdown⟩ | ⟨hnearest, hup⟩
    · have hbits : nearest num 1 = below := by omega
      rw [hbits]
      refine .of_dist (by omega) ?_
      intro c _ hne
      rcases Nat.lt_or_gt_of_ne hne with hlt | hgt
      · have hunits := units_strictMono hlt
        unfold Nat.dist
        omega
      · have hunits := units_strictMono.monotone (Nat.succ_le_of_lt hgt)
        rw [Nat.succ_eq_add_one, habove] at hunits
        unfold Nat.dist
        omega
    · have hbits : nearest num 1 = below + 1 := by omega
      rw [hbits]
      refine .of_dist (by omega) ?_
      intro c _ hne
      rcases Nat.lt_or_gt_of_ne hne with hlt | hgt
      · have hunits := units_strictMono.monotone (Nat.le_of_lt_succ hlt)
        unfold Nat.dist
        omega
      · have hunits := units_strictMono hgt
        unfold Nat.dist
        omega

/-- There is one nearest magnitude. -/
theorem IsNearest.unique {b c num : Nat} (hb : IsNearest b num) (hc : IsNearest c num) : b = c := by
  by_contra hne
  have hdist : (units b).dist num = (units c).dist num :=
    Nat.le_antisymm (hb.closest c hc.le) (hc.closest b hb.le)
  have hbeven := hb.even c hc.le (Ne.symm hne) hdist.symm
  have hceven := hc.even b hb.le hne hdist
  -- between two even magnitudes there is an odd one, and that one is closer
  wlog hlt : b < c generalizing b c
  · exact this hc hb (Ne.symm hne) hdist.symm hceven hbeven (by omega)
  have hmiddle := hb.closest (b + 1) (by have := hc.le; omega)
  have hlow : units b < units (b + 1) := units_strictMono (by omega)
  have hhigh : units (b + 1) < units c := units_strictMono (by omega)
  unfold Nat.dist at hdist hmiddle
  omega

/-- What rounding finds is the nearest magnitude, and nothing else is. -/
theorem isNearest_iff {b num : Nat} : IsNearest b num ↔ b = nearest num 1 := by
  constructor
  · intro h
    exact h.unique (isNearest_nearest num)
  · rintro rfl
    exact isNearest_nearest num

/-! ## Rounding of whole numbers -/

/-- A number rounded to its first fifty-three bits. -/
def rounded (n : Nat) : Nat := roundHalfEven n (gap n) * gap n

/-- Two to the power of 1024. What is rounded to so much or more is infinite. -/
def limit : Nat := 1 <<< 1024

/-- What a nearest magnitude stands for is the number of units, rounded. -/
theorem units_nearest_one (num : Nat) :
    units (nearest num 1) = min (rounded num) (units infinityBits) := by
  obtain ⟨hbelow, habove⟩ := units_floorBits num
  have hunits : units ((num.log2 - 52) * fractions + roundHalfEven num (gap num)) =
      rounded num := by
    rw [rounded]
    rcases roundHalfEven_cases num (gap num) with ⟨hround, -⟩ | ⟨hround, -⟩
    · rw [hround, Nat.mul_comm (num / gap num), ← hbelow, floorBits]
    · rw [hround, Nat.succ_mul, Nat.mul_comm (num / gap num), ← habove, floorBits, Nat.add_assoc]
  rw [nearest_one, units_strictMono.monotone.map_min, hunits]

/-- Whole gaps are not rounded. -/
theorem rounded_of_dvd {n : Nat} (h : gap n ∣ n) : rounded n = n := by
  obtain ⟨q, hq⟩ := h
  have hexact := roundHalfEven_mul q (gap_pos n)
  rw [Nat.mul_comm, ← hq] at hexact
  rw [rounded, hexact, Nat.mul_comm]
  exact hq.symm

/-- Numbers of fifty-three bits are not rounded, and neither is the first one that has more. -/
theorem rounded_of_le {n : Nat} (h : n ≤ 2 * fractions) : rounded n = n := by
  apply rounded_of_dvd
  rcases Nat.lt_or_eq_of_le h with hlt | rfl
  · have hlog : n.log2 ≤ 52 := by
      by_cases hzero : n = 0
      · simp [hzero]
      · exact Nat.le_of_lt_succ ((Nat.log2_lt hzero).2 hlt)
    have hgap : gap n = 1 := by
      rw [gap, Nat.sub_eq_zero_of_le hlog]
      rfl
    rw [hgap]
    exact Nat.one_dvd n
  · decide

/-- Bits behind a number make it so much longer. -/
theorem log2_mul_two_pow_add {n t s : Nat} (hn : n ≠ 0) (ht : t < 2 ^ s) :
    (n * 2 ^ s + t).log2 = n.log2 + s := by
  have hlow : 2 ^ n.log2 ≤ n := Nat.log2_self_le hn
  have hhigh : n < 2 ^ (n.log2 + 1) := Nat.lt_log2_self
  have hpos : 0 < n * 2 ^ s := Nat.mul_pos (Nat.pos_of_ne_zero hn) (Nat.two_pow_pos s)
  rw [Nat.log2_eq_iff (by omega), Nat.pow_add, Nat.add_right_comm, Nat.pow_add]
  constructor
  · have hmul := Nat.mul_le_mul_right (2 ^ s) hlow
    omega
  · have hmul := Nat.mul_le_mul_right (2 ^ s) (Nat.succ_le_of_lt hhigh)
    rw [Nat.succ_mul] at hmul
    omega

/-- Bits behind a long number make its gaps so much wider. -/
theorem gap_mul_two_pow_add {n t s : Nat} (hn : 52 ≤ n.log2) (ht : t < 2 ^ s) :
    gap (n * 2 ^ s + t) = gap n * 2 ^ s := by
  have hzero : n ≠ 0 := by
    rintro rfl
    simp at hn
  have hsub : n.log2 + s - 52 = n.log2 - 52 + s := by omega
  rw [gap, gap, log2_mul_two_pow_add hzero ht, hsub, Nat.one_shiftLeft, Nat.one_shiftLeft,
    Nat.pow_add]

/-- The gaps of numbers of more than fifty-three bits are even. -/
theorem two_dvd_gap {n : Nat} (h : 2 * fractions ≤ n) : 2 ∣ gap n := by
  have hfractions : fractions = 2 ^ 52 := rfl
  have hlog : 53 ≤ n.log2 := (Nat.le_log2 (by omega)).2 (by omega)
  rw [gap, Nat.one_shiftLeft]
  exact dvd_pow_self 2 (by omega)

/-- A quotient is rounded as its double, or as any other multiple of it. -/
theorem roundHalfEven_mul_right (num den : Nat) {c : Nat} (hc : 0 < c) :
    roundHalfEven (num * c) (den * c) = roundHalfEven num den := by
  have hless : 2 * (num % den * c) < den * c ↔ 2 * (num % den) < den := by
    rw [← Nat.mul_assoc]
    exact Nat.mul_lt_mul_right hc
  have hmore : den * c < 2 * (num % den * c) ↔ den < 2 * (num % den) := by
    rw [← Nat.mul_assoc]
    exact Nat.mul_lt_mul_right hc
  simp only [roundHalfEven, Nat.mul_div_mul_right _ _ hc, Nat.mul_mod_mul_right, gt_iff_lt, hless,
    hmore]

/-- Zeros behind a number do not matter to its rounding. -/
theorem rounded_mul_two_pow (n s : Nat) : rounded (n * 2 ^ s) = rounded n * 2 ^ s := by
  by_cases hzero : n = 0
  · subst hzero
    rw [Nat.zero_mul, rounded_of_le (Nat.zero_le _), Nat.zero_mul]
  by_cases hsmall : n.log2 < 53
  · -- the gaps are no wider than the zeros
    have hn : n ≤ 2 * fractions := Nat.le_of_lt ((Nat.log2_lt hzero).1 hsmall)
    have hlog : (n * 2 ^ s).log2 = n.log2 + s :=
      log2_mul_two_pow_add (t := 0) hzero (Nat.two_pow_pos s)
    rw [rounded_of_le hn]
    apply rounded_of_dvd
    rw [gap, hlog, Nat.one_shiftLeft]
    exact Nat.dvd_mul_left_of_dvd (Nat.pow_dvd_pow 2 (by omega)) n
  · have hgap : gap (n * 2 ^ s) = gap n * 2 ^ s :=
      gap_mul_two_pow_add (t := 0) (by omega) (Nat.two_pow_pos s)
    rw [rounded, rounded, hgap, roundHalfEven_mul_right _ _ (Nat.two_pow_pos s), Nat.mul_assoc]

/-- What has been rounded is not rounded again. -/
theorem rounded_rounded (n : Nat) : rounded (rounded n) = rounded n := by
  have hle : roundHalfEven n (gap n) ≤ 2 * fractions := by
    have hlt := (significand_div_gap n).lt
    rcases roundHalfEven_cases n (gap n) with ⟨hround, -⟩ | ⟨hround, -⟩ <;> omega
  rw [rounded.eq_1 n, gap, Nat.one_shiftLeft, rounded_mul_two_pow]
  rw [gap, Nat.one_shiftLeft] at hle
  rw [rounded_of_le hle]

/-- Whole gaps do not end below a power of two. -/
theorem shiftLeft_le_floor {n p : Nat} (h : 1 <<< p ≤ n) : 1 <<< p ≤ n / gap n * gap n := by
  rw [Nat.one_shiftLeft] at h ⊢
  have hpos : 0 < 2 ^ p := Nat.two_pow_pos p
  have hlog : p ≤ n.log2 := (Nat.le_log2 (by omega)).2 h
  rcases (significand_div_gap n).normal with hsmall | hnormal
  · have hgap : gap n = 1 := by
      rw [gap, hsmall]
      rfl
    rwa [hgap, Nat.div_one, Nat.mul_one]
  · have hfractions : fractions = 2 ^ 52 := rfl
    have hmul := Nat.mul_le_mul_right (gap n) hnormal
    refine Nat.le_trans ?_ hmul
    rw [gap, Nat.one_shiftLeft, hfractions, ← Nat.pow_add]
    exact Nat.pow_le_pow_right (by decide) (by omega)

/-- Rounding does not go below a power of two. -/
theorem shiftLeft_le_rounded {n p : Nat} (h : 1 <<< p ≤ n) : 1 <<< p ≤ rounded n := by
  refine Nat.le_trans (shiftLeft_le_floor h) ?_
  rw [rounded]
  rcases roundHalfEven_cases n (gap n) with ⟨hround, -⟩ | ⟨hround, -⟩
  · rw [hround]
  · rw [hround]
    exact Nat.mul_le_mul_right _ (Nat.le_succ _)

theorem rounded_mul_one (n : Nat) : rounded (n * one) = rounded n * one := by
  unfold one
  generalize 1074 = s
  rw [Nat.one_shiftLeft]
  exact rounded_mul_two_pow n s

/-- The units of the magnitude that is nearest to a whole number. -/
theorem units_nearest (n : Nat) : units (nearest (n * one) 1) = min (rounded n) limit * one := by
  have hlimit : units infinityBits = limit * one := by decide
  rw [units_nearest_one, hlimit, rounded_mul_one, Nat.mul_min_mul_right]

/-! ## Signs -/

/-- A double is a whole number with this sign, rounded. -/
structure IsRounded (x : Double) (negative : Bool) (n : Nat) : Prop where
  sign : x.isNegative = negative
  nearest : IsNearest x.magnitude (n * one)

/-- Whether a magnitude is that of a whole number, rounded, can be seen on the units. -/
theorem isRounded_ofMagnitude_iff {b a n : Nat} (hb : b ≤ infinityBits)
    (hunits : units b = min a limit * one) (negative : Bool) :
    (ofMagnitude negative b).IsRounded negative n ↔ min a limit = min (rounded n) limit := by
  have hmagnitude := magnitude_ofMagnitude hb negative
  have hnearest : IsNearest b (n * one) ↔ min a limit = min (rounded n) limit := by
    rw [isNearest_iff, ← units_strictMono.injective.eq_iff, hunits, units_nearest]
    exact Nat.mul_left_inj (by decide)
  rw [← hnearest]
  constructor
  · intro h
    have hclose := h.nearest
    rwa [hmagnitude] at hclose
  · intro h
    constructor
    · exact isNegative_ofMagnitude hb negative
    · rwa [hmagnitude]

end Reconciler.Double
