import Mathlib.Data.List.Induction
import Reconciler.Proofs.Nearest
import Reconciler.Proofs.WeightGrammar

/-!
# Large weights

The digits of a weight are put together one by one, and once they make up more than fifty-three bits
every product and every sum is rounded. Rounding step by step is not rounding once, so a large
weight need not be the double that is nearest to the number in the text: `72057594037927945` counts
for the double below it, and the one above is closer.

All steps can be seen on natural numbers (`units_stepwise`), and their errors add up to `drift`.
Hexadecimal digits are dropped after the one that goes beyond fifty-three bits, whatever they are.
They are missed only where there is a tie at this digit, which they would have decided (`LosesTie`).
-/

namespace Reconciler

open Double

namespace LooseNumber

/-! ## Rounding step by step -/

/-- The number that digits make up. -/
def value (base : Nat) (ds : List Nat) : Nat := ds.foldl (fun n d => n * base + d) 0

/-- The number that digits make up if every product and every sum is rounded. -/
def stepwise (base : Nat) (ds : List Nat) : Nat :=
  ds.foldl (fun a d => rounded (rounded (a * base) + d)) 0

theorem value_concat (base : Nat) (ds : List Nat) (d : Nat) :
    value base (ds ++ [d]) = value base ds * base + d := by
  simp [value]

theorem stepwise_concat (base : Nat) (ds : List Nat) (d : Nat) :
    stepwise base (ds ++ [d]) = rounded (rounded (stepwise base ds * base) + d) := by
  simp [stepwise]

theorem rounded_stepwise (base : Nat) (ds : List Nat) :
    rounded (stepwise base ds) = stepwise base ds := by
  induction ds using List.reverseRecOn with
  | nil => exact rounded_of_le (Nat.zero_le _)
  | append_singleton ds d => rw [stepwise_concat, rounded_rounded]

/-! ## Weights -/

/-- Numbers that are both too large are too large when they are rounded. -/
theorem min_rounded_limit {m n : Nat} (h : min m limit = min n limit) :
    min (rounded m) limit = min (rounded n) limit := by
  by_cases hm : m < limit
  · have heq : m = n := by omega
    rw [heq]
  · have hlarge : ∀ {k}, limit ≤ k → limit ≤ rounded k := shiftLeft_le_rounded
    have hmround := hlarge (k := m) (by omega)
    have hnround := hlarge (k := n) (by omega)
    omega

/-- A step of floating point is a step of rounding, as long as the number is not too large. -/
theorem units_step_rounded {b a base : Nat} (d : Nat) (hbase : 0 < base)
    (h : units b = min a limit * one) :
    units (addBits (scaleBits b base) d) =
      min (rounded (rounded (a * base) + d)) limit * one := by
  have hproduct : units (scaleBits b base) = min (rounded (a * base)) limit * one := by
    have hmin : min (min a limit * base) limit = min (a * base) limit := by
      rcases Nat.le_total a limit with hle | hle
      · rw [Nat.min_eq_left hle]
      · have hlow := Nat.le_mul_of_pos_right limit hbase
        have hmul := Nat.mul_le_mul_right base hle
        rw [Nat.min_eq_right hle]
        omega
    rw [scaleBits, h, Nat.mul_right_comm, units_nearest, min_rounded_limit hmin]
  have hmin : min (min (rounded (a * base)) limit + d) limit =
      min (rounded (a * base) + d) limit := by omega
  rw [addBits, hproduct, ← Nat.add_mul, units_nearest, min_rounded_limit hmin]

/-- What digits make up in floating point is what they make up by rounding step by step. -/
theorem units_stepwise {base : Nat} (hbase : 0 < base) (ds : List Nat) :
    units (ds.foldl (fun b d => addBits (scaleBits b base) d) 0) =
      min (stepwise base ds) limit * one := by
  induction ds using List.reverseRecOn with
  | nil =>
    show units 0 = min 0 limit * one
    decide
  | append_singleton ds d ih =>
    rw [List.foldl_concat, stepwise_concat]
    exact units_step_rounded d hbase ih

/-! ## The errors of the steps -/

/-- By how much a number is off when it is rounded. -/
def error (n : Nat) : Int := rounded n - n

/-- By how much a number is off in the end, from a number that is off by `e` already. With every
digit the error grows as the number does, and the product and the sum add errors of their own. -/
def drift (base : Nat) : List Nat → Nat → Int → Int
  | [], _, e => e
  | d :: ds, a, e =>
    drift base ds (rounded (rounded (a * base) + d))
      (e * base + error (a * base) + error (rounded (a * base) + d))

/-- The errors of all steps make up the difference between rounding step by step and not at all. -/
theorem foldl_rounded_eq_add_drift (base : Nat) (ds : List Nat) {a n : Nat} {e : Int}
    (h : (a : Int) = n + e) :
    ((ds.foldl (fun a d => rounded (rounded (a * base) + d)) a : Nat) : Int) =
      (ds.foldl (fun n d => n * base + d) n : Nat) + drift base ds a e := by
  induction ds generalizing a n e with
  | nil => exact h
  | cons d ds ih =>
    refine ih ?_
    have hproduct : (a * base : Int) = n * base + e * base := by rw [h, Int.add_mul]
    unfold error
    push_cast
    omega

theorem stepwise_eq_add_drift (base : Nat) (ds : List Nat) :
    (stepwise base ds : Int) = value base ds + drift base ds 0 0 :=
  foldl_rounded_eq_add_drift base ds rfl

/-! ## Numbers of fifty-four bits -/

/-- Of a number of fifty-four bits, only the last one may be rounded. -/
theorem rounded_of_even {n : Nat} (hn : n < 4 * fractions) (heven : 2 ∣ n) : rounded n = n := by
  apply rounded_of_dvd
  by_cases hzero : n = 0
  · rw [hzero]
    exact Nat.dvd_zero _
  · have hlog : n.log2 < 54 := (Nat.log2_lt hzero).2 hn
    have hgap : gap n ∣ 2 ^ 1 := by
      rw [gap, Nat.one_shiftLeft]
      exact Nat.pow_dvd_pow 2 (by omega)
    exact Nat.dvd_trans hgap heven

theorem stepwise_of_le {base : Nat} (hbase : 0 < base) {ds : List Nat}
    (h : value base ds ≤ 2 * fractions) : stepwise base ds = value base ds := by
  induction ds using List.reverseRecOn with
  | nil => rfl
  | append_singleton ds d ih =>
    rw [value_concat] at h ⊢
    have hmul := Nat.le_mul_of_pos_right (value base ds) hbase
    rw [stepwise_concat, ih (by omega), rounded_of_le (n := value base ds * base) (by omega),
      rounded_of_le h]

/-- In an even base, the digits of a number of fifty-four bits are not rounded before the last
sum. -/
theorem stepwise_of_lt {base : Nat} (hbase : 0 < base) (heven : 2 ∣ base) {ds : List Nat}
    (h : value base ds < 4 * fractions) : stepwise base ds = rounded (value base ds) := by
  cases ds using List.reverseRecOn with
  | nil => exact (rounded_of_le (Nat.zero_le _)).symm
  | append_singleton ds d =>
    rw [value_concat] at h ⊢
    have htwice : value base ds * 2 ≤ value base ds * base :=
      Nat.mul_le_mul_left _ (Nat.le_of_dvd hbase heven)
    rw [stepwise_concat, stepwise_of_le hbase (by omega),
      rounded_of_even (n := value base ds * base) (by omega) (Nat.dvd_mul_left_of_dvd heven _)]

/-! ## Hexadecimal digits -/

/-- Bits behind a number matter to its rounding only if without them it would go down from half
way. -/
theorem rounded_append_iff {head t s : Nat} (hhead : 2 * fractions ≤ head) (ht : t < 2 ^ s) :
    rounded (head * 2 ^ s + t) = rounded head * 2 ^ s ↔
      ¬ (2 * (head % gap head) = gap head ∧ head / gap head % 2 = 0 ∧ t ≠ 0) := by
  have hfractions : fractions = 2 ^ 52 := rfl
  have hlow : 52 ≤ head.log2 := (Nat.le_log2 (by omega)).2 (by omega)
  have hgap : gap (head * 2 ^ s + t) = gap head * 2 ^ s := gap_mul_two_pow_add hlow ht
  have heven : 2 ∣ gap head := two_dvd_gap hhead
  have hpos := gap_pos head
  rw [rounded, rounded, hgap]
  generalize gap head = g at heven hpos ⊢
  generalize 2 ^ s = S at ht ⊢
  have hfront : (head * S + t) / S = head := by
    rw [Nat.mul_comm, Nat.mul_add_div (by omega), Nat.div_eq_of_lt ht, Nat.add_zero]
  have hdiv : (head * S + t) / (g * S) = head / g := by
    rw [Nat.mul_comm g, ← Nat.div_div_eq_div_mul, hfront]
  have hmod : (head * S + t) % (g * S) = head % g * S + t := by
    rw [Nat.mul_comm g, Nat.mod_mul, hfront, Nat.mul_comm head, Nat.mul_add_mod,
      Nat.mod_eq_of_lt ht, Nat.add_comm, Nat.mul_comm]
  -- two products decide: that of the gap, and that of what is left of the head
  have hless : 2 * (head % g) < g → 2 * (head % g * S + t) < g * S := by
    intro h
    have hmul := Nat.mul_le_mul_right S (show 2 * (head % g) + 2 ≤ g by omega)
    rw [Nat.add_mul, Nat.mul_assoc] at hmul
    omega
  have hmore : g < 2 * (head % g) → g * S < 2 * (head % g * S + t) := by
    intro h
    have hmul := Nat.mul_le_mul_right S (Nat.succ_le_of_lt h)
    rw [Nat.succ_mul, Nat.mul_assoc] at hmul
    omega
  have hhalf : 2 * (head % g) = g → 2 * (head % g * S + t) = g * S + 2 * t := by
    intro h
    have hmul : 2 * (head % g) * S = g * S := by rw [h]
    rw [Nat.mul_assoc] at hmul
    omega
  have hcases := roundHalfEven_cases (head * S + t) (g * S)
  rw [hdiv, hmod] at hcases
  have hheads := roundHalfEven_cases head g
  rw [Nat.mul_assoc, Nat.mul_left_inj (Nat.ne_of_gt (Nat.mul_pos hpos (by omega)))]
  constructor
  · intro heq
    omega
  · intro hnot
    omega

theorem rounded_mul_sixteen {a : Nat} (ha : rounded a = a) : rounded (a * 16) = a * 16 := by
  have hshift := rounded_mul_two_pow a 4
  rwa [ha] at hshift

/-- After the digit that goes beyond fifty-three bits, hexadecimal digits are too small to
matter. -/
theorem rounded_mul_sixteen_add {a d : Nat} (ha : rounded a = a) (hlarge : 2 * fractions ≤ a)
    (hd : d < 16) : rounded (rounded (a * 16) + d) = a * 16 := by
  -- what has been rounded is whole gaps, and so never half way
  have hwhole : a % gap a = 0 := Nat.mod_eq_zero_of_dvd (Dvd.intro_left _ ha)
  have happend : rounded (a * 2 ^ 4 + d) = rounded a * 2 ^ 4 := by
    rw [rounded_append_iff hlarge hd, hwhole]
    rintro ⟨hhalf, -⟩
    exact absurd (gap_pos a) (by omega)
  rw [rounded_mul_sixteen ha]
  rwa [ha] at happend

/-- The number of bits behind the first fifty-four to fifty-seven of a number, so many that they are
hexadecimal digits. -/
def bitsBehind (n : Nat) : Nat := (n.log2 - 53) / 4 * 4

theorem log2_mul_sixteen_add {n d : Nat} (hn : n ≠ 0) (hd : d < 16) :
    (n * 16 + d).log2 = n.log2 + 4 :=
  log2_mul_two_pow_add (s := 4) hn hd

/-- In front of these bits there are more than fifty-three. -/
theorem le_div_bitsBehind {n : Nat} (h : 2 * fractions ≤ n) :
    2 * fractions ≤ n / 2 ^ bitsBehind n := by
  have hfractions : 2 * fractions = 2 ^ 53 := rfl
  rw [hfractions] at h ⊢
  have hlog : 53 ≤ n.log2 := (Nat.le_log2 (by omega)).2 h
  rw [Nat.le_div_iff_mul_le (Nat.two_pow_pos _), ← Nat.pow_add]
  refine Nat.le_trans (Nat.pow_le_pow_right (by decide) ?_) (Nat.log2_self_le (by omega))
  unfold bitsBehind
  omega

/-- Rounding hexadecimal digits step by step is rounding the number up to the digit that goes beyond
fifty-three bits. -/
theorem stepwise_sixteen {ds : List Nat} (hds : ∀ d ∈ ds, d < 16)
    (hlarge : 2 * fractions ≤ value 16 ds) :
    stepwise 16 ds =
      rounded (value 16 ds / 2 ^ bitsBehind (value 16 ds)) * 2 ^ bitsBehind (value 16 ds) := by
  induction ds using List.reverseRecOn with
  | nil => cases hlarge
  | append_singleton ds d ih =>
    rw [List.forall_mem_append, List.forall_mem_singleton] at hds
    have hrounded := rounded_stepwise 16 ds
    rw [value_concat] at hlarge ⊢
    rw [stepwise_concat]
    generalize hn : value 16 ds = n at *
    have hfractions : fractions = 2 ^ 52 := rfl
    have hlog : (n * 16 + d).log2 = n.log2 + 4 := log2_mul_sixteen_add (by omega) hds.2
    by_cases hsmall : n < 2 * fractions
    · -- this is the digit
      have hlow : n.log2 < 53 := (Nat.log2_lt (by omega)).2 hsmall
      have hbehind : bitsBehind (n * 16 + d) = 0 := by
        unfold bitsBehind
        omega
      have hbefore : stepwise 16 ds = n := by
        rw [← hn]
        exact stepwise_of_le (by decide) (by omega)
      have hproduct : rounded (n * 16) = n * 16 :=
        rounded_mul_sixteen (rounded_of_le (Nat.le_of_lt hsmall))
      rw [hbehind, hbefore, hproduct, Nat.pow_zero, Nat.div_one, Nat.mul_one]
    · have hlow : 53 ≤ n.log2 := (Nat.le_log2 (by omega)).2 (by omega)
      have hbehind : bitsBehind (n * 16 + d) = bitsBehind n + 4 := by
        unfold bitsBehind
        omega
      have hbefore := ih hds.1 (by omega)
      have hhead := le_div_bitsBehind (n := n) (by omega)
      have hquotient : (n * 16 + d) / 2 ^ (bitsBehind n + 4) = n / 2 ^ bitsBehind n := by
        have hdigit : (n * 16 + d) / 2 ^ 4 = n := by omega
        rw [Nat.pow_add, Nat.mul_comm (2 ^ bitsBehind n), ← Nat.div_div_eq_div_mul, hdigit]
      have hlarge : 2 * fractions ≤ stepwise 16 ds := by
        have hround : 1 <<< 53 ≤ rounded (n / 2 ^ bitsBehind n) := shiftLeft_le_rounded hhead
        have hmul := Nat.le_mul_of_pos_right (rounded (n / 2 ^ bitsBehind n))
          (Nat.two_pow_pos (bitsBehind n))
        rw [hbefore]
        exact Nat.le_trans hround hmul
      rw [rounded_mul_sixteen_add hrounded hlarge hds.2, hbehind, hquotient, hbefore, Nat.pow_add,
        ← Nat.mul_assoc]

/-- Read from hexadecimal digits, a number loses the bits that would have decided: up to the digit
that goes beyond fifty-three bits it is half way between two doubles, the lower one of them is the
even one, and there is something left behind. -/
def LosesTie (n : Nat) : Prop :=
  let head := n >>> bitsBehind n
  2 * (head % gap head) = gap head ∧ head / gap head % 2 = 0 ∧ head <<< bitsBehind n ≠ n

section LosesTie

variable {n : Nat}

/-- What is in front of the bits behind, and these bits. -/
theorem front_add_behind (n : Nat) :
    n / 2 ^ bitsBehind n * 2 ^ bitsBehind n + n % 2 ^ bitsBehind n = n := by
  rw [Nat.mul_comm]
  exact Nat.div_add_mod _ _

theorem rounded_front_iff (h : 2 * fractions ≤ n) :
    rounded (n / 2 ^ bitsBehind n) * 2 ^ bitsBehind n = rounded n ↔ ¬ LosesTie n := by
  have hsplit := front_add_behind n
  have hbehind := Nat.mod_lt n (Nat.two_pow_pos (bitsBehind n))
  have happend := rounded_append_iff (le_div_bitsBehind h) hbehind
  rw [hsplit, eq_comm] at happend
  rw [happend, LosesTie]
  simp only [Nat.shiftRight_eq_div_pow, Nat.shiftLeft_eq]
  have hrest : n / 2 ^ bitsBehind n * 2 ^ bitsBehind n ≠ n ↔ n % 2 ^ bitsBehind n ≠ 0 := by omega
  rw [hrest]

/-- When a tie is lost, the number is rounded down. -/
theorem LosesTie.rounded_front_le (h : LosesTie n) :
    rounded (n / 2 ^ bitsBehind n) * 2 ^ bitsBehind n ≤ n := by
  obtain ⟨hhalf, heven, -⟩ := h
  rw [Nat.shiftRight_eq_div_pow] at hhalf heven
  have hsplit := front_add_behind n
  generalize n / 2 ^ bitsBehind n = head at *
  have hdown : rounded head ≤ head := by
    have hcases := roundHalfEven_cases head (gap head)
    have hround : roundHalfEven head (gap head) = head / gap head := by omega
    rw [rounded, hround]
    exact Nat.div_mul_le_self head (gap head)
  have hmul := Nat.mul_le_mul_right (2 ^ bitsBehind n) hdown
  omega

/-- Rounding only what is in front of these bits does not go below a power of two. -/
theorem shiftLeft_le_rounded_front {p : Nat} (h : 2 * fractions ≤ n) (hp : 1 <<< p ≤ n) :
    1 <<< p ≤ rounded (n / 2 ^ bitsBehind n) * 2 ^ bitsBehind n := by
  have hfractions : fractions = 2 ^ 52 := rfl
  have hhead := le_div_bitsBehind h
  have hlog := log2_mul_two_pow_add (n := n / 2 ^ bitsBehind n) (by omega)
    (Nat.mod_lt n (Nat.two_pow_pos (bitsBehind n)))
  rw [front_add_behind] at hlog
  rw [← rounded_mul_two_pow]
  apply shiftLeft_le_rounded
  rw [Nat.one_shiftLeft] at hp ⊢
  refine Nat.le_trans (Nat.pow_le_pow_right (by decide) ((Nat.le_log2 (by omega)).2 hp)) ?_
  rw [hlog, Nat.pow_add]
  exact Nat.mul_le_mul_right _ (Nat.log2_self_le (by omega))

end LosesTie

/-- Hexadecimal digits are rounded as the number is, unless a tie is lost. It does not matter if the
number is too large anyway. -/
theorem min_stepwise_sixteen_iff {ds : List Nat} (hds : ∀ d ∈ ds, d < 16) :
    min (stepwise 16 ds) limit = min (rounded (value 16 ds)) limit ↔
      ¬ LosesTie (value 16 ds) ∨ limit ≤ value 16 ds := by
  by_cases hsmall : value 16 ds < 2 * fractions
  · -- there are no bits behind so few
    have hlost : ¬ LosesTie (value 16 ds) := by
      rintro ⟨-, -, hne⟩
      apply hne
      have hlog : (value 16 ds).log2 ≤ 53 := by
        by_cases hzero : value 16 ds = 0
        · simp [hzero]
        · exact Nat.le_of_lt ((Nat.log2_lt hzero).2 hsmall)
      have hbehind : bitsBehind (value 16 ds) = 0 := by
        unfold bitsBehind
        omega
      rw [hbehind]
      rfl
    rw [stepwise_of_le (by decide) (by omega), rounded_of_le (by omega)]
    simp [hlost]
  · have hlarge : 2 * fractions ≤ value 16 ds := by omega
    rw [stepwise_sixteen hds hlarge]
    generalize value 16 ds = n at hlarge
    constructor
    · intro hmin
      by_contra hnot
      push Not at hnot
      have hdown := hnot.1.rounded_front_le
      have hne := mt (rounded_front_iff hlarge).1 (not_not_intro hnot.1)
      omega
    · rintro (hlost | hlimit)
      · rw [(rounded_front_iff hlarge).2 hlost]
      · have hfront : limit ≤ _ := shiftLeft_le_rounded_front hlarge hlimit
        have hrounded : limit ≤ rounded n := shiftLeft_le_rounded hlimit
        omega

/-! ## Readings -/

/-- By how much the digits of a reading are off when they are put together. -/
def Reading.drift (r : Reading) : Int := LooseNumber.drift r.base r.digits 0 0

/-- The digits of a reading are those of its base, which is ten or sixteen. -/
theorem Reads.digits_lt {cs : List Char} {r : Reading} (h : Reads cs r) :
    (r.base = 10 ∨ r.base = 16) ∧ ∀ d ∈ r.digits, d < r.base := by
  have hvalues : ∀ {base : Nat} {cs : List Char} {vs : List Nat}, Digits base cs vs →
      ∀ v ∈ vs, v < base := by
    intro base cs vs hdigits
    induction hdigits with
    | nil => simp
    | cons hdigit _ ih => exact List.forall_mem_cons.2 ⟨hdigit.1, ih⟩
  cases h with
  | hexadecimal _ digits _ => exact ⟨.inr rfl, hvalues digits⟩
  | octal => exact ⟨.inl rfl, by simp⟩
  | binary => exact ⟨.inl rfl, by simp⟩
  | decimal _ digits _ _ _ => exact ⟨.inl rfl, hvalues digits⟩

/-- What digits make up in floating point is a number. -/
theorem Reading.fold_le (r : Reading) :
    r.digits.foldl (fun b d => addBits (scaleBits b r.base) d) 0 ≤ infinityBits := by
  cases r.digits using List.reverseRecOn with
  | nil => exact Nat.zero_le _
  | append_singleton ds d =>
    rw [List.foldl_concat]
    exact nearest_le _ _

/-- Whether a weight is the number in the text, rounded, can be seen on whole numbers. -/
theorem Reading.isRounded_weight_iff {r : Reading} (hbase : 0 < r.base) :
    r.weight.IsRounded r.negative r.integer ↔
      min (stepwise r.base r.digits) limit = min (rounded r.integer) limit :=
  isRounded_ofMagnitude_iff r.fold_le (units_stepwise hbase r.digits) r.negative

/-- When the weight that text counts for is the double nearest to the number in the text, with ties
to the even one and infinity for what is too large. It is if the errors of the single steps add up
to the error of rounding the number once, or if both ways lead beyond the finite doubles. For
hexadecimal digits that is to say that no tie is lost. Numbers of up to fifty-four bits, and with
them all decimal numbers of sixteen digits, are always rounded as they should be. -/
theorem layoutWeight?_isRounded_iff (s : String) (r : Reading) (h : Reads (Text.trim s.toList) r) :
    ∃ x, (text s).layoutWeight? = some x ∧ x.isNegative = r.negative ∧
      (x.IsRounded r.negative r.integer ↔
        r.drift = error r.integer ∨
          (limit : Int) ≤ r.integer + r.drift ∧ (limit : Int) ≤ r.integer + error r.integer) ∧
      (r.base = 16 →
        (x.IsRounded r.negative r.integer ↔ ¬ LosesTie r.integer ∨ limit ≤ r.integer)) ∧
      (r.integer < 1 <<< 54 → x.IsRounded r.negative r.integer) := by
  obtain ⟨hbase, hdigits⟩ := h.digits_lt
  have hpos : 0 < r.base := h.base_pos
  refine ⟨r.weight, layoutWeight?_eq_some_iff.2 ⟨r, h, rfl⟩, ?_⟩
  rw [Reading.isRounded_weight_iff hpos]
  refine ⟨?sign, ?errors, ?hexadecimal, ?small⟩
  case sign =>
    exact isNegative_ofMagnitude (Reading.fold_le r) r.negative
  case errors =>
    have hdrift : (stepwise r.base r.digits : Int) = r.integer + r.drift :=
      stepwise_eq_add_drift r.base r.digits
    have herror : (rounded r.integer : Int) = r.integer + error r.integer := by
      unfold error
      omega
    omega
  case hexadecimal =>
    intro hsixteen
    rw [hsixteen] at hdigits ⊢
    have hvalue : r.integer = value 16 r.digits := by
      rw [← hsixteen]
      rfl
    rw [hvalue]
    exact min_stepwise_sixteen_iff hdigits
  case small =>
    intro hsmall
    have heven : 2 ∣ r.base := by
      rcases hbase with hten | hsixteen <;> omega
    have hexact : stepwise r.base r.digits = rounded r.integer :=
      stepwise_of_lt hpos heven hsmall
    rw [hexact]

/-- Fifty-four bits are read as they should be, and of hexadecimal digits a tie may be lost. -/
theorem layoutWeight?_isRounded_iff_two_texts :
    (∃ x, (text "9007199254740993").layoutWeight? = some x ∧
        x.IsRounded false 9007199254740993) ∧
      ∃ x, (text "0x200000000000011").layoutWeight? = some x ∧
        ¬ x.IsRounded false 0x200000000000011 := by
  constructor
  · have hread : Reads (Text.trim "9007199254740993".toList)
        ⟨false, 10, [9, 0, 0, 7, 1, 9, 9, 2, 5, 4, 7, 4, 0, 9, 9, 3]⟩ := by
      have hdigits : Digits 10 "9007199254740993".toList
          [9, 0, 0, 7, 1, 9, 9, 2, 5, 4, 7, 4, 0, 9, 9, 3] :=
        (digits_iff (by decide)).2 ⟨List.all_eq_true.1 rfl, rfl⟩
      exact .decimal .none hdigits (by decide) .none .none
    obtain ⟨x, hx, -, -, -, hsmall⟩ := layoutWeight?_isRounded_iff _ _ hread
    exact ⟨x, hx, hsmall (by decide)⟩
  · have hread : Reads (Text.trim "0x200000000000011".toList)
        ⟨false, 16, [2, 0, 0, 0, 0, 0, 0, 0, 0, 0, 0, 0, 0, 1, 1]⟩ := by
      have hdigits : Digits 16 "200000000000011".toList
          [2, 0, 0, 0, 0, 0, 0, 0, 0, 0, 0, 0, 0, 1, 1] :=
        (digits_iff (by decide)).2 ⟨List.all_eq_true.1 rfl, rfl⟩
      exact .hexadecimal (.inl rfl) hdigits (by decide)
    obtain ⟨x, hx, -, -, hiff, -⟩ := layoutWeight?_isRounded_iff _ _ hread
    refine ⟨x, hx, fun hrounded => ?_⟩
    rcases (hiff rfl).1 hrounded with hlost | hlimit
    · exact hlost ⟨by decide, by decide, by decide⟩
    · revert hlimit
      decide

/-- A decimal number of seventeen digits may count for a double that is not the nearest one. -/
theorem not_isRounded_of_large :
    ¬ ∀ (s : String) (r : Reading), Reads (Text.trim s.toList) r → 1 <<< 53 ≤ r.integer →
      r.base = 16 ∨ r.digits.length ≤ 20 →
        ∃ x, (text s).layoutWeight? = some x ∧ x.IsRounded r.negative r.integer := by
  intro hall
  have hread : Reads (Text.trim "72057594037927945".toList)
      ⟨false, 10, [7, 2, 0, 5, 7, 5, 9, 4, 0, 3, 7, 9, 2, 7, 9, 4, 5]⟩ := by
    have hdigits : Digits 10 "72057594037927945".toList
        [7, 2, 0, 5, 7, 5, 9, 4, 0, 3, 7, 9, 2, 7, 9, 4, 5] :=
      (digits_iff (by decide)).2 ⟨List.all_eq_true.1 rfl, rfl⟩
    exact .decimal .none hdigits (by decide) .none .none
  obtain ⟨x, hx, hrounded⟩ := hall _ _ hread (by decide) (.inr (by decide))
  obtain ⟨r, hr, rfl⟩ := layoutWeight?_eq_some_iff.1 hx
  obtain rfl := hr.unique hread
  have hmin := (Reading.isRounded_weight_iff (by decide)).1 hrounded
  revert hmin
  decide +kernel

end LooseNumber

end Reconciler
