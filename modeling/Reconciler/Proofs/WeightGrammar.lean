import Mathlib.Data.List.Forall2
import Mathlib.Data.List.TakeWhile
import Reconciler.Proofs.Magnitudes
import Reconciler.Value.LooseNumber

/-!
# The grammar of layout weights

Which text counts for a layout weight, and for which number. `Reads` says it as a grammar, without
mention of the scanners. A weight is read where both of them agree, and they agree exactly on the
texts of the grammar (`LooseNumber.layoutWeight?_text`). One looks at text without the blanks at
both ends, the other one takes them off the front only, and one knows of bases and words that the
other one does not know of.

As long as the digits make up less than two to the power of fifty-three no step of the reading is
rounded, and the weight is the number that they make up.
-/

namespace Reconciler

namespace Text

/-! ## Trimming -/

/-- Text without the blanks at its front is trimmed text with blanks behind it. -/
theorem exists_trim_append (cs : List Char) :
    ∃ blanks, (∀ c ∈ blanks, isBlank c = true) ∧ cs.dropWhile isBlank = trim cs ++ blanks := by
  refine ⟨((cs.dropWhile isBlank).reverse.takeWhile isBlank).reverse, ?_, ?_⟩
  · intro c hc
    exact List.mem_takeWhile_imp (List.mem_reverse.1 hc)
  · rw [trim, ← List.reverse_append, List.takeWhile_append_dropWhile, List.reverse_reverse]

end Text

namespace LooseNumber

/-! ## The grammar -/

/-- A character stands for a value as a digit of a base, as a small letter or as a capital if it is
a letter. -/
def Digit (base : Nat) (c : Char) (v : Nat) : Prop :=
  v < base ∧ (c = v.digitChar ∨ c = v.digitChar.toUpper)

/-- Text that is nothing but digits of a base, and their values. -/
def Digits (base : Nat) (cs : List Char) (vs : List Nat) : Prop :=
  List.Forall₂ (Digit base) cs vs

/-- A sign or none, and whether it is minus. -/
inductive Sign : List Char → Bool → Prop
  | none : Sign [] false
  | plus : Sign ['+'] false
  | minus : Sign ['-'] true

/-- Nothing, or a point and any number of digits. -/
inductive Fraction : List Char → Prop
  | none : Fraction []
  | point {cs : List Char} {vs : List Nat} (places : Digits 10 cs vs) : Fraction ('.' :: cs)

/-- Nothing, or a letter, a sign or none, and one or more digits. -/
inductive Exponent : List Char → Prop
  | none : Exponent []
  | power {e : Char} {front cs : List Char} {negative : Bool} {vs : List Nat}
      (letter : e = 'e' ∨ e = 'E') (sign : Sign front negative) (digits : Digits 10 cs vs)
      (nonempty : cs ≠ []) : Exponent (e :: (front ++ cs))

/-- What is read from text: a sign, and the values of digits in a base. -/
structure Reading where
  negative : Bool
  base : Nat
  digits : List Nat

/-- The number that the digits make up. -/
def Reading.integer (r : Reading) : Nat := r.digits.foldl (fun n d => n * r.base + d) 0

/-- The double that is put together from the digits, with a product and a sum that are rounded for
each of them. -/
def Reading.weight (r : Reading) : Double :=
  .ofMagnitude r.negative
    (r.digits.foldl (fun b d => Double.addBits (Double.scaleBits b r.base) d) 0)

/-- How text without blanks at its ends is read. -/
inductive Reads : List Char → Reading → Prop
  /-- Hexadecimal digits count for their value. -/
  | hexadecimal {c : Char} {cs : List Char} {vs : List Nat} (letter : c = 'x' ∨ c = 'X')
      (digits : Digits 16 cs vs) (nonempty : cs ≠ []) : Reads ('0' :: c :: cs) ⟨false, 16, vs⟩
  /-- Octal digits count for nothing. -/
  | octal {c : Char} {cs : List Char} {vs : List Nat} (letter : c = 'o' ∨ c = 'O')
      (digits : Digits 8 cs vs) (nonempty : cs ≠ []) : Reads ('0' :: c :: cs) ⟨false, 10, [0]⟩
  /-- Binary digits count for nothing. -/
  | binary {c : Char} {cs : List Char} {vs : List Nat} (letter : c = 'b' ∨ c = 'B')
      (digits : Digits 2 cs vs) (nonempty : cs ≠ []) : Reads ('0' :: c :: cs) ⟨false, 10, [0]⟩
  /-- Decimal numbers count for what is before the point. -/
  | decimal {front whole fraction exponent : List Char} {negative : Bool} {vs : List Nat}
      (sign : Sign front negative) (digits : Digits 10 whole vs) (nonempty : whole ≠ [])
      (after : Fraction fraction) (power : Exponent exponent) :
      Reads (front ++ (whole ++ (fraction ++ exponent))) ⟨negative, 10, vs⟩

/-! ## Digits -/

theorem digit?_sixteen_iff {c : Char} {v : Nat} : digit? 16 c = some v ↔ Digit 16 c v := by
  constructor
  · intro h
    have hsmall : c.toNat < 103 ∧ v < 16 := by
      simp only [digit?, Option.filter_eq_some_iff] at h
      have hf : 'f'.toNat = 102 := rfl
      have hF : 'F'.toNat = 70 := rfl
      have h9 : '9'.toNat = 57 := rfl
      refine ⟨?_, by simpa using h.2⟩
      by_contra hlarge
      rw [if_neg (by omega), if_neg (by omega), if_neg (by omega)] at h
      cases h.1
    have htable : ∀ n < 103, ∀ v < 16, digit? 16 (Char.ofNat n) = some v →
        Char.ofNat n = v.digitChar ∨ Char.ofNat n = v.digitChar.toUpper := by
      decide +kernel
    refine ⟨hsmall.2, ?_⟩
    rw [← Char.ofNat_toNat c] at h ⊢
    exact htable c.toNat hsmall.1 v hsmall.2 h
  · have htable : ∀ v < 16,
        digit? 16 v.digitChar = some v ∧ digit? 16 v.digitChar.toUpper = some v := by
      decide
    rintro ⟨hv, rfl | rfl⟩
    · exact (htable v hv).1
    · exact (htable v hv).2

/-- The digits of a smaller base are those of base sixteen with smaller values. -/
theorem digit?_eq_some_iff {base : Nat} (hbase : base ≤ 16) {c : Char} {v : Nat} :
    digit? base c = some v ↔ Digit base c v := by
  have hfilter : digit? base c = some v ↔ digit? 16 c = some v ∧ v < base := by
    simp only [digit?, Option.filter_eq_some_iff, decide_eq_true_eq]
    constructor
    · rintro ⟨hvalue, hlt⟩
      exact ⟨⟨hvalue, by omega⟩, hlt⟩
    · rintro ⟨⟨hvalue, -⟩, hlt⟩
      exact ⟨hvalue, hlt⟩
  rw [hfilter, digit?_sixteen_iff]
  constructor
  · rintro ⟨⟨-, hchar⟩, hlt⟩
    exact ⟨hlt, hchar⟩
  · rintro ⟨hlt, hchar⟩
    exact ⟨⟨by omega, hchar⟩, hlt⟩

theorem isDigit_iff {base : Nat} (hbase : base ≤ 16) {c : Char} :
    isDigit base c = true ↔ ∃ v, Digit base c v := by
  rw [isDigit, Option.isSome_iff_exists]
  exact exists_congr fun v => digit?_eq_some_iff hbase

/-- Text is nothing but digits if every character is one, and then their values are found. -/
theorem digits_iff {base : Nat} (hbase : base ≤ 16) {cs : List Char} {vs : List Nat} :
    Digits base cs vs ↔
      (∀ c ∈ cs, isDigit base c = true) ∧ cs.filterMap (digit? base) = vs := by
  constructor
  · intro h
    induction h with
    | nil => exact ⟨by simp, rfl⟩
    | cons hdigit _ ih =>
      have hc := (digit?_eq_some_iff hbase).2 hdigit
      refine ⟨List.forall_mem_cons.2 ⟨(isDigit_iff hbase).2 ⟨_, hdigit⟩, ih.1⟩, ?_⟩
      rw [List.filterMap_cons_some hc, ih.2]
  · rintro ⟨hall, rfl⟩
    induction cs with
    | nil => exact .nil
    | cons c cs ih =>
      rw [List.forall_mem_cons] at hall
      obtain ⟨v, hv⟩ := (isDigit_iff hbase).1 hall.1
      rw [List.filterMap_cons_some ((digit?_eq_some_iff hbase).2 hv)]
      exact .cons hv (ih hall.2)

/-- The digits that text starts with are digits. -/
theorem digits_takeWhile {base : Nat} (hbase : base ≤ 16) (cs : List Char) :
    Digits base (cs.takeWhile (isDigit base))
      ((cs.takeWhile (isDigit base)).filterMap (digit? base)) :=
  (digits_iff hbase).2 ⟨fun _ hc => List.mem_takeWhile_imp hc, rfl⟩

/-- Digits end where something else follows. -/
theorem span_digits {base : Nat} {cs rest : List Char} (hcs : ∀ c ∈ cs, isDigit base c = true)
    (hrest : ∀ c ∈ rest.head?, isDigit base c = false) :
    (cs ++ rest).takeWhile (isDigit base) = cs ∧ (cs ++ rest).dropWhile (isDigit base) = rest := by
  have hstop : rest.takeWhile (isDigit base) = [] ∧ rest.dropWhile (isDigit base) = rest := by
    cases rest with
    | nil => exact ⟨rfl, rfl⟩
    | cons c rest =>
      have hc := hrest c rfl
      simp [hc]
  rw [List.takeWhile_append_of_pos hcs, List.dropWhile_append_of_pos hcs, hstop.1, hstop.2,
    List.append_nil]
  exact ⟨rfl, rfl⟩

/-! ## Signs, fractions and exponents -/

theorem sign_of_head {cs : List Char} (h : ∀ c ∈ cs.head?, c ≠ '-' ∧ c ≠ '+') :
    sign cs = (false, cs) := by
  unfold sign
  split
  · exact absurd rfl (h '-' rfl).1
  · exact absurd rfl (h '+' rfl).2
  · rfl

/-- The sign can be told from digits that follow it. -/
theorem sign_append {front : List Char} {negative : Bool} (h : Sign front negative) {c : Char}
    (hc : isDigit 10 c = true) (cs : List Char) :
    sign (front ++ c :: cs) = (negative, c :: cs) := by
  cases h with
  | none =>
    refine sign_of_head ?_
    rintro d hd
    obtain rfl : c = d := Option.some.inj hd
    constructor
    · rintro rfl
      revert hc
      decide
    · rintro rfl
      revert hc
      decide
  | plus => rfl
  | minus => rfl

/-- Every text is a sign or none, and what follows it. -/
theorem exists_sign (cs : List Char) :
    ∃ front, Sign front (sign cs).1 ∧ cs = front ++ (sign cs).2 := by
  unfold sign
  split
  · exact ⟨['-'], .minus, rfl⟩
  · exact ⟨['+'], .plus, rfl⟩
  · exact ⟨[], .none, rfl⟩

theorem isInteger_iff {base : Nat} {cs : List Char} :
    isInteger base cs = true ↔ cs ≠ [] ∧ ∀ c ∈ cs, isDigit base c = true := by
  simp [isInteger]

theorem isExponent_iff {cs : List Char} : isExponent cs = true ↔ Exponent cs := by
  cases cs with
  | nil => exact iff_of_true rfl .none
  | cons e cs =>
    simp only [isExponent, Bool.and_eq_true, Bool.or_eq_true, beq_iff_eq, isInteger_iff]
    constructor
    · rintro ⟨letter, nonempty, hall⟩
      obtain ⟨front, hfront, hsplit⟩ := exists_sign cs
      have hdigits := (digits_iff (by decide)).2 ⟨hall, rfl⟩
      rw [hsplit]
      exact .power letter hfront hdigits nonempty
    · intro h
      cases h with
      | @power _ front ds negative vs letter hsign digits nonempty =>
        have hall := ((digits_iff (by decide)).1 digits).1
        refine ⟨letter, ?_⟩
        cases ds with
        | nil => exact absurd rfl nonempty
        | cons d ds =>
          rw [sign_append hsign (hall d (List.mem_cons_self ..))]
          exact ⟨nonempty, hall⟩

/-- An exponent does not start with a digit. -/
theorem Exponent.head {cs : List Char} (h : Exponent cs) :
    ∀ c ∈ cs.head?, isDigit 10 c = false := by
  cases h with
  | none => simp
  | power letter =>
    intro c hc
    obtain rfl := Option.some.inj hc
    rcases letter with rfl | rfl <;> decide

/-- Neither does what follows the digits before the point. -/
theorem Fraction.head {cs exponent : List Char} (h : Fraction cs) (he : Exponent exponent) :
    ∀ c ∈ (cs ++ exponent).head?, isDigit 10 c = false := by
  cases h with
  | none => exact he.head
  | point =>
    intro c hc
    obtain rfl := Option.some.inj hc
    decide

/-! ## Decimal numbers -/

section Decimal

variable {front whole fraction exponent : List Char} {negative : Bool} {vs : List Nat}

/-- The parts of a decimal number are found again: its sign, the digits before the point, and the
rest. -/
theorem parts_of_decimal (hsign : Sign front negative) (digits : Digits 10 whole vs)
    (nonempty : whole ≠ []) (after : Fraction fraction) (power : Exponent exponent) :
    sign (front ++ (whole ++ (fraction ++ exponent))) =
        (negative, whole ++ (fraction ++ exponent)) ∧
      (whole ++ (fraction ++ exponent)).takeWhile (isDigit 10) = whole ∧
      (whole ++ (fraction ++ exponent)).dropWhile (isDigit 10) = fraction ++ exponent := by
  have hall := ((digits_iff (by decide)).1 digits).1
  refine ⟨?_, span_digits hall (after.head power)⟩
  cases whole with
  | nil => exact absurd rfl nonempty
  | cons c cs => exact sign_append hsign (hall c (List.mem_cons_self ..)) _

/-- The decimal numbers of the grammar are decimal numbers. -/
theorem isDecimal_of_decimal (hsign : Sign front negative) (digits : Digits 10 whole vs)
    (nonempty : whole ≠ []) (after : Fraction fraction) (power : Exponent exponent) :
    isDecimal (front ++ (whole ++ (fraction ++ exponent))) = true := by
  obtain ⟨hfront, hwhole, hrest⟩ := parts_of_decimal hsign digits nonempty after power
  have hexponent := isExponent_iff.2 power
  have hnonempty : whole.isEmpty = false := by simpa using nonempty
  simp only [isDecimal, hfront, hwhole, hrest]
  cases after with
  | none =>
    -- an exponent has no point at its front, so there are no places to look for
    cases power with
    | none => simp [hnonempty, isExponent]
    | power letter =>
      rcases letter with rfl | rfl <;> simpa [hnonempty] using hexponent
  | point places =>
    have hplaces := span_digits ((digits_iff (by decide)).1 places).1 power.head
    simp [hplaces.2, hnonempty, hexponent]

/-- A decimal number of the grammar is made of the characters that one may have. -/
theorem isDecimalChar_of_decimal (digits : Digits 10 whole vs) (after : Fraction fraction)
    (power : Exponent exponent) :
    ∀ c ∈ whole ++ (fraction ++ exponent), isDecimalChar c = true := by
  have hdigits : ∀ {cs : List Char} {vs : List Nat}, Digits 10 cs vs →
      ∀ c ∈ cs, isDecimalChar c = true := by
    intro cs vs hcs c hc
    simp [isDecimalChar, ((digits_iff (by decide)).1 hcs).1 c hc]
  have hfraction : ∀ c ∈ fraction, isDecimalChar c = true := by
    cases after with
    | none => simp
    | point places => exact List.forall_mem_cons.2 ⟨by decide, hdigits places⟩
  have hexponent : ∀ c ∈ exponent, isDecimalChar c = true := by
    cases power with
    | none => simp
    | power letter hsign digits =>
      have hletter : ∀ {e : Char}, e = 'e' ∨ e = 'E' → isDecimalChar e = true := by
        rintro e (rfl | rfl) <;> decide
      refine List.forall_mem_cons.2 ⟨hletter letter, List.forall_mem_append.2 ⟨?_, hdigits digits⟩⟩
      cases hsign with
      | none => simp
      | plus => simp [isDecimalChar]
      | minus => simp [isDecimalChar]
  exact List.forall_mem_append.2 ⟨hdigits digits, List.forall_mem_append.2 ⟨hfraction, hexponent⟩⟩

end Decimal

/-- A decimal number with digits before its point is one of the grammar. -/
theorem reads_of_isDecimal {cs : List Char} (h : isDecimal cs = true)
    (nonempty : (sign cs).2.takeWhile (isDigit 10) ≠ []) :
    Reads cs ⟨(sign cs).1, 10,
      ((sign cs).2.takeWhile (isDigit 10)).filterMap (digit? 10)⟩ := by
  obtain ⟨front, hfront, hsplit⟩ := exists_sign cs
  have hwhole : Digits 10 _ _ := digits_takeWhile (by decide) (sign cs).2
  have hrest : (sign cs).2 = (sign cs).2.takeWhile (isDigit 10) ++
      (sign cs).2.dropWhile (isDigit 10) := List.takeWhile_append_dropWhile.symm
  have hread : ∀ {fraction exponent : List Char}, Fraction fraction → Exponent exponent →
      (sign cs).2.dropWhile (isDigit 10) = fraction ++ exponent →
      Reads cs ⟨(sign cs).1, 10,
        ((sign cs).2.takeWhile (isDigit 10)).filterMap (digit? 10)⟩ := by
    intro fraction exponent after power hdrop
    have hcs : cs = front ++ ((sign cs).2.takeWhile (isDigit 10) ++ (fraction ++ exponent)) := by
      rw [← hdrop, ← hrest, ← hsplit]
    generalize sign cs = parts at *
    rw [hcs]
    exact .decimal hfront hwhole nonempty after power
  simp only [isDecimal] at h
  split at h
  · next after hdrop =>
    rw [Bool.and_eq_true] at h
    refine hread (.point (digits_takeWhile (by decide) after)) (isExponent_iff.1 h.2) ?_
    rw [hdrop, List.cons_append, List.takeWhile_append_dropWhile]
  · rw [Bool.and_eq_true] at h
    exact hread .none (isExponent_iff.1 h.2) rfl

/-! ## The second scanner -/

/-- Text does not announce hexadecimal digits to the second scanner if no `x` follows a zero. -/
theorem radix_of_ne {cs : List Char}
    (h : ∀ c rest, c = 'x' ∨ c = 'X' → cs ≠ '0' :: c :: rest) : radix cs = (10, cs) := by
  unfold radix
  split
  · exact absurd rfl (h 'x' _ (.inl rfl))
  · exact absurd rfl (h 'X' _ (.inr rfl))
  · rfl

section Blanks

variable {blanks : List Char}

theorem isDigit_of_isBlank {base : Nat} {c : Char} (h : Text.isBlank c = true) :
    isDigit base c = false := by
  have hrange : c.toNat ≤ 32 ∨ 133 ≤ c.toNat := by
    simp [Text.isBlank, Text.blankRanges] at h
    omega
  have h0 : '0'.toNat = 48 := rfl
  have ha : 'a'.toNat = 97 := rfl
  have hA : 'A'.toNat = 65 := rfl
  have h9 : '9'.toNat = 57 := rfl
  have hf : 'f'.toNat = 102 := rfl
  have hF : 'F'.toNat = 70 := rfl
  simp only [isDigit, digit?]
  rw [if_neg (by omega), if_neg (by omega), if_neg (by omega)]
  rfl

theorem not_mem_blanks (hblanks : ∀ c ∈ blanks, Text.isBlank c = true) {c : Char}
    (hc : Text.isBlank c = false) : c ∉ blanks := by
  intro hmem
  rw [hblanks c hmem] at hc
  cases hc

theorem sign_append_blanks (hblanks : ∀ c ∈ blanks, Text.isBlank c = true) (cs : List Char) :
    sign (cs ++ blanks) = ((sign cs).1, (sign cs).2 ++ blanks) := by
  cases cs with
  | nil =>
    refine sign_of_head ?_
    intro c hc
    have hmem := List.mem_of_mem_head? hc
    constructor
    · rintro rfl
      exact not_mem_blanks hblanks (by decide) hmem
    · rintro rfl
      exact not_mem_blanks hblanks (by decide) hmem
  | cons c cs =>
    by_cases hminus : c = '-'
    · subst hminus
      rfl
    by_cases hplus : c = '+'
    · subst hplus
      rfl
    have hhead : ∀ rest : List Char, sign (c :: rest) = (false, c :: rest) := by
      intro rest
      refine sign_of_head ?_
      intro d hd
      obtain rfl : c = d := Option.some.inj hd
      exact ⟨hminus, hplus⟩
    rw [List.cons_append, hhead, hhead]
    rfl

theorem radix_append_blanks (hblanks : ∀ c ∈ blanks, Text.isBlank c = true) (cs : List Char) :
    radix (cs ++ blanks) = ((radix cs).1, (radix cs).2 ++ blanks) := by
  by_cases h : ∃ c rest, (c = 'x' ∨ c = 'X') ∧ cs = '0' :: c :: rest
  · obtain ⟨c, rest, rfl | rfl, rfl⟩ := h
    · rfl
    · rfl
  · have hcs : ∀ c rest, c = 'x' ∨ c = 'X' → cs ≠ '0' :: c :: rest := by
      intro c rest hc heq
      exact h ⟨c, rest, hc, heq⟩
    rw [radix_of_ne hcs]
    refine radix_of_ne ?_
    -- neither the zero nor the letter is a blank
    intro c rest hc heq
    cases cs with
    | nil =>
      have hzero : blanks = '0' :: c :: rest := heq
      exact not_mem_blanks (c := '0') hblanks (by decide) (hzero ▸ List.mem_cons_self ..)
    | cons d tail =>
      obtain ⟨rfl, htail⟩ := List.cons.inj heq
      cases tail with
      | nil =>
        have hletter : blanks = c :: rest := htail
        have hblank : Text.isBlank c = false := by rcases hc with rfl | rfl <;> decide
        exact not_mem_blanks hblanks hblank (hletter ▸ List.mem_cons_self ..)
      | cons e tail =>
        obtain ⟨rfl, -⟩ := List.cons.inj htail
        exact hcs e tail hc rfl

theorem takeWhile_append_blanks (hblanks : ∀ c ∈ blanks, Text.isBlank c = true) (base : Nat)
    (cs : List Char) :
    (cs ++ blanks).takeWhile (isDigit base) = cs.takeWhile (isDigit base) := by
  induction cs with
  | nil =>
    cases blanks with
    | nil => rfl
    | cons c rest =>
      have hc := hblanks c (List.mem_cons_self ..)
      exact List.takeWhile_cons_of_neg (by simp [isDigit_of_isBlank hc])
  | cons c cs ih => simp only [List.cons_append, List.takeWhile_cons, ih]

end Blanks

/-- What the second scanner finds at the start of text: a sign, a base, and one or more digits. -/
def scan? (cs : List Char) : Option Reading :=
  let (negative, unsigned) := sign cs
  let (base, rest) := radix unsigned
  let digits := rest.takeWhile (isDigit base)
  if digits.isEmpty then none else some ⟨negative, base, digits.filterMap (digit? base)⟩

/-- The second scanner does not see blanks, neither in front of text nor behind it. -/
theorem leadingInteger?_eq_map_scan? (text : List Char) :
    leadingInteger? text = (scan? (Text.trim text)).map Reading.weight := by
  obtain ⟨blanks, hblanks, hsplit⟩ := Text.exists_trim_append text
  simp only [leadingInteger?, hsplit, scan?, sign_append_blanks hblanks,
    radix_append_blanks hblanks, takeWhile_append_blanks hblanks]
  split <;> rfl

/-- What is found are the parts that text is made of. -/
theorem scan?_of_parts {cs unsigned rest digits : List Char} {negative : Bool} {base : Nat}
    {vs : List Nat} (hbase : base ≤ 16) (hsign : sign cs = (negative, unsigned))
    (hradix : radix unsigned = (base, rest)) (hdigits : rest.takeWhile (isDigit base) = digits)
    (values : Digits base digits vs) (nonempty : digits ≠ []) :
    scan? cs = some ⟨negative, base, vs⟩ := by
  simp [scan?, hsign, hradix, hdigits, nonempty, ((digits_iff hbase).1 values).2]

/-- No `x` is a character of decimal numbers. -/
theorem radix_of_decimal {cs : List Char} (h : ∀ c ∈ cs, isDecimalChar c = true) :
    radix cs = (10, cs) := by
  refine radix_of_ne ?_
  rintro c rest hc rfl
  have hdecimal := h c (List.mem_cons_of_mem _ (List.mem_cons_self ..))
  revert hdecimal
  rcases hc with rfl | rfl <;> decide

/-- Where another base than sixteen is announced, the second scanner finds the zero in front of the
letter and nothing else. -/
theorem scan?_of_zero {c : Char} (cs : List Char) (hdigit : isDigit 10 c = false)
    (hx : ¬ (c = 'x' ∨ c = 'X')) : scan? ('0' :: c :: cs) = some ⟨false, 10, [0]⟩ := by
  have hzero : Digits 10 ['0'] [0] := .cons ⟨by decide, .inl rfl⟩ .nil
  have hradix : radix ('0' :: c :: cs) = (10, '0' :: c :: cs) := by
    refine radix_of_ne ?_
    rintro d rest hd heq
    obtain ⟨-, rfl, -⟩ : '0' = '0' ∧ c = d ∧ cs = rest := by simpa using heq
    exact hx hd
  have hspan : (['0'] ++ c :: cs).takeWhile (isDigit 10) = ['0'] ∧ _ :=
    span_digits ((digits_iff (by decide)).1 hzero).1 (by simpa using hdigit)
  exact scan?_of_parts (by decide) rfl hradix hspan.1 hzero (List.cons_ne_nil _ _)

/-- The second scanner finds what the grammar says. -/
theorem scan?_of_reads {cs : List Char} {r : Reading} (h : Reads cs r) : scan? cs = some r := by
  cases h with
  | hexadecimal letter digits nonempty =>
    have hall := ((digits_iff (by decide)).1 digits).1
    have htake := List.takeWhile_eq_self_iff.2 hall
    rcases letter with rfl | rfl <;> exact scan?_of_parts (by decide) rfl rfl htake digits nonempty
  | octal letter => rcases letter with rfl | rfl <;> exact scan?_of_zero _ rfl (by decide)
  | binary letter => rcases letter with rfl | rfl <;> exact scan?_of_zero _ rfl (by decide)
  | decimal hsign digits nonempty after power =>
    obtain ⟨hfront, hwhole, -⟩ := parts_of_decimal hsign digits nonempty after power
    have hradix := radix_of_decimal (isDecimalChar_of_decimal digits after power)
    exact scan?_of_parts (by decide) hfront hradix hwhole digits nonempty

/-- The grammar reads text in one way. -/
theorem Reads.unique {cs : List Char} {r r' : Reading} (h : Reads cs r) (h' : Reads cs r') :
    r = r' := by
  have hscan := scan?_of_reads h
  rw [scan?_of_reads h'] at hscan
  exact (Option.some.inj hscan).symm

/-! ## Where the scanners agree -/

/-- What announces a base has a zero and a letter for it in front. -/
theorem announced?_eq_some {cs rest : List Char} {base : Nat}
    (h : announced? cs = some (base, rest)) :
    ∃ c, cs = '0' :: c :: rest ∧ ((c = 'x' ∨ c = 'X') ∧ base = 16 ∨
      (c = 'o' ∨ c = 'O') ∧ base = 8 ∨ (c = 'b' ∨ c = 'B') ∧ base = 2) := by
  unfold announced? at h
  split at h
  · next c tail =>
    simp only [Bool.or_eq_true, beq_iff_eq] at h
    split at h
    · next hc =>
      cases h
      exact ⟨c, rfl, .inl ⟨hc, rfl⟩⟩
    · split at h
      · next hc =>
        cases h
        exact ⟨c, rfl, .inr (.inl ⟨hc, rfl⟩)⟩
      · split at h
        · next hc =>
          cases h
          exact ⟨c, rfl, .inr (.inr ⟨hc, rfl⟩)⟩
        · cases h
  · cases h

/-- Decimal numbers announce no base. -/
theorem announced?_of_decimal {cs : List Char} (h : ∀ c ∈ (sign cs).2, isDecimalChar c = true) :
    announced? cs = none := by
  rw [Option.eq_none_iff_forall_not_mem]
  rintro ⟨base, rest⟩ hannounced
  obtain ⟨c, rfl, hletter⟩ := announced?_eq_some hannounced
  have hdecimal : isDecimalChar c = true := h c (List.mem_cons_of_mem _ (List.mem_cons_self ..))
  revert hdecimal
  rcases hletter with ⟨rfl | rfl, -⟩ | ⟨rfl | rfl, -⟩ | ⟨rfl | rfl, -⟩ <;> decide

/-- The first scanner takes what is in the grammar. -/
theorem isNumeric_of_reads {text : List Char} {r : Reading} (h : Reads (Text.trim text) r) :
    isNumeric text = true := by
  simp only [isNumeric]
  generalize Text.trim text = cs at h ⊢
  have hinteger : ∀ {base : Nat} {cs : List Char} {vs : List Nat}, base ≤ 16 →
      Digits base cs vs → cs ≠ [] → isInteger base cs = true := by
    intro base cs vs hbase digits nonempty
    exact isInteger_iff.2 ⟨nonempty, ((digits_iff hbase).1 digits).1⟩
  cases h with
  | hexadecimal letter digits nonempty =>
    rcases letter with rfl | rfl <;> exact hinteger (by decide) digits nonempty
  | octal letter digits nonempty =>
    rcases letter with rfl | rfl <;> exact hinteger (by decide) digits nonempty
  | binary letter digits nonempty =>
    rcases letter with rfl | rfl <;> exact hinteger (by decide) digits nonempty
  | @decimal front whole fraction exponent negative vs hsign digits nonempty after power =>
    have hdecimal := isDecimal_of_decimal hsign digits nonempty after power
    obtain ⟨hfront, -⟩ := parts_of_decimal hsign digits nonempty after power
    have hchars := isDecimalChar_of_decimal digits after power
    generalize front ++ (whole ++ (fraction ++ exponent)) = cs at hdecimal hfront ⊢
    have hunsigned : ∀ c ∈ (sign cs).2, isDecimalChar c = true := by rwa [hfront]
    have hfloat : isFloat cs = true := by simp [isFloat, hdecimal]
    split
    · rfl
    · rw [announced?_of_decimal hunsigned]
      simp only [List.all_eq_true.2 hunsigned, hfloat, Bool.and_self, Bool.or_true]

/-- No word starts with a digit. -/
theorem not_word_of_digit {c : Char} (cs : List Char) (h : isDigit 10 c = true) :
    numberWords.contains (String.ofList ((c :: cs).map Char.toLower)) = false := by
  have hfirst : c.toLower ≠ 'i' ∧ c.toLower ≠ 'n' := by
    have htable : ∀ v < 10, (v.digitChar.toLower ≠ 'i' ∧ v.digitChar.toLower ≠ 'n') ∧
        v.digitChar.toUpper.toLower ≠ 'i' ∧ v.digitChar.toUpper.toLower ≠ 'n' := by
      decide
    obtain ⟨v, hv, rfl | rfl⟩ := (isDigit_iff (by decide)).1 h
    · exact (htable v hv).1
    · exact (htable v hv).2
  have hword : ∀ {word : String}, word ∈ numberWords →
      word.toList.head? = some 'i' ∨ word.toList.head? = some 'n' := by decide
  rw [Bool.eq_false_iff, Ne, List.contains_iff_mem]
  intro hmem
  have hhead := hword hmem
  rw [String.toList_ofList, List.map_cons, List.head?_cons] at hhead
  exact hhead.elim (fun hi => hfirst.1 (Option.some.inj hi)) fun hn => hfirst.2 (Option.some.inj hn)

/-- What starts with digits is a decimal number if the standard reader takes it. -/
theorem isDecimal_of_isFloat {cs : List Char} (h : isFloat cs = true)
    (hwhole : (sign cs).2.takeWhile (isDigit 10) ≠ []) : isDecimal cs = true := by
  rw [isFloat, Bool.or_eq_true] at h
  rcases h with hdecimal | hword
  · exact hdecimal
  · cases hunsigned : (sign cs).2 with
    | nil => exact absurd (by rw [hunsigned]; rfl) hwhole
    | cons c rest =>
      have hc : isDigit 10 c = true := by
        by_contra hnot
        rw [hunsigned, List.takeWhile_cons_of_neg hnot] at hwhole
        exact hwhole rfl
      rw [hunsigned, not_word_of_digit rest hc] at hword
      cases hword

/-- What both scanners take is in the grammar. -/
theorem reads_of_scan? {text : List Char} {r : Reading} (hnumeric : isNumeric text = true)
    (hscan : scan? (Text.trim text) = some r) : Reads (Text.trim text) r := by
  -- what the second scanner found is the reading, once there is one
  have hfound : ∀ {cs : List Char}, scan? cs = some r → (∃ r', Reads cs r') → Reads cs r := by
    rintro cs hcs ⟨r', hr'⟩
    rw [scan?_of_reads hr'] at hcs
    rwa [← Option.some.inj hcs]
  simp only [isNumeric] at hnumeric
  generalize Text.trim text = cs at hnumeric hscan ⊢
  refine hfound hscan ?_
  split at hnumeric
  · next hempty =>
    obtain rfl : cs = [] := List.isEmpty_iff.1 hempty
    cases hscan
  · split at hnumeric
    · next base digits hannounced =>
      rw [isInteger_iff] at hnumeric
      obtain ⟨c, rfl, ⟨hc, rfl⟩ | ⟨hc, rfl⟩ | ⟨hc, rfl⟩⟩ := announced?_eq_some hannounced
      · exact ⟨_, .hexadecimal hc ((digits_iff (by decide)).2 ⟨hnumeric.2, rfl⟩) hnumeric.1⟩
      · exact ⟨_, .octal hc ((digits_iff (by decide)).2 ⟨hnumeric.2, rfl⟩) hnumeric.1⟩
      · exact ⟨_, .binary hc ((digits_iff (by decide)).2 ⟨hnumeric.2, rfl⟩) hnumeric.1⟩
    · -- a decimal number or a word, and digits are found at the start of the former only
      have hdigits : radix (sign cs).2 = (10, (sign cs).2) →
          (sign cs).2.takeWhile (isDigit 10) ≠ [] := by
        intro hradix hnone
        simp [scan?, hradix, hnone] at hscan
      rw [Bool.or_eq_true, beq_iff_eq, Bool.and_eq_true, List.all_eq_true] at hnumeric
      rcases hnumeric with hinfinity | ⟨hchars, hfloat⟩
      · rw [hinfinity] at hdigits
        exact absurd (by decide) (hdigits rfl)
      · have hwhole := hdigits (radix_of_decimal hchars)
        exact ⟨_, reads_of_isDecimal (isDecimal_of_isFloat hfloat hwhole) hwhole⟩

/-- Text counts for a weight exactly if the grammar reads it, and for what is read. -/
theorem layoutWeight?_eq_some_iff {s : String} {x : Double} :
    (text s).layoutWeight? = some x ↔ ∃ r, Reads (Text.trim s.toList) r ∧ x = r.weight := by
  simp only [layoutWeight?, leadingInteger?_eq_map_scan?]
  constructor
  · intro h
    split at h
    · next hnumeric =>
      obtain ⟨r, hscan, hr⟩ := Option.map_eq_some_iff.1 h
      exact ⟨r, reads_of_scan? hnumeric hscan, hr.symm⟩
    · cases h
  · rintro ⟨r, hr, rfl⟩
    rw [if_pos (isNumeric_of_reads hr), scan?_of_reads hr, Option.map_some]

/-- A reading of up to fifty-three bits is not rounded. -/
theorem Reading.isWhole_weight {r : Reading} (hbase : 0 < r.base) (h : r.integer < 1 <<< 53) :
    r.weight.IsWhole r.negative r.integer := by
  have hzero : Double.units 0 = 0 * Double.one := by decide
  obtain ⟨hfinite, hunits⟩ := Double.units_fold hbase (by decide) hzero h
  exact .ofMagnitude hfinite hunits r.negative

theorem Reads.base_pos {cs : List Char} {r : Reading} (h : Reads cs r) : 0 < r.base := by
  cases h <;> exact Nat.succ_pos _

/-- The weight that text counts for. It is the one that is put together from the digits that the
grammar reads in the text, and there is none for other text. Where the digits make up less than two
to the power of fifty-three, the weight is exactly the number that they make up, with its sign. -/
theorem layoutWeight?_text (s : String) :
    (∀ x, (text s).layoutWeight? = some x ↔ ∃ r, Reads (Text.trim s.toList) r ∧ x = r.weight) ∧
      ((text s).layoutWeight? = none ↔ ∀ r, ¬ Reads (Text.trim s.toList) r) ∧
      ∀ r, Reads (Text.trim s.toList) r → r.integer < 1 <<< 53 →
        ∃ x, (text s).layoutWeight? = some x ∧ x.IsWhole r.negative r.integer := by
  refine ⟨fun x => layoutWeight?_eq_some_iff, ?none, ?exact⟩
  case none =>
    rw [Option.eq_none_iff_forall_ne_some]
    constructor
    · intro hnone r hr
      exact hnone r.weight (layoutWeight?_eq_some_iff.2 ⟨r, hr, rfl⟩)
    · intro hnot x hx
      obtain ⟨r, hr, -⟩ := layoutWeight?_eq_some_iff.1 hx
      exact hnot r hr
  case exact =>
    intro r hr hsmall
    exact ⟨r.weight, layoutWeight?_eq_some_iff.2 ⟨r, hr, rfl⟩,
      Reading.isWhole_weight hr.base_pos hsmall⟩

/-- A fraction is cut off, hexadecimal digits are read in capitals as well, and the sign of a zero
is kept. Without digits before the point there is no weight, and such text is not in the grammar. -/
theorem layoutWeight?_text_four_texts :
    (∃ x, (text " -7.5 ").layoutWeight? = some x ∧ x.IsWhole true 7) ∧
      (∃ x, (text "0xfF").layoutWeight? = some x ∧ x.IsWhole false 255) ∧
      (∃ x, (text "-0").layoutWeight? = some x ∧ x.IsWhole true 0) ∧
      ∀ r, ¬ Reads (Text.trim ".5".toList) r := by
  have htrim : Text.trim " -7.5 ".toList = ['-'] ++ (['7'] ++ (['.', '5'] ++ [])) := by decide
  have hseven : Digits 10 ['7'] [7] := .cons ⟨by decide, .inl rfl⟩ .nil
  have hfive : Digits 10 ['5'] [5] := .cons ⟨by decide, .inl rfl⟩ .nil
  have hbyte : Digits 16 ['f', 'F'] [15, 15] :=
    .cons ⟨by decide, .inl rfl⟩ (.cons ⟨by decide, .inr rfl⟩ .nil)
  have hzero : Digits 10 ['0'] [0] := .cons ⟨by decide, .inl rfl⟩ .nil
  refine ⟨?_, ?_, ?_, (layoutWeight?_text ".5").2.1.1 rfl⟩
  · refine (layoutWeight?_text " -7.5 ").2.2 ⟨true, 10, [7]⟩ ?_ (by decide)
    rw [htrim]
    exact .decimal .minus hseven (by decide) (.point hfive) .none
  · exact (layoutWeight?_text "0xfF").2.2 ⟨false, 16, [15, 15]⟩
      (.hexadecimal (.inl rfl) hbyte (by decide)) (by decide)
  · exact (layoutWeight?_text "-0").2.2 ⟨true, 10, [0]⟩
      (.decimal .minus hzero (by decide) .none .none) (by decide)

end LooseNumber

end Reconciler
