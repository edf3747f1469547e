import Reconciler.Json.Record
import Reconciler.Proofs.WeightGrammar

/-!
# The grammar of JSON

Which text is JSON, and for which value, without mention of any reader. Every relation takes
something from the front of a text and leaves the text after it: `Written cs v rest` says that `v`
is written in front of `rest`. The relations do not say how far spaces or digits go; what follows
them decides.

The readers of tokens read what the grammar says and leave what it leaves. This is shown for texts
and flags (`Json.accepts_text`, `Json.accepts_flag`), and the readers of records build on it.
-/

namespace Reconciler.Json

/-! ## Values -/

/-- A value of JSON. A number is kept as it is written, and an object may have a key more than
once. -/
inductive Value where
  | null
  | flag (b : Bool)
  | number (digits : List Char)
  | text (s : String)
  | array (elements : List Value)
  | object (members : List (String × Value))

/-! ## The grammar -/

/-- Any number of spaces. -/
inductive Spaces : List Char → List Char → Prop
  | none {cs : List Char} : Spaces cs cs
  | one {c : Char} {cs rest : List Char} (space : isSpace c = true) (more : Spaces cs rest) :
      Spaces (c :: cs) rest

/-- Nothing, or a point and one or more digits. -/
inductive Fraction : List Char → Prop
  | none : Fraction []
  | point {cs : List Char} {vs : List Nat} (places : LooseNumber.Digits 10 cs vs)
      (nonempty : cs ≠ []) : Fraction ('.' :: cs)

/-- The text of a number: a minus sign if need be, digits without a zero in front of others, and a
fraction and an exponent if need be. -/
inductive IsNumber : List Char → Prop
  | parts {minus whole fraction exponent : List Char} {vs : List Nat}
      (sign : minus = [] ∨ minus = ['-']) (digits : LooseNumber.Digits 10 whole vs)
      (nonempty : whole ≠ []) (zero : whole.head? = some '0' → whole = ['0'])
      (after : Fraction fraction) (power : LooseNumber.Exponent exponent) :
      IsNumber (minus ++ (whole ++ (fraction ++ exponent)))

/-- Four hexadecimal digits, and the code that they make up. -/
inductive Code : List Char → Nat → List Char → Prop
  | digits {a b c d : Char} {i j k l : Nat} {rest : List Char} (first : LooseNumber.Digit 16 a i)
      (second : LooseNumber.Digit 16 b j) (third : LooseNumber.Digit 16 c k)
      (fourth : LooseNumber.Digit 16 d l) :
      Code (a :: b :: c :: d :: rest) (((i * 16 + j) * 16 + k) * 16 + l) rest

/-- The code that a leading and a trailing surrogate make up. -/
def pairCode (lead trail : Nat) : Nat := (lead - 0xD800) * 0x400 + (trail - 0xDC00) + 0x10000

/-- What follows a backslash, and the character that it stands for. A code of the surrogates stands
for a character only together with another one, the leading one first. -/
inductive Escape : List Char → Char → List Char → Prop
  | quote {rest : List Char} : Escape ('"' :: rest) '"' rest
  | backslash {rest : List Char} : Escape ('\\' :: rest) '\\' rest
  | slash {rest : List Char} : Escape ('/' :: rest) '/' rest
  | backspace {rest : List Char} : Escape ('b' :: rest) '\x08' rest
  | formFeed {rest : List Char} : Escape ('f' :: rest) '\x0c' rest
  | lineFeed {rest : List Char} : Escape ('n' :: rest) '\n' rest
  | carriageReturn {rest : List Char} : Escape ('r' :: rest) '\r' rest
  | tab {rest : List Char} : Escape ('t' :: rest) '\t' rest
  | code {cs rest : List Char} {n : Nat} (digits : Code cs n rest)
      (basic : n < 0xD800 ∨ 0xDFFF < n) : Escape ('u' :: cs) (Char.ofNat n) rest
  | pair {cs ds rest : List Char} {lead trail : Nat} (leading : Code cs lead ('\\' :: 'u' :: ds))
      (inLeading : 0xD800 ≤ lead ∧ lead ≤ 0xDBFF) (trailing : Code ds trail rest)
      (inTrailing : 0xDC00 ≤ trail ∧ trail ≤ 0xDFFF) :
      Escape ('u' :: cs) (Char.ofNat (pairCode lead trail)) rest

/-- What follows an opening quotation mark, up to the closing one, and the characters that it stands
for. -/
inductive Quoted : List Char → List Char → List Char → Prop
  | close {rest : List Char} : Quoted ('"' :: rest) [] rest
  | plain {c : Char} {cs s rest : List Char} (visible : ¬ c < ' ') (mark : c ≠ '"')
      (backslash : c ≠ '\\') (more : Quoted cs s rest) : Quoted (c :: cs) (c :: s) rest
  | escaped {c : Char} {cs mid s rest : List Char} (escape : Escape cs c mid)
      (more : Quoted mid s rest) : Quoted ('\\' :: cs) (c :: s) rest

/-- What comes before an item: spaces, and a comma among them unless the item is the first one. -/
inductive Lead : Bool → List Char → List Char → Prop
  | first {cs rest : List Char} (spaces : Spaces cs rest) : Lead true cs rest
  | next {cs mid rest : List Char} (before : Spaces cs (',' :: mid)) (after : Spaces mid rest) :
      Lead false cs rest

/-- Items up to a closing character. -/
inductive Listed {α : Type} (mark : Char) (Item : List Char → α → List Char → Prop) :
    Bool → List Char → List α → List Char → Prop
  | close {first : Bool} {cs rest : List Char} (spaces : Spaces cs (mark :: rest)) :
      Listed mark Item first cs [] rest
  | item {first : Bool} {cs mid after rest : List Char} {a : α} {as : List α}
      (lead : Lead first cs mid) (item : Item mid a after)
      (more : Listed mark Item false after as rest) : Listed mark Item first cs (a :: as) rest

/-- A member of an object: a key, a colon, and a value. -/
inductive Member (Item : List Char → Value → List Char → Prop) :
    List Char → String × Value → List Char → Prop
  | keyed {cs before mid after rest k : List Char} {v : Value} (key : Quoted cs k before)
      (colon : Spaces before (':' :: mid)) (spaces : Spaces mid after) (value : Item after v rest) :
      Member Item ('"' :: cs) (String.ofList k, v) rest

/-- A value, without spaces in front of it. -/
inductive Written : List Char → Value → List Char → Prop
  | null {rest : List Char} : Written ("null".toList ++ rest) .null rest
  | yes {rest : List Char} : Written ("true".toList ++ rest) (.flag true) rest
  | no {rest : List Char} : Written ("false".toList ++ rest) (.flag false) rest
  | number {ds rest : List Char} (digits : IsNumber ds) : Written (ds ++ rest) (.number ds) rest
  | text {cs s rest : List Char} (quoted : Quoted cs s rest) :
      Written ('"' :: cs) (.text (String.ofList s)) rest
  | array {cs rest : List Char} {vs : List Value} (elements : Listed ']' Written true cs vs rest) :
      Written ('[' :: cs) (.array vs) rest
  | object {cs rest : List Char} {ms : List (String × Value)}
      (members : Listed '\x7d' (Member Written) true cs ms rest) :
      Written ('\x7b' :: cs) (.object ms) rest

/-- A text that is one value, with spaces around it. -/
def Document (text : List Char) (v : Value) : Prop :=
  ∃ cs rest, Spaces text cs ∧ Written cs v rest ∧ Spaces rest []

/-! ## Members -/

theorem member_iff {Item : List Char → Value → List Char → Prop} {cs rest : List Char} {k : String}
    {v : Value} :
    Member Item cs (k, v) rest ↔
      ∃ ds s before mid after, cs = '"' :: ds ∧ k = String.ofList s ∧ Quoted ds s before ∧
        Spaces before (':' :: mid) ∧ Spaces mid after ∧ Item after v rest := by
  constructor
  · intro h
    cases h with
    | keyed key colon spaces value => exact ⟨_, _, _, _, _, rfl, rfl, key, colon, spaces, value⟩
  · rintro ⟨ds, s, before, mid, after, rfl, rfl, hkey, hcolon, hspaces, hvalue⟩
    exact .keyed hkey hcolon hspaces hvalue

/-! ## Spaces -/

theorem spaces_skipSpace (cs : List Char) : Spaces cs (skipSpace cs) := by
  induction cs with
  | nil => exact .none
  | cons c cs ih =>
    by_cases hc : isSpace c = true
    · have hskip : skipSpace (c :: cs) = skipSpace cs := List.dropWhile_cons_of_pos hc
      rw [hskip]
      exact .one hc ih
    · have hskip : skipSpace (c :: cs) = c :: cs := List.dropWhile_cons_of_neg hc
      rw [hskip]
      exact .none

/-- What follows spaces is found, unless it is a space itself. -/
theorem skipSpace_of_spaces {cs rest : List Char} (h : Spaces cs rest)
    (hrest : ∀ c ∈ rest.head?, isSpace c = false) : skipSpace cs = rest := by
  induction h with
  | @none cs =>
    cases cs with
    | nil => rfl
    | cons c cs =>
      have hc := hrest c rfl
      exact List.dropWhile_cons_of_neg (by simp [hc])
  | one space _ ih =>
    have hskip := ih hrest
    rw [← hskip]
    exact List.dropWhile_cons_of_pos space

/-- A sign that is no space is in front after the spaces are skipped exactly if spaces lead to
it. -/
theorem skipSpace_eq_cons_iff {c : Char} {cs rest : List Char} (hc : isSpace c = false) :
    skipSpace cs = c :: rest ↔ Spaces cs (c :: rest) := by
  constructor
  · intro h
    have hspaces := spaces_skipSpace cs
    rwa [h] at hspaces
  · intro h
    refine skipSpace_of_spaces h ?_
    intro d hd
    obtain rfl := Option.some.inj hd
    exact hc

/-- After the spaces are skipped, no space is in front. -/
theorem isSpace_of_skipSpace {c : Char} {cs rest : List Char} (h : skipSpace cs = c :: rest) :
    isSpace c = false := by
  have hhead := List.head?_dropWhile_not isSpace cs
  have hdrop : cs.dropWhile isSpace = c :: rest := h
  rw [hdrop] at hhead
  simpa using hhead

/-! ## Escaped characters -/

theorem hexDigit?_eq_some_iff {c : Char} {v : Nat} :
    hexDigit? c = some v ↔ LooseNumber.Digit 16 c v := by
  have hsame : LooseNumber.digit? 16 c = hexDigit? c := by
    have h9 : '9'.toNat = 57 := rfl
    have hf : 'f'.toNat = 102 := rfl
    have hF : 'F'.toNat = 70 := rfl
    have h0 : '0'.toNat = 48 := rfl
    have ha : 'a'.toNat = 97 := rfl
    have hA : 'A'.toNat = 65 := rfl
    unfold LooseNumber.digit? hexDigit?
    dsimp only
    split
    · exact Option.filter_some_pos (by simp; omega)
    · split
      · exact Option.filter_some_pos (by simp; omega)
      · split
        · exact Option.filter_some_pos (by simp; omega)
        · rfl
  rw [← hsame, LooseNumber.digit?_sixteen_iff]

theorem hexGroup_eq_ok_iff {cs rest : List Char} {n : Nat} :
    hexGroup cs = .ok (n, rest) ↔ Code cs n rest := by
  constructor
  · intro h
    unfold hexGroup at h
    split at h
    · cases h
    · split at h
      · split at h
        · next hi hj hk hl =>
          cases h
          exact .digits (hexDigit?_eq_some_iff.1 hi) (hexDigit?_eq_some_iff.1 hj)
            (hexDigit?_eq_some_iff.1 hk) (hexDigit?_eq_some_iff.1 hl)
        · cases h
      · cases h
  · rintro ⟨first, second, third, fourth⟩
    next a b c d i j k l =>
    have hbytes : ¬ byteCount ((a :: b :: c :: d :: rest).take 4) < 4 := by
      have ha := a.utf8Size_pos
      have hb := b.utf8Size_pos
      have hc := c.utf8Size_pos
      have hd := d.utf8Size_pos
      simp only [List.take_succ_cons, List.take_zero, byteCount]
      omega
    unfold hexGroup
    rw [if_neg hbytes]
    simp only [hexDigit?_eq_some_iff.2 first, hexDigit?_eq_some_iff.2 second,
      hexDigit?_eq_some_iff.2 third, hexDigit?_eq_some_iff.2 fourth]

theorem isLeading_iff {n : Nat} : isLeading n = true ↔ 0xD800 ≤ n ∧ n ≤ 0xDBFF := by
  simp [isLeading]

theorem isTrailing_iff {n : Nat} : isTrailing n = true ↔ 0xDC00 ≤ n ∧ n ≤ 0xDFFF := by
  simp [isTrailing]

/-- After a leading surrogate, a trailing one is read. -/
theorem trailing_eq_ok_iff {lead : Nat} {cs rest : List Char} {c : Char} :
    trailing lead cs = .ok (c, rest) ↔
      ∃ ds trail, cs = '\\' :: 'u' :: ds ∧ Code ds trail rest ∧
        (0xDC00 ≤ trail ∧ trail ≤ 0xDFFF) ∧ c = Char.ofNat (pairCode lead trail) := by
  constructor
  · intro h
    unfold trailing at h
    split at h
    · cases h
    · cases h
    · next ds =>
      split at h
      · cases h
      · next trail mid hgroup =>
        split at h
        · next hin =>
          rw [Except.ok.injEq, Prod.mk.injEq] at h
          obtain ⟨hc, rfl⟩ := h
          exact ⟨ds, trail, rfl, hexGroup_eq_ok_iff.1 hgroup, isTrailing_iff.1 hin, hc.symm⟩
        · cases h
    · cases h
  · rintro ⟨ds, trail, rfl, hcode, hin, hc⟩
    unfold trailing
    simp only [hexGroup_eq_ok_iff.2 hcode, isTrailing_iff.2 hin, if_true, hc, pairCode]

theorem coded_eq_ok_iff {cs rest : List Char} {c : Char} :
    coded cs = .ok (c, rest) ↔ Escape ('u' :: cs) c rest := by
  constructor
  · intro h
    unfold coded at h
    split at h
    · cases h
    · next n mid hgroup =>
      have hcode := hexGroup_eq_ok_iff.1 hgroup
      split at h
      · cases h
      · next hnot =>
        rw [isTrailing_iff] at hnot
        split at h
        · next hleading =>
          obtain ⟨ds, trail, rfl, htrail, hin, hc⟩ := trailing_eq_ok_iff.1 h
          rw [hc]
          exact .pair hcode (isLeading_iff.1 hleading) htrail hin
        · next hbasic =>
          rw [isLeading_iff] at hbasic
          rw [Except.ok.injEq, Prod.mk.injEq] at h
          obtain ⟨rfl, rfl⟩ := h
          exact .code hcode (by omega)
  · intro h
    unfold coded
    cases h with
    | @code _ _ n hcode basic =>
      have htrailing : ¬ isTrailing n = true := mt isTrailing_iff.1 (by omega)
      have hleading : ¬ isLeading n = true := mt isLeading_iff.1 (by omega)
      simp only [hexGroup_eq_ok_iff.2 hcode, if_neg htrailing, if_neg hleading]
    | @pair _ ds _ lead trail hcode inLeading htrail inTrailing =>
      have htrailing : ¬ isTrailing lead = true := mt isTrailing_iff.1 (by omega)
      simp only [hexGroup_eq_ok_iff.2 hcode, if_neg htrailing, if_pos (isLeading_iff.2 inLeading)]
      exact trailing_eq_ok_iff.2 ⟨ds, trail, rfl, htrail, inTrailing, rfl⟩

theorem escaped_eq_ok_iff {cs rest : List Char} {c : Char} :
    escaped cs = .ok (c, rest) ↔ Escape cs c rest := by
  constructor
  · intro h
    unfold escaped at h
    split at h
    case h_1 => cases h
    case h_10 => exact coded_eq_ok_iff.1 h
    case h_11 => cases h
    all_goals
      cases h
      constructor
  · intro h
    cases h with
    | code hcode basic => exact coded_eq_ok_iff.2 (.code hcode basic)
    | pair hcode inLeading htrail inTrailing =>
      exact coded_eq_ok_iff.2 (.pair hcode inLeading htrail inTrailing)
    | _ => rfl

/-- What is read up to a quotation mark is what the grammar says. -/
theorem unquoted_eq_ok_iff {cs s rest : List Char} :
    unquoted cs = .ok (s, rest) ↔ Quoted cs s rest := by
  constructor
  · intro h
    fun_induction unquoted cs generalizing s rest with
    | case1 => cases h
    | case2 cs =>
      cases h
      exact .close
    | case3 => cases h
    | case4 => cases h
    | case5 cs c mid hescaped text after hmore ih =>
      cases h
      exact .escaped (escaped_eq_ok_iff.1 hescaped) (ih hmore)
    | case6 => cases h
    | case7 => cases h
    | case8 c cs hmark hbackslash hvisible text after hmore ih =>
      cases h
      exact .plain hvisible (by simpa using hmark) (by simpa using hbackslash) (ih hmore)
  · intro h
    induction h with
    | close => rw [unquoted]
    | plain visible mark backslash _ ih =>
      rw [unquoted]
      · rw [if_neg visible, ih]
      · simpa using mark
      · simpa using backslash
    | @escaped c cs mid s rest hescape _ ih =>
      have hread := escaped_eq_ok_iff.2 hescape
      rw [unquoted]
      split
      · next hfault =>
        rw [hread] at hfault
        cases hfault
      · next hread' =>
        rw [hread] at hread'
        cases hread'
        rw [ih]

/-! ## Texts and flags -/

/-- A reader accepts what stands for something, and nothing else: it reads a value with spaces in
front of it, and what the value stands for. -/
def Accepts {α : Type} (reader : Reader α) (Stands : Value → α → Prop) : Prop :=
  ∀ cs a rest, reader cs = .ok (a, rest) ↔
    ∃ mid v, Spaces cs mid ∧ Written mid v rest ∧ Stands v a

theorem word_eq_ok_iff {α : Type} {a b : α} {ws cs rest : List Char} :
    word a ws cs = .ok (b, rest) ↔ b = a ∧ cs = ws ++ rest := by
  induction ws generalizing cs with
  | nil =>
    simp only [word, Except.ok.injEq, Prod.mk.injEq, List.nil_append]
    exact and_congr_left' eq_comm
  | cons w ws ih =>
    cases cs with
    | nil => simp [word]
    | cons c cs =>
      by_cases hc : c = w
      · simp [word, hc, ih]
      · simp [word, hc]

/-- What is not wanted is not read. -/
theorem unwanted_ne_ok {α : Type} (cs : List Char) (x : α × List Char) :
    unwanted cs ≠ .ok x := by
  have hrefuse : ∀ {β : Type} (r : Except Fault β), unwanted.refuse r ≠ .ok x := by
    intro β r
    cases r <;> simp [unwanted.refuse]
  unfold unwanted
  split
  case h_7 => simp
  case h_8 => simp
  case h_1 => simp
  case h_9 =>
    split
    · exact hrefuse _
    · simp
  all_goals exact hrefuse _

theorem accepts_text : Accepts text fun v s => v = .text s := by
  intro cs s rest
  constructor
  · intro h
    unfold text at h
    split at h
    · next ds hskip =>
      split at h
      · cases h
      · next s' rest' hquoted =>
        cases h
        refine ⟨_, _, (skipSpace_eq_cons_iff (by decide)).1 hskip, ?_, rfl⟩
        exact .text (unquoted_eq_ok_iff.1 hquoted)
    · exact absurd h (unwanted_ne_ok _ _)
  · rintro ⟨mid, v, hspaces, hwritten, rfl⟩
    cases hwritten with
    | text quoted =>
      have hskip := (skipSpace_eq_cons_iff (by decide)).2 hspaces
      simp only [text, hskip, unquoted_eq_ok_iff.2 quoted]

theorem accepts_flag : Accepts flag fun v b => v = .flag b := by
  intro cs b rest
  constructor
  · intro h
    unfold flag at h
    split at h
    · next ds hskip =>
      obtain ⟨rfl, rfl⟩ := word_eq_ok_iff.1 h
      exact ⟨_, _, (skipSpace_eq_cons_iff (by decide)).1 hskip, .yes, rfl⟩
    · next ds hskip =>
      obtain ⟨rfl, rfl⟩ := word_eq_ok_iff.1 h
      exact ⟨_, _, (skipSpace_eq_cons_iff (by decide)).1 hskip, .no, rfl⟩
    · exact absurd h (unwanted_ne_ok _ _)
  · rintro ⟨mid, v, hspaces, hwritten, rfl⟩
    cases hwritten with
    | yes =>
      have hskip := (skipSpace_eq_cons_iff (by decide)).2 hspaces
      simp only [flag, hskip]
      exact word_eq_ok_iff.2 ⟨rfl, rfl⟩
    | no =>
      have hskip := (skipSpace_eq_cons_iff (by decide)).2 hspaces
      simp only [flag, hskip]
      exact word_eq_ok_iff.2 ⟨rfl, rfl⟩

/-- A whole document is read as the grammar says, if its value is. -/
theorem document_eq_ok_iff {α : Type} {reader : Reader α} {Stands : Value → α → Prop}
    (h : Accepts reader Stands) {s : String} {a : α} :
    document reader s = .ok a ↔ ∃ v, Document s.toList v ∧ Stands v a := by
  have hend : ∀ {rest : List Char}, (skipSpace rest).isEmpty = true ↔ Spaces rest [] := by
    intro rest
    rw [List.isEmpty_iff]
    constructor
    · intro hskip
      have hspaces := spaces_skipSpace rest
      rwa [hskip] at hspaces
    · intro hspaces
      exact skipSpace_of_spaces hspaces (by simp)
  constructor
  · intro hread
    unfold document at hread
    split at hread
    · cases hread
    · next b rest hok =>
      split at hread
      · next hrest =>
        cases hread
        obtain ⟨mid, v, hspaces, hwritten, hstands⟩ := (h _ _ _).1 hok
        exact ⟨v, ⟨mid, rest, hspaces, hwritten, hend.1 hrest⟩, hstands⟩
      · cases hread
  · rintro ⟨v, ⟨mid, rest, hspaces, hwritten, hrest⟩, hstands⟩
    have hok := (h _ _ _).2 ⟨mid, v, hspaces, hwritten, hstands⟩
    simp only [document, hok, hend.2 hrest, if_true]

end Reconciler.Json
