import Reconciler.Proofs.JsonGrammar

/-!
# A document has one value

The grammar of JSON is unambiguous: a text is a document of at most one value
(`Json.Document.unique`). The relations of the grammar are not functions from the front of a text,
for a number may be cut short anywhere between its digits. They are once it is known that a value
ends where it must (`Json.Stops`), and in a document it does: a comma, a closing bracket, a space or
the end of the text comes next.

Two values that are told from the front of one text start with one character, and so they are of one
kind (`Json.Value.Starts.same`). Numbers are all that may stand in a number, and texts are what is
read up to the closing mark. Arrays and objects are taken apart item by item (`Json.Listed.unique`),
by the size of the value.
-/

namespace Reconciler.Json

/-! ## Where values start and stop -/

/-- The characters that may follow a value. -/
def isDelimiter (c : Char) : Bool := isSpace c || c == ',' || c == ']' || c == '\x7d'

/-- The characters that may stand in a number. -/
def inNumber (c : Char) : Bool :=
  isDigit c || c == '-' || c == '+' || c == '.' || c == 'e' || c == 'E'

theorem inNumber_of_isDelimiter {c : Char} (h : isDelimiter c = true) : inNumber c = false := by
  simp only [isDelimiter, isSpace, Bool.or_eq_true, beq_iff_eq] at h
  rcases h with (((((rfl | rfl) | rfl) | rfl) | rfl) | rfl) | rfl <;> decide

theorem isSpace_of_isDelimiter {c : Char} (h : isDelimiter c = false) : isSpace c = false := by
  rw [Bool.eq_false_iff]
  intro hspace
  simp [isDelimiter, hspace] at h

/-- The characters that a value may start with. -/
inductive Value.Starts : Value → Char → Prop
  | null : Starts .null 'n'
  | yes : Starts (.flag true) 't'
  | no : Starts (.flag false) 'f'
  | number {ds : List Char} {c : Char} (h : inNumber c = true) : Starts (.number ds) c
  | text {s : String} : Starts (.text s) '"'
  | array {vs : List Value} : Starts (.array vs) '['
  | object {ms : List (String × Value)} : Starts (.object ms) '\x7b'

theorem Value.Starts.isDelimiter {v : Value} {c : Char} (h : v.Starts c) :
    isDelimiter c = false := by
  cases h with
  | number h =>
    rw [Bool.eq_false_iff]
    intro hc
    rw [inNumber_of_isDelimiter hc] at h
    cases h
  | _ => rfl

/-- Values that start alike are of one kind. -/
theorem Value.Starts.same {P : Value → Value → Prop} {v w : Value} {c : Char} (hv : v.Starts c)
    (hw : w.Starts c) (null : P .null .null) (flag : ∀ b, P (.flag b) (.flag b))
    (number : ∀ ds es, P (.number ds) (.number es)) (text : ∀ s r, P (.text s) (.text r))
    (array : ∀ vs ws, P (.array vs) (.array ws)) (object : ∀ ms ns, P (.object ms) (.object ns)) :
    P v w := by
  cases hv with
  | number hc =>
    cases hw with
    | number => exact number _ _
    | _ => exact absurd hc (by decide)
  | null =>
    cases hw with
    | number hc => exact absurd hc (by decide)
    | null => exact null
  | yes =>
    cases hw with
    | number hc => exact absurd hc (by decide)
    | yes => exact flag true
  | no =>
    cases hw with
    | number hc => exact absurd hc (by decide)
    | no => exact flag false
  | text =>
    cases hw with
    | number hc => exact absurd hc (by decide)
    | text => exact text _ _
  | array =>
    cases hw with
    | number hc => exact absurd hc (by decide)
    | array => exact array _ _
  | object =>
    cases hw with
    | number hc => exact absurd hc (by decide)
    | object => exact object _ _

/-- A value ends where it must: the text ends, or a character comes next that may follow a value. -/
def Stops (rest : List Char) : Prop := ∀ c ∈ rest.head?, isDelimiter c = true

theorem stops_of_spaces {cs rest : List Char} (h : Spaces cs rest) (hrest : Stops rest) :
    Stops cs := by
  cases h with
  | none => exact hrest
  | one space =>
    intro c hc
    obtain rfl := Option.some.inj hc
    simp [isDelimiter, space]

/-! ## Numbers -/

theorem inNumber_of_digits {cs : List Char} {vs : List Nat} (h : LooseNumber.Digits 10 cs vs) :
    ∀ c ∈ cs, inNumber c = true := by
  have hten : ∀ v < 10, inNumber v.digitChar = true ∧ inNumber v.digitChar.toUpper = true := by
    decide
  induction h with
  | nil => simp
  | cons digit _ ih =>
    refine List.forall_mem_cons.2 ⟨?_, ih⟩
    rcases digit.2 with rfl | rfl
    · exact (hten _ digit.1).1
    · exact (hten _ digit.1).2

theorem inNumber_of_isNumber {ds : List Char} (h : IsNumber ds) : ∀ c ∈ ds, inNumber c = true := by
  obtain ⟨sign, whole, -, -, fraction, power⟩ := h
  simp only [List.forall_mem_append]
  refine ⟨?_, inNumber_of_digits whole, ?_, ?_⟩
  · rcases sign with rfl | rfl <;> simp [inNumber]
  · cases fraction with
    | none => simp
    | point places => exact List.forall_mem_cons.2 ⟨by decide, inNumber_of_digits places⟩
  · cases power with
    | none => simp
    | power letter sign digits =>
      refine List.forall_mem_cons.2 ⟨?_, List.forall_mem_append.2 ⟨?_, inNumber_of_digits digits⟩⟩
      · rcases letter with rfl | rfl <;> decide
      · cases sign <;> simp [inNumber]

theorem IsNumber.ne_nil {ds : List Char} (h : IsNumber ds) : ds ≠ [] := by
  obtain ⟨-, -, nonempty, -, -, -⟩ := h
  simp [nonempty]

/-- A number that stops is told by the text. -/
theorem number_unique {ds es rest rest' : List Char} (hds : IsNumber ds) (hrest : Stops rest)
    (hes : IsNumber es) (hrest' : Stops rest') (h : ds ++ rest = es ++ rest') :
    es = ds ∧ rest' = rest := by
  -- it is all that may stand in a number at the front of the text
  have hfront : ∀ {ds rest : List Char}, IsNumber ds → Stops rest →
      (ds ++ rest).takeWhile inNumber = ds := by
    intro ds rest hds hrest
    rw [List.takeWhile_append_of_pos (inNumber_of_isNumber hds)]
    cases rest with
    | nil => simp
    | cons c rest =>
      have hc : inNumber c = false := inNumber_of_isDelimiter (hrest c rfl)
      simp [hc]
  have hsame : es = ds := by
    rw [← hfront hes hrest', ← h, hfront hds hrest]
  subst hsame
  exact ⟨rfl, (List.append_cancel_left h).symm⟩

/-- The first character of a value is one of those that it may start with. -/
theorem Written.exists_starts {cs rest : List Char} {v : Value} (h : Written cs v rest) :
    ∃ c ds, cs = c :: ds ∧ v.Starts c := by
  cases h with
  | null => exact ⟨_, _, rfl, .null⟩
  | yes => exact ⟨_, _, rfl, .yes⟩
  | no => exact ⟨_, _, rfl, .no⟩
  | text => exact ⟨_, _, rfl, .text⟩
  | array => exact ⟨_, _, rfl, .array⟩
  | object => exact ⟨_, _, rfl, .object⟩
  | @number ds rest digits =>
    obtain ⟨c, ds, rfl⟩ := List.exists_cons_of_ne_nil digits.ne_nil
    exact ⟨c, _, rfl, .number (inNumber_of_isNumber digits c (List.mem_cons_self ..))⟩

/-! ## Items -/

/-- From the front of a text no other item can be taken than this one. -/
def Unambiguous {α : Type} (Item : List Char → α → List Char → Prop) (a : α) : Prop :=
  ∀ ⦃cs rest rest' b⦄, Item cs a rest → Stops rest → Item cs b rest' → Stops rest' →
    b = a ∧ rest' = rest

/-- Spaces go up to the first character that is none. -/
theorem spaces_unique {c d : Char} {cs ds es : List Char} (hc : isSpace c = false)
    (hd : isSpace d = false) (h : Spaces cs (c :: ds)) (h' : Spaces cs (d :: es)) :
    d :: es = c :: ds := by
  rw [← (skipSpace_eq_cons_iff hc).2 h, (skipSpace_eq_cons_iff hd).2 h']

theorem lead_unique {first : Bool} {c d : Char} {cs ds es : List Char} (hc : isSpace c = false)
    (hd : isSpace d = false) (h : Lead first cs (c :: ds)) (h' : Lead first cs (d :: es)) :
    d :: es = c :: ds := by
  cases h with
  | first spaces =>
    cases h' with
    | first spaces' => exact spaces_unique hc hd spaces spaces'
  | next before after =>
    cases h' with
    | next before' after' =>
      cases spaces_unique (by decide) (by decide) before before'
      exact spaces_unique hc hd after after'

section Items

variable {α : Type} {Item : List Char → α → List Char → Prop} {mark : Char}
  (hspace : isSpace mark = false) (hcomma : mark ≠ ',') (hmark : isDelimiter mark = true)
  (start : ∀ {cs a rest}, Item cs a rest → ∃ c ds, cs = c :: ds ∧ isDelimiter c = false)

include hmark in
/-- After an item there is a space, a comma or the end. -/
theorem Listed.stops {cs rest : List Char} {as : List α} (h : Listed mark Item false cs as rest) :
    Stops cs := by
  have hhead : ∀ {c ds}, isDelimiter c = true → Spaces cs (c :: ds) → Stops cs := by
    intro c ds hc hspaces
    refine stops_of_spaces hspaces ?_
    intro d hd
    obtain rfl := Option.some.inj hd
    exact hc
  cases h with
  | close spaces => exact hhead hmark spaces
  | item lead =>
    cases lead with
    | next before => exact hhead (by decide) before

include hspace hcomma hmark in
/-- There is no end where an item is. -/
theorem not_spaces_of_lead {first : Bool} {c : Char} {cs ds rest : List Char}
    (hc : isDelimiter c = false) (lead : Lead first cs (c :: ds)) : ¬ Spaces cs (mark :: rest) := by
  intro hspaces
  cases lead with
  | first spaces =>
    cases spaces_unique hspace (isSpace_of_isDelimiter hc) hspaces spaces
    rw [hmark] at hc
    cases hc
  | next before =>
    cases spaces_unique hspace (by decide) hspaces before
    exact hcomma rfl

include hspace hcomma hmark start in
/-- Items up to a closing character are told by the text, if each of them is. -/
theorem Listed.unique {first : Bool} {cs rest rest' : List Char} {as bs : List α}
    (h : Listed mark Item first cs as rest) (items : ∀ a ∈ as, Unambiguous Item a)
    (h' : Listed mark Item first cs bs rest') : bs = as ∧ rest' = rest := by
  induction h generalizing bs rest' with
  | close spaces =>
    cases h' with
    | close spaces' =>
      cases spaces_unique hspace hspace spaces spaces'
      exact ⟨rfl, rfl⟩
    | item lead item =>
      obtain ⟨c, ds, rfl, hc⟩ := start item
      exact absurd spaces (not_spaces_of_lead hspace hcomma hmark hc lead)
  | item lead item more ih =>
    obtain ⟨c, ds, rfl, hc⟩ := start item
    cases h' with
    | close spaces => exact absurd spaces (not_spaces_of_lead hspace hcomma hmark hc lead)
    | item lead' item' more' =>
      obtain ⟨d, es, rfl, hd⟩ := start item'
      cases lead_unique (isSpace_of_isDelimiter hc) (isSpace_of_isDelimiter hd) lead lead'
      obtain ⟨rfl, rfl⟩ := items _ (List.mem_cons_self ..) item (more.stops hmark) item'
        (more'.stops hmark)
      obtain ⟨rfl, rfl⟩ := ih (fun a ha => items a (List.mem_cons_of_mem _ ha)) more'
      exact ⟨rfl, rfl⟩

end Items

/-! ## Values -/

theorem quoted_unique {cs s s' rest rest' : List Char} (h : Quoted cs s rest)
    (h' : Quoted cs s' rest') : s' = s ∧ rest' = rest := by
  have hread := unquoted_eq_ok_iff.2 h
  rw [unquoted_eq_ok_iff.2 h'] at hread
  cases hread
  exact ⟨rfl, rfl⟩

/-- A member is told by the text, if its value is. -/
theorem unambiguous_member {k : String} {v : Value} (hv : Unambiguous Written v) :
    Unambiguous (Member Written) (k, v) := by
  intro cs rest rest' b h hrest h' hrest'
  cases h with
  | keyed key colon spaces value =>
    cases h' with
    | keyed key' colon' spaces' value' =>
      obtain ⟨rfl, rfl⟩ := quoted_unique key key'
      cases spaces_unique (by decide) (by decide) colon colon'
      obtain ⟨c, ds, rfl, hc⟩ := value.exists_starts
      obtain ⟨d, es, rfl, hd⟩ := value'.exists_starts
      cases spaces_unique (isSpace_of_isDelimiter hc.isDelimiter)
        (isSpace_of_isDelimiter hd.isDelimiter) spaces spaces'
      obtain ⟨rfl, rfl⟩ := hv value hrest value' hrest'
      exact ⟨rfl, rfl⟩

section Forms

variable {cs rest : List Char}

theorem written_null_iff : Written cs .null rest ↔ cs = "null".toList ++ rest := by
  constructor
  · rintro ⟨⟩
    rfl
  · rintro rfl
    exact .null

theorem written_flag_iff {b : Bool} :
    Written cs (.flag b) rest ↔ cs = (if b then "true" else "false").toList ++ rest := by
  constructor
  · rintro (_ | _) <;> rfl
  · rintro rfl
    cases b with
    | true => exact .yes
    | false => exact .no

theorem written_number_iff {ds : List Char} :
    Written cs (.number ds) rest ↔ IsNumber ds ∧ cs = ds ++ rest := by
  constructor
  · rintro ⟨⟩
    exact ⟨‹_›, rfl⟩
  · rintro ⟨digits, rfl⟩
    exact .number digits

theorem written_text_iff {s : String} :
    Written cs (.text s) rest ↔ ∃ ds, cs = '"' :: ds ∧ Quoted ds s.toList rest := by
  constructor
  · intro h
    cases h with
    | text quoted => exact ⟨_, rfl, by rwa [String.toList_ofList]⟩
  · rintro ⟨ds, rfl, quoted⟩
    have h := Written.text quoted
    rwa [String.ofList_toList] at h

theorem written_array_iff {vs : List Value} :
    Written cs (.array vs) rest ↔ ∃ ds, cs = '[' :: ds ∧ Listed ']' Written true ds vs rest := by
  constructor
  · intro h
    cases h with
    | array elements => exact ⟨_, rfl, elements⟩
  · rintro ⟨ds, rfl, elements⟩
    exact .array elements

theorem written_object_iff {ms : List (String × Value)} :
    Written cs (.object ms) rest ↔
      ∃ ds, cs = '\x7b' :: ds ∧ Listed '\x7d' (Member Written) true ds ms rest := by
  constructor
  · intro h
    cases h with
    | object members => exact ⟨_, rfl, members⟩
  · rintro ⟨ds, rfl, members⟩
    exact .object members

end Forms

theorem Written.exists_not_isDelimiter {cs rest : List Char} {v : Value} (h : Written cs v rest) :
    ∃ c ds, cs = c :: ds ∧ isDelimiter c = false := by
  obtain ⟨c, ds, rfl, hstarts⟩ := h.exists_starts
  exact ⟨c, ds, rfl, hstarts.isDelimiter⟩

theorem Member.exists_not_isDelimiter {cs rest : List Char} {m : String × Value}
    (h : Member Written cs m rest) : ∃ c ds, cs = c :: ds ∧ isDelimiter c = false := by
  cases h with
  | keyed => exact ⟨_, _, rfl, rfl⟩

/-- A value is told by the text, if the values in it are. -/
theorem unambiguous_of_smaller {v : Value}
    (smaller : ∀ u, sizeOf u < sizeOf v → Unambiguous Written u) : Unambiguous Written v := by
  intro cs rest rest' w h hrest h' hrest'
  -- both start with one character, so they are of one kind
  obtain ⟨c, ds, hcs, hstarts⟩ := h.exists_starts
  obtain ⟨d, es, hcs', hstarts'⟩ := h'.exists_starts
  obtain ⟨rfl, rfl⟩ := List.cons.inj (hcs.symm.trans hcs')
  clear hcs hcs'
  revert smaller h h'
  refine hstarts.same (P := fun v w => (∀ u, sizeOf u < sizeOf v → Unambiguous Written u) →
    Written cs v rest → Written cs w rest' → w = v ∧ rest' = rest) hstarts'
    ?null ?flag ?number ?text ?array ?object
  case null =>
    intro smaller h h'
    rw [written_null_iff] at h h'
    exact ⟨rfl, List.append_cancel_left (h'.symm.trans h)⟩
  case flag =>
    intro b smaller h h'
    rw [written_flag_iff] at h h'
    exact ⟨rfl, List.append_cancel_left (h'.symm.trans h)⟩
  case number =>
    intro ds es smaller h h'
    obtain ⟨digits, rfl⟩ := written_number_iff.1 h
    obtain ⟨digits', hsame⟩ := written_number_iff.1 h'
    obtain ⟨rfl, rfl⟩ := number_unique digits hrest digits' hrest' hsame
    exact ⟨rfl, rfl⟩
  case text =>
    intro s r smaller h h'
    obtain ⟨ds, rfl, quoted⟩ := written_text_iff.1 h
    obtain ⟨es, hsame, quoted'⟩ := written_text_iff.1 h'
    obtain rfl := (List.cons.inj hsame).2
    obtain ⟨htext, rfl⟩ := quoted_unique quoted quoted'
    rw [String.toList_inj.1 htext]
    exact ⟨rfl, rfl⟩
  case array =>
    intro vs ws smaller h h'
    obtain ⟨ds, rfl, elements⟩ := written_array_iff.1 h
    obtain ⟨es, hsame, elements'⟩ := written_array_iff.1 h'
    obtain rfl := (List.cons.inj hsame).2
    have hitems : ∀ u ∈ vs, Unambiguous Written u := by
      intro u hu
      have hless := List.sizeOf_lt_of_mem hu
      refine smaller u ?_
      rw [Value.array.sizeOf_spec]
      omega
    obtain ⟨rfl, rfl⟩ := elements.unique (by decide) (by decide) (by decide)
      Written.exists_not_isDelimiter hitems elements'
    exact ⟨rfl, rfl⟩
  case object =>
    intro ms ns smaller h h'
    obtain ⟨ds, rfl, members⟩ := written_object_iff.1 h
    obtain ⟨es, hsame, members'⟩ := written_object_iff.1 h'
    obtain rfl := (List.cons.inj hsame).2
    have hitems : ∀ m ∈ ms, Unambiguous (Member Written) m := by
      rintro ⟨k, u⟩ hm
      have hless := List.sizeOf_lt_of_mem hm
      rw [Prod.mk.sizeOf_spec] at hless
      refine unambiguous_member (smaller u ?_)
      rw [Value.object.sizeOf_spec]
      omega
    obtain ⟨rfl, rfl⟩ := members.unique (by decide) (by decide) (by decide)
      Member.exists_not_isDelimiter hitems members'
    exact ⟨rfl, rfl⟩

/-- A value is told by the text from its start on, as long as it ends where it must. -/
theorem unambiguous_written (v : Value) : Unambiguous Written v :=
  unambiguous_of_smaller fun u _ => unambiguous_written u
termination_by sizeOf v

/-- A text is a document of at most one value. -/
theorem Document.unique {text : List Char} {v w : Value} (h : Document text v)
    (h' : Document text w) : w = v := by
  obtain ⟨cs, rest, before, written, after⟩ := h
  obtain ⟨cs', rest', before', written', after'⟩ := h'
  obtain ⟨c, ds, rfl, hc⟩ := written.exists_starts
  obtain ⟨d, es, rfl, hd⟩ := written'.exists_starts
  cases spaces_unique (isSpace_of_isDelimiter hc.isDelimiter)
    (isSpace_of_isDelimiter hd.isDelimiter) before before'
  have hstops : Stops [] := by simp [Stops]
  exact (unambiguous_written v written (stops_of_spaces after hstops) written'
    (stops_of_spaces after' hstops)).1

end Reconciler.Json
