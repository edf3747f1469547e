import Mathlib.Data.List.Nodup
import Reconciler.Json.Library
import Reconciler.Proofs.JsonGrammar

/-!
# What a library that reads JSON takes

A program that declares shapes and leaves the reading to a library can rely on what is documented of
the library, and on nothing else. `Library.Documented` lists that: that a document is one value in
the grammar of JSON, what text and flags are read from, and what is done with each member of an
object when a record is read. Every fact is about one member, one key or one switch of a shape, and
it is listed only as far as it goes: a library does not look closely at what it ignores
(`Library.Thorough`), and refuses what is nested too deep (`depthLimit`).

Which values give a record, and which record, is said by `Given`, from a list of the record's parts.
An object gives the parts that it names, and an array gives the first few parts in order. What is
not given is as in the default. It does not matter in which order an object gives the parts, and no
part depends on what is given for another one. From the facts in the list it follows that a derived
instance takes the values that give a record, and no others (`Library.Documented.takes_record_iff`).
-/

namespace Reconciler.Json

variable {σ : Type}

/-! ## Records that values give -/

/-- A value is nested no deeper than this many brackets within one another. -/
inductive Value.Shallow : Nat → Value → Prop
  | null {n : Nat} : Shallow n .null
  | flag {n : Nat} {b : Bool} : Shallow n (.flag b)
  | number {n : Nat} {ds : List Char} : Shallow n (.number ds)
  | text {n : Nat} {s : String} : Shallow n (.text s)
  | array {n : Nat} {vs : List Value} (elements : ∀ v ∈ vs, Shallow n v) :
      Shallow (n + 1) (.array vs)
  | object {n : Nat} {ms : List (String × Value)} (members : ∀ m ∈ ms, Shallow n m.2) :
      Shallow (n + 1) (.object ms)

/-- A part of a record: its name, what the record has in it, and which values stand for that. -/
structure Part (σ : Type) where
  {α : Type}
  name : String
  get : σ → α
  Stands : Value → α → Prop

/-- A record holds what members give, and what they do not give is as in the default. -/
structure Holds (parts : List (Part σ)) (default : σ) (ms : List (String × Value)) (s : σ) :
    Prop where
  known : ∀ m ∈ ms, ∃ p ∈ parts, p.name = m.1
  given : ∀ p ∈ parts, ∀ v, (p.name, v) ∈ ms → p.Stands v (p.get s)
  missing : ∀ p ∈ parts, p.name ∉ ms.map Prod.fst → p.get s = p.get default

/-- A value gives a record: an object that has no key twice, or an array that has no more values
than the record has parts. -/
inductive Given (parts : List (Part σ)) (default : σ) : Value → σ → Prop
  | object {ms : List (String × Value)} {s : σ} (once : (ms.map Prod.fst).Nodup)
      (holds : Holds parts default ms s) : Given parts default (.object ms) s
  | array {vs : List Value} {s : σ} (few : vs.length ≤ parts.length)
      (holds : Holds parts default ((parts.map Part.name).zip vs) s) :
      Given parts default (.array vs) s

/-- It does not matter in which order an object gives the parts. -/
theorem Given.perm {parts : List (Part σ)} {default s : σ} {ms ns : List (String × Value)}
    (h : ms.Perm ns) (hgiven : Given parts default (.object ms) s) :
    Given parts default (.object ns) s := by
  cases hgiven with
  | object once holds =>
    have hkeys := h.map Prod.fst
    refine .object (hkeys.nodup_iff.1 once) ⟨?_, ?_, ?_⟩
    · intro m hm
      exact holds.known m (h.mem_iff.2 hm)
    · intro p hp v hv
      exact holds.given p hp v (h.mem_iff.2 hv)
    · intro p hp hname
      exact holds.missing p hp (mt hkeys.mem_iff.1 hname)

/-- The only member of an object may have another value that stands for the same. -/
theorem Given.congr_member {parts : List (Part σ)} {default s : σ} {k : String} {v w : Value}
    (hstands : ∀ p ∈ parts, ∀ a, p.Stands v a → p.Stands w a)
    (hgiven : Given parts default (.object [(k, v)]) s) :
    Given parts default (.object [(k, w)]) s := by
  cases hgiven with
  | object once holds =>
    refine .object (List.nodup_singleton k) ⟨?_, ?_, ?_⟩
    · rw [List.forall_mem_singleton]
      exact holds.known (k, v) (List.mem_singleton_self _)
    · intro p hp u hu
      obtain ⟨rfl, rfl⟩ := Prod.mk.inj (List.mem_singleton.1 hu)
      exact hstands p hp _ (holds.given p hp v (List.mem_singleton_self _))
    · exact holds.missing

/-- What is given lies one bracket deeper than the values that stand for the parts. -/
theorem Given.shallow {parts : List (Part σ)} {default s : σ} {v : Value} {n : Nat}
    (hparts : ∀ p ∈ parts, ∀ v a, p.Stands v a → v.Shallow n) (h : Given parts default v s) :
    v.Shallow (n + 1) := by
  have hmembers : ∀ {ms}, Holds parts default ms s → ∀ m ∈ ms, m.2.Shallow n := by
    rintro ms holds ⟨k, v⟩ hm
    obtain ⟨p, hp, rfl⟩ := holds.known _ hm
    exact hparts p hp v _ (holds.given p hp v hm)
  cases h with
  | object once holds => exact .object (hmembers holds)
  | @array vs _ few holds =>
    refine .array ?_
    have hvalues : ((parts.map Part.name).zip vs).map Prod.snd = vs :=
      List.map_snd_zip (by rwa [List.length_map])
    rw [← hvalues]
    exact List.forall_mem_map.2 (hmembers holds)

/-- No two elements are for the same part. -/
theorem nodup_zip {ks : List String} (nodup : ks.Nodup) (vs : List Value) :
    ((ks.zip vs).map Prod.fst).Nodup := by
  rw [List.zip_eq_zip_take_min, List.map_fst_zip (by simp)]
  exact nodup.sublist (List.take_sublist ..)

section Parts

variable {De : Type → Type} (Takes : {α : Type} → De α → Value → α → Prop) (shape : Shape De σ)

/-- The parts of the records of a shape, when it is known what the instances of the fields take. -/
def Shape.parts : List (Part σ) := shape.fields.map fun f => ⟨f.name, f.get, Takes f.de⟩

theorem Shape.map_name_parts : (shape.parts Takes).map Part.name = shape.fields.map Field.name :=
  List.map_map

theorem Shape.length_parts : (shape.parts Takes).length = shape.fields.length := List.length_map _

/-- Members are told part by part as they are told field by field. -/
theorem Shape.holds_iff {default s : σ} {ms : List (String × Value)} :
    Holds (shape.parts Takes) default ms s ↔
      (∀ m ∈ ms, ∃ f ∈ shape.fields, f.name = m.1) ∧
      (∀ f ∈ shape.fields, ∀ v, (f.name, v) ∈ ms → Takes f.de v (f.get s)) ∧
      ∀ f ∈ shape.fields, f.name ∉ ms.map Prod.fst → f.get s = f.get default := by
  constructor
  · rintro ⟨known, given, missing⟩
    refine ⟨?_, List.forall_mem_map.1 given, List.forall_mem_map.1 missing⟩
    intro m hm
    obtain ⟨p, hp, hname⟩ := known m hm
    obtain ⟨f, hf, rfl⟩ := List.mem_map.1 hp
    exact ⟨f, hf, hname⟩
  · rintro ⟨known, given, missing⟩
    refine ⟨?_, List.forall_mem_map.2 given, List.forall_mem_map.2 missing⟩
    intro m hm
    obtain ⟨f, hf, hname⟩ := known m hm
    exact ⟨_, List.mem_map_of_mem hf, hname⟩

/-- An array gives what the object does that names its elements by the fields. -/
theorem Shape.given_array_iff {default s : σ} {vs : List Value} :
    Given (shape.parts Takes) default (.array vs) s ↔ vs.length ≤ shape.fields.length ∧
      Given (shape.parts Takes) default (.object ((shape.fields.map Field.name).zip vs)) s := by
  rw [← shape.map_name_parts Takes, ← shape.length_parts Takes]
  constructor
  · intro h
    cases h with
    | array few holds =>
      have nodup : ((shape.parts Takes).map Part.name).Nodup :=
        shape.map_name_parts Takes ▸ shape.nodup
      exact ⟨few, .object (nodup_zip nodup vs) holds⟩
  · rintro ⟨few, h⟩
    cases h with
    | object once holds => exact .array few holds

end Parts

/-! ## Documented behaviour -/

/-- How deep a library goes: values within more brackets than that are refused, so that no document
can exhaust the stack. -/
def depthLimit : Nat := 127

/-- An instance that ignores no part of a value: undeclared fields are refused, at every level. -/
inductive Library.Thorough (lib : Library) : {α : Type} → lib.De α → Prop
  | text : Thorough lib lib.text
  | flag : Thorough lib lib.flag
  | record {σ : Type} {shape : Shape lib.De σ} (denies : shape.deniesUnknown = true)
      (fields : ∀ f ∈ shape.fields, Thorough lib f.de) : Thorough lib (lib.record shape)

/-- What is documented of a library. That an instance `d` takes a value `v` for `a` is written
`Takes d v a`: it is what `d` makes of `v`, wherever `v` stands. -/
structure Library.Documented (lib : Library) (Takes : {α : Type} → lib.De α → Value → α → Prop) :
    Prop where
  /-- What is read from a text was taken from its value, and the text is a document: one value in
  the grammar of JSON, without lone surrogates, and with nothing but spaces around it. A value that
  is ignored may be less than that, so the instance must not ignore any. -/
  reads {α : Type} {d : lib.De α} {s : String} {a : α} (thorough : lib.Thorough d)
    (h : lib.fromText d s = .ok a) : ∃ v, Document s.toList v ∧ Takes d v a
  /-- A document is read if its value is taken, unless it is nested too deep. -/
  accepts {α : Type} {d : lib.De α} {s : String} {v : Value} {a : α} (h : Document s.toList v)
    (shallow : v.Shallow depthLimit) (takes : Takes d v a) : lib.fromText d s = .ok a
  /-- Text is read from text, and from nothing else. -/
  text {v : Value} {s : String} : Takes lib.text v s ↔ v = .text s
  /-- Flags are read from flags, and from nothing else. -/
  flag {v : Value} {b : Bool} : Takes lib.flag v b ↔ v = .flag b
  /-- Records are read from objects and arrays, and from nothing else. -/
  composite {σ : Type} {shape : Shape lib.De σ} {v : Value} {s : σ}
    (h : Takes (lib.record shape) v s) : (∃ ms, v = .object ms) ∨ ∃ vs, v = .array vs
  /-- Where undeclared fields are refused, every key is the name of a field. Keys are compared as
  the texts that they stand for. -/
  known {σ : Type} {shape : Shape lib.De σ} {ms : List (String × Value)} {s : σ}
    (denies : shape.deniesUnknown = true) (h : Takes (lib.record shape) (.object ms) s) :
    ∀ m ∈ ms, ∃ f ∈ shape.fields, f.name = m.1
  /-- A field that is given twice is refused. -/
  once {σ : Type} {shape : Shape lib.De σ} {ms : List (String × Value)} {s : σ}
    (h : Takes (lib.record shape) (.object ms) s) :
    ∀ f ∈ shape.fields, (ms.map Prod.fst).count f.name ≤ 1
  /-- What is given for a field is read with the instance of the field. -/
  given {σ : Type} {shape : Shape lib.De σ} {ms : List (String × Value)} {s : σ}
    (h : Takes (lib.record shape) (.object ms) s) :
    ∀ f ∈ shape.fields, ∀ v, (f.name, v) ∈ ms → Takes f.de v (f.get s)
  /-- Where defaults are filled in, a field that is not given is as in the default. -/
  missing {σ : Type} {shape : Shape lib.De σ} {ms : List (String × Value)} {s : σ}
    (fills : shape.fillsDefaults = true) (h : Takes (lib.record shape) (.object ms) s) :
    ∀ f ∈ shape.fields, f.name ∉ ms.map Prod.fst → f.get s = f.get shape.default
  /-- Nothing else keeps an object from being read. -/
  object {σ : Type} {shape : Shape lib.De σ} {ms : List (String × Value)} {s : σ}
    (fills : shape.fillsDefaults = true) (known : ∀ m ∈ ms, ∃ f ∈ shape.fields, f.name = m.1)
    (once : (ms.map Prod.fst).Nodup)
    (given : ∀ f ∈ shape.fields, ∀ v, (f.name, v) ∈ ms → Takes f.de v (f.get s))
    (missing : ∀ f ∈ shape.fields, f.name ∉ ms.map Prod.fst → f.get s = f.get shape.default) :
    Takes (lib.record shape) (.object ms) s
  /-- An array gives the first fields in order, and as many as it has elements. -/
  array {σ : Type} {shape : Shape lib.De σ} {vs : List Value} {s : σ}
    (fills : shape.fillsDefaults = true) :
    Takes (lib.record shape) (.array vs) s ↔ vs.length ≤ shape.fields.length ∧
      Takes (lib.record shape) (.object ((shape.fields.map Field.name).zip vs)) s

namespace Library.Documented

variable {lib : Library} {Takes : {α : Type} → lib.De α → Value → α → Prop}
  {shape : Shape lib.De σ} {s : σ}

/-- An object is taken if it gives a record. -/
theorem takes_object_iff (h : lib.Documented Takes) (fills : shape.fillsDefaults = true)
    (denies : shape.deniesUnknown = true) {ms : List (String × Value)} :
    Takes (lib.record shape) (.object ms) s ↔
      Given (shape.parts Takes) shape.default (.object ms) s := by
  constructor
  · intro htakes
    have hknown := h.known denies htakes
    have holds : Holds (shape.parts Takes) shape.default ms s :=
      (shape.holds_iff Takes).2 ⟨hknown, h.given htakes, h.missing fills htakes⟩
    refine .object ?_ holds
    -- every key is that of a field, and no field is given twice
    rw [List.nodup_iff_count_le_one]
    intro k
    by_cases hk : k ∈ ms.map Prod.fst
    · obtain ⟨m, hm, rfl⟩ := List.mem_map.1 hk
      obtain ⟨f, hf, hname⟩ := hknown m hm
      rw [← hname]
      exact h.once htakes f hf
    · rw [List.count_eq_zero_of_not_mem hk]
      exact Nat.zero_le 1
  · intro hgiven
    cases hgiven with
    | object once holds =>
      obtain ⟨known, given, missing⟩ := (shape.holds_iff Takes).1 holds
      exact h.object fills known once given missing

/-- A derived instance takes the values that give a record, and no others. -/
theorem takes_record_iff (h : lib.Documented Takes) (fills : shape.fillsDefaults = true)
    (denies : shape.deniesUnknown = true) {v : Value} :
    Takes (lib.record shape) v s ↔ Given (shape.parts Takes) shape.default v s := by
  have harray : ∀ vs, Takes (lib.record shape) (.array vs) s ↔
      Given (shape.parts Takes) shape.default (.array vs) s := by
    intro vs
    rw [h.array fills, h.takes_object_iff fills denies, shape.given_array_iff]
  constructor
  · intro htakes
    rcases h.composite htakes with ⟨ms, rfl⟩ | ⟨vs, rfl⟩
    · exact (h.takes_object_iff fills denies).1 htakes
    · exact (harray vs).1 htakes
  · intro hgiven
    cases hgiven with
    | object once holds => exact (h.takes_object_iff fills denies).2 (.object once holds)
    | array few holds => exact (harray _).2 (.array few holds)

end Library.Documented

end Reconciler.Json
