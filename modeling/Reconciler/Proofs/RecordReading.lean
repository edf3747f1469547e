import Reconciler.Json.Record
import Reconciler.Proofs.JsonLibrary
import Reconciler.Proofs.Unambiguity

/-!
# Records in JSON

The reader of a record works through the members from left to right, and puts the value of one field
after the other into the record. `Fills` follows it, and `fills_iff` tells what comes out. From this
it follows that the reader accepts the values that give a record, and nothing else
(`Json.accepts_record`).

So the readers do what is documented of a library. `accepting` is the library whose instances are
readers together with what they accept, and `Json.documented_accepting` shows of it every fact in
the list. A record is read by it with the reader that `readers` has for the same shape.
-/

namespace Reconciler.Json

/-! ## Readers with what they accept -/

/-- A reader, and what it reads values for. -/
structure Accepting (α : Type) where
  reader : Reader α
  Stands : Value → α → Prop
  accepts : Accepts reader Stands

section Map

variable {De De' : Type → Type} {σ : Type} (g : {α : Type} → De α → De' α)

/-- A field with another instance for its value. -/
def Field.map (f : Field De σ) : Field De' σ := ⟨f.name, g f.de, f.get, f.put⟩

/-- A shape with other instances for its fields. -/
def Shape.map (shape : Shape De σ) : Shape De' σ where
  fields := shape.fields.map (Field.map g)
  default := shape.default
  fillsDefaults := shape.fillsDefaults
  deniesUnknown := shape.deniesUnknown
  nodup := by
    rw [List.map_map]
    exact shape.nodup
  get_put := List.forall_mem_map.2 shape.get_put
  get_put_of_ne := by
    refine List.forall_mem_map.2 fun f hf => List.forall_mem_map.2 fun g hg => ?_
    exact shape.get_put_of_ne f hf g hg
  ext s t h := shape.ext s t (List.forall_mem_map.1 h)

end Map

variable {σ : Type}

/-! ## One field after the other -/

/-- Members put their values into a record, one after the other. -/
inductive Fills (fields : List (Field Accepting σ)) : σ → List (String × Value) → σ → Prop
  | nil {s : σ} : Fills fields s [] s
  | cons {f : Field Accepting σ} {s t : σ} {a : f.α} {v : Value} {ms : List (String × Value)}
      (mem : f ∈ fields) (stands : f.de.Stands v a) (rest : Fills fields (f.put s a) ms t) :
      Fills fields s ((f.name, v) :: ms) t

variable {fields : List (Field Accepting σ)} {s t : σ} {ms : List (String × Value)}

theorem fills_cons_iff {k : String} {v : Value} :
    Fills fields s ((k, v) :: ms) t ↔
      ∃ f ∈ fields, f.name = k ∧ ∃ a, f.de.Stands v a ∧ Fills fields (f.put s a) ms t := by
  constructor
  · intro h
    generalize hm : (k, v) = m at h
    cases h with
    | cons mem stands rest =>
      obtain ⟨rfl, rfl⟩ := Prod.mk.inj hm
      exact ⟨_, mem, rfl, _, stands, rest⟩
  · rintro ⟨f, mem, rfl, a, stands, rest⟩
    exact .cons mem stands rest

theorem Fills.known (h : Fills fields s ms t) : ∀ m ∈ ms, ∃ f ∈ fields, f.name = m.1 := by
  induction h with
  | nil => simp
  | cons mem _ _ ih => exact List.forall_mem_cons.2 ⟨⟨_, mem, rfl⟩, ih⟩

/-- Only the fields that are named matter. -/
theorem Fills.of_mem {fields' : List (Field Accepting σ)} (h : Fills fields s ms t)
    (hmem : ∀ f ∈ fields, f.name ∈ ms.map Prod.fst → f ∈ fields') : Fills fields' s ms t := by
  induction h with
  | nil => exact .nil
  | cons mem stands _ ih =>
    refine .cons (hmem _ mem (List.mem_cons_self ..)) stands (ih ?_)
    intro g hg hname
    exact hmem g hg (List.mem_cons_of_mem _ hname)

/-- There is one field of a name. -/
theorem eq_of_name_eq (nodup : (fields.map Field.name).Nodup) {f g : Field Accepting σ}
    (hf : f ∈ fields) (hg : g ∈ fields) (h : f.name = g.name) : f = g :=
  List.inj_on_of_nodup_map nodup hf hg h

/-- If no field is named twice, a record is filled with what is given, whatever the order. -/
theorem fills_iff (shape : Shape Accepting σ) (once : (ms.map Prod.fst).Nodup) :
    Fills shape.fields s ms t ↔ Holds (shape.parts Accepting.Stands) s ms t := by
  rw [Shape.holds_iff]
  constructor
  · intro h
    generalize hfields : shape.fields = fields at h ⊢
    induction h with
    | nil => exact ⟨by simp, by simp, fun _ _ _ => rfl⟩
    | @cons f s t a v ms mem stands rest ih =>
      subst hfields
      rw [List.map_cons, List.nodup_cons] at once
      obtain ⟨known, given, missing⟩ := ih once.2
      refine ⟨List.forall_mem_cons.2 ⟨⟨f, mem, rfl⟩, known⟩, ?_, ?_⟩
      · intro g hg w hw
        rcases List.mem_cons.1 hw with hfirst | hlater
        · obtain ⟨hname, rfl⟩ := Prod.mk.inj hfirst
          obtain rfl := eq_of_name_eq shape.nodup hg mem hname
          rw [missing g hg once.1, shape.get_put g hg]
          exact stands
        · exact given g hg w hlater
      · intro g hg hname
        rw [List.map_cons, List.mem_cons, not_or] at hname
        rw [missing g hg hname.2, shape.get_put_of_ne f mem g hg hname.1]
  · intro h
    induction ms generalizing s with
    | nil =>
      have hsame : s = t := shape.ext s t fun f hf => (h.2.2 f hf (by simp)).symm
      rw [hsame]
      exact .nil
    | cons m ms ih =>
      obtain ⟨k, v⟩ := m
      obtain ⟨known, given, missing⟩ := h
      rw [List.map_cons, List.nodup_cons] at once
      obtain ⟨f, hf, rfl⟩ := known (k, v) (List.mem_cons_self ..)
      refine .cons hf (given f hf v (List.mem_cons_self ..)) (ih once.2 ⟨?_, ?_, ?_⟩)
      · intro m hm
        exact known m (List.mem_cons_of_mem _ hm)
      · intro g hg w hw
        exact given g hg w (List.mem_cons_of_mem _ hw)
      · intro g hg hname
        by_cases heq : g.name = f.name
        · obtain rfl := eq_of_name_eq shape.nodup hg hf heq
          rw [shape.get_put g hg]
        · rw [shape.get_put_of_ne f hf g hg heq]
          exact missing g hg (by simp [heq, hname])

/-! ## Signs between members -/

theorem Spaces.trans {cs mid rest : List Char} (h : Spaces cs mid) (h' : Spaces mid rest) :
    Spaces cs rest := by
  induction h with
  | none => exact h'
  | one space _ ih => exact .one space (ih h')

theorem Lead.trans {first : Bool} {cs mid rest : List Char} (h : Lead first cs mid)
    (h' : Spaces mid rest) : Lead first cs rest := by
  cases h with
  | first spaces => exact .first (spaces.trans h')
  | next before after => exact .next before (after.trans h')

theorem colon_eq_ok_iff {cs rest : List Char} :
    colon cs = .ok ((), rest) ↔ Spaces cs (':' :: rest) := by
  rw [← skipSpace_eq_cons_iff (by decide)]
  unfold colon
  split
  · next hskip => simp [hskip]
  · next hskip => simp [hskip]
  · next hne hskip =>
    rw [hskip]
    simp only [reduceCtorEq, false_iff]
    intro heq
    exact hne (List.cons.inj heq).1

theorem key_eq_ok_iff {cs rest : List Char} {k : String} :
    key cs = .ok (k, rest) ↔
      ∃ ds s, Spaces cs ('"' :: ds) ∧ Quoted ds s rest ∧ k = String.ofList s := by
  constructor
  · intro h
    unfold key at h
    split at h
    · cases h
    · next ds hskip =>
      split at h
      · cases h
      · next s rest' hquoted =>
        cases h
        have hspaces := (skipSpace_eq_cons_iff (by decide)).1 hskip
        exact ⟨ds, s, hspaces, unquoted_eq_ok_iff.1 hquoted, rfl⟩
    · cases h
  · rintro ⟨ds, s, hspaces, hquoted, rfl⟩
    simp only [key, (skipSpace_eq_cons_iff (by decide)).2 hspaces, unquoted_eq_ok_iff.2 hquoted]

namespace Record

theorem member_eq_ok_iff {cs rest : List Char} {k? : Option String} :
    nextKey.member cs = .ok (k?, rest) ↔ ∃ k, k? = some k ∧ key cs = .ok (k, rest) := by
  unfold nextKey.member
  cases hkey : key cs with
  | error f => simp
  | ok x =>
    obtain ⟨k, rest'⟩ := x
    simp only [Except.ok.injEq, Prod.mk.injEq]
    constructor
    · rintro ⟨rfl, rfl⟩
      exact ⟨k, rfl, rfl, rfl⟩
    · rintro ⟨_, rfl, rfl, rfl⟩
      exact ⟨rfl, rfl⟩

/-- The end of an object is found where it is. -/
theorem nextKey_eq_none_iff {first : Bool} {cs rest : List Char} :
    nextKey first cs = .ok (none, rest) ↔ Spaces cs ('\x7d' :: rest) := by
  rw [← skipSpace_eq_cons_iff (by decide)]
  unfold nextKey
  split
  · next hskip => simp [hskip]
  · next hskip => simp [hskip]
  · next c ds hne hskip =>
    rw [hskip]
    have hend : c :: ds ≠ '\x7d' :: rest := fun heq => hne (List.cons.inj heq).1
    split
    · simp [member_eq_ok_iff, hend]
    · split
      · simp [member_eq_ok_iff, hend]
      · simp [hend]

/-- The key of the next member is found where it is. -/
theorem nextKey_eq_some_iff {first : Bool} {cs rest : List Char} {k : String} :
    nextKey first cs = .ok (some k, rest) ↔
      ∃ ds s, Lead first cs ('"' :: ds) ∧ Quoted ds s rest ∧ k = String.ofList s := by
  constructor
  · intro h
    unfold nextKey at h
    split at h
    · cases h
    · cases h
    · next c ds hne hskip =>
      have hspaces := spaces_skipSpace cs
      rw [hskip] at hspaces
      split at h
      · next hfirst =>
        subst hfirst
        obtain ⟨_, ⟨⟩, hkey⟩ := member_eq_ok_iff.1 h
        obtain ⟨es, s, hlead, hquoted, rfl⟩ := key_eq_ok_iff.1 hkey
        exact ⟨es, s, .first (hspaces.trans hlead), hquoted, rfl⟩
      · next hfirst =>
        obtain rfl : first = false := by simpa using hfirst
        split at h
        · next hcomma =>
          subst hcomma
          obtain ⟨_, ⟨⟩, hkey⟩ := member_eq_ok_iff.1 h
          obtain ⟨es, s, hlead, hquoted, rfl⟩ := key_eq_ok_iff.1 hkey
          exact ⟨es, s, .next hspaces hlead, hquoted, rfl⟩
        · cases h
  · rintro ⟨ds, s, hlead, hquoted, rfl⟩
    cases hlead with
    | first spaces =>
      have hkey : key ('"' :: ds) = .ok (String.ofList s, rest) :=
        key_eq_ok_iff.2 ⟨ds, s, .none, hquoted, rfl⟩
      have hmember := member_eq_ok_iff.2 ⟨_, rfl, hkey⟩
      simp only [nextKey, (skipSpace_eq_cons_iff (by decide)).2 spaces, if_true]
      exact hmember
    | @next _ mid _ before after =>
      have hkey : key mid = .ok (String.ofList s, rest) :=
        key_eq_ok_iff.2 ⟨ds, s, after, hquoted, rfl⟩
      have hmember := member_eq_ok_iff.2 ⟨_, rfl, hkey⟩
      have hskip := (skipSpace_eq_cons_iff (by decide)).2 before
      simp only [nextKey, hskip, Bool.false_eq_true, if_false]
      exact hmember

theorem nextElement_eq_false_iff {first : Bool} {cs rest : List Char} :
    nextElement first cs = .ok (false, rest) ↔ Spaces cs (']' :: rest) := by
  rw [← skipSpace_eq_cons_iff (by decide)]
  unfold nextElement
  split
  · next hskip => simp [hskip]
  · next hskip => simp [hskip]
  · next c ds hne hskip =>
    rw [hskip]
    have hend : c :: ds ≠ ']' :: rest := fun heq => hne (List.cons.inj heq).1
    split
    · simp [hend]
    · split
      · split <;> simp [hend]
      · simp [hend]

/-- The next element is found where it is, as long as something other than the end is there. -/
theorem nextElement_eq_true_iff {first : Bool} {cs rest : List Char} :
    nextElement first cs = .ok (true, rest) ↔
      Lead first cs rest ∧ ∃ c ds, rest = c :: ds ∧ isSpace c = false ∧ c ≠ ']' := by
  constructor
  · intro h
    unfold nextElement at h
    split at h
    · cases h
    · cases h
    · next c ds hne hskip =>
      have hspaces := spaces_skipSpace cs
      rw [hskip] at hspaces
      split at h
      · next hfirst =>
        subst hfirst
        cases h
        exact ⟨.first hspaces, c, ds, rfl, isSpace_of_skipSpace hskip, by simpa using hne⟩
      · next hfirst =>
        obtain rfl : first = false := by simpa using hfirst
        split at h
        · next hcomma =>
          subst hcomma
          have hafter := spaces_skipSpace ds
          split at h
          · cases h
          · cases h
          · next hnil hne' =>
            cases h
            cases hrest : skipSpace ds with
            | nil => exact absurd hrest hnil
            | cons d es =>
              rw [hrest] at hafter
              refine ⟨.next hspaces hafter, d, es, rfl, isSpace_of_skipSpace hrest, ?_⟩
              rintro rfl
              exact hne' es hrest
        · cases h
  · rintro ⟨hlead, c, ds, rfl, hc, hne⟩
    cases hlead with
    | first spaces =>
      have hskip := (skipSpace_eq_cons_iff hc).2 spaces
      unfold nextElement
      rw [hskip]
      split
      · next heq => cases heq
      · next heq =>
        cases heq
        exact absurd rfl hne
      · next heq =>
        cases heq
        rfl
    | next before after =>
      have hskip := (skipSpace_eq_cons_iff hc).2 after
      have hcomma := (skipSpace_eq_cons_iff (by decide)).2 before
      unfold nextElement
      rw [hcomma]
      split
      · next heq => cases heq
      · next heq => cases heq
      · next heq =>
        obtain ⟨rfl, rfl⟩ := List.cons.inj heq
        rw [if_neg Bool.false_ne_true, if_pos rfl, hskip]
        split
        · next heq' => cases heq'
        · next heq' =>
          cases heq'
          exact absurd rfl hne
        · rfl

end Record

/-! ## Open fields -/

namespace Accepting

/-- The field as the reader of a record has it. -/
def field (f : Field Accepting σ) : Field Reader σ := f.map Accepting.reader

/-- The names of fields. -/
def names (fs : List (Field Accepting σ)) : List String := fs.map Field.name

variable {f : Field Accepting σ} {fs : List (Field Accepting σ)} {k : String}

/-- What a field reads is a value, and it puts into the record what the value stands for. -/
theorem read_field_eq_ok_iff {cs rest : List Char} :
    (field f).read s cs = .ok (t, rest) ↔
      ∃ mid v a, Spaces cs mid ∧ Written mid v rest ∧ f.de.Stands v a ∧ f.put s a = t := by
  have hread : (field f).read s cs = .ok (t, rest) ↔
      ∃ a, f.de.reader cs = .ok (a, rest) ∧ f.put s a = t := by
    show (f.de.reader cs).map (fun (v, rest) => (f.put s v, rest)) = .ok (t, rest) ↔ _
    cases f.de.reader cs with
    | error e => simp [Except.map]
    | ok x =>
      obtain ⟨a, after⟩ := x
      simp only [Except.map, Except.ok.injEq, Prod.mk.injEq]
      constructor
      · rintro ⟨hput, hrest⟩
        exact ⟨a, ⟨rfl, hrest⟩, hput⟩
      · rintro ⟨_, ⟨rfl, hrest⟩, hput⟩
        exact ⟨hput, hrest⟩
  rw [hread]
  constructor
  · rintro ⟨a, hok, hput⟩
    obtain ⟨mid, v, hspaces, hwritten, hstands⟩ := (f.de.accepts _ _ _).1 hok
    exact ⟨mid, v, a, hspaces, hwritten, hstands, hput⟩
  · rintro ⟨mid, v, a, hspaces, hwritten, hstands, hput⟩
    exact ⟨a, (f.de.accepts _ _ _).2 ⟨mid, v, hspaces, hwritten, hstands⟩, hput⟩

theorem find?_field_eq_some_iff (nodup : (names fs).Nodup) {r : Field Reader σ} :
    (fs.map field).find? (·.name == k) = some r ↔ ∃ f ∈ fs, f.name = k ∧ field f = r := by
  rw [List.find?_map, Option.map_eq_some_iff]
  constructor
  · rintro ⟨f, hfind, rfl⟩
    have hname := List.find?_some hfind
    exact ⟨f, List.mem_of_find?_eq_some hfind, by simpa [field, Field.map] using hname, rfl⟩
  · rintro ⟨f, hf, rfl, rfl⟩
    refine ⟨f, ?_, rfl⟩
    cases hfind : fs.find? ((fun r : Field Reader σ => r.name == f.name) ∘ field) with
    | none =>
      have hnone := List.find?_eq_none.1 hfind f hf
      simp [field, Field.map] at hnone
    | some g =>
      have hname : g.name = f.name := by simpa [field, Field.map] using List.find?_some hfind
      rw [eq_of_name_eq nodup (List.mem_of_find?_eq_some hfind) hf hname]

/-- The fields that are left once one of a name is taken. -/
def left (k : String) (fs : List (Field Accepting σ)) : List (Field Accepting σ) :=
  fs.eraseP ((fun r : Field Reader σ => r.name == k) ∘ field)

theorem eraseP_field : (fs.map field).eraseP (·.name == k) = (left k fs).map field :=
  List.eraseP_map ..

theorem names_left_nodup (nodup : (names fs).Nodup) : (names (left k fs)).Nodup :=
  nodup.sublist (List.eraseP_sublist.map _)

theorem length_left_lt (hk : k ∈ names fs) : (left k fs).length < fs.length := by
  obtain ⟨f, hf, rfl⟩ := List.mem_map.1 hk
  have hlength : (left f.name fs).length + 1 = fs.length :=
    List.length_eraseP_add_one hf (by simp [field, Field.map])
  omega

/-- All other fields are left. -/
theorem mem_left_iff (nodup : (names fs).Nodup) : f ∈ left k fs ↔ f ∈ fs ∧ f.name ≠ k := by
  induction fs with
  | nil => simp [left]
  | cons g fs ih =>
    rw [names, List.map_cons, List.nodup_cons] at nodup
    by_cases hk : g.name = k
    · have hleft : left k (g :: fs) = fs :=
        List.eraseP_cons_of_pos (by simp [field, Field.map, hk])
      rw [hleft, List.mem_cons]
      constructor
      · intro hf
        refine ⟨.inr hf, ?_⟩
        rintro rfl
        exact nodup.1 (hk ▸ List.mem_map_of_mem hf)
      · rintro ⟨rfl | hf, hne⟩
        · exact absurd hk hne
        · exact hf
    · have hleft : left k (g :: fs) = g :: left k fs :=
        List.eraseP_cons_of_neg (by simp [field, Field.map, hk])
      rw [hleft, List.mem_cons, List.mem_cons, ih nodup.2]
      constructor
      · rintro (rfl | ⟨hf, hne⟩)
        · exact ⟨.inl rfl, hk⟩
        · exact ⟨.inr hf, hne⟩
      · rintro ⟨rfl | hf, hne⟩
        · exact .inl rfl
        · exact .inr ⟨hf, hne⟩

/-- What is filled from the fields that are left does not have the field that was taken. -/
theorem fills_left_iff (nodup : (names fs).Nodup) :
    Fills (left k fs) s ms t ↔ k ∉ ms.map Prod.fst ∧ Fills fs s ms t := by
  constructor
  · intro h
    constructor
    · intro hk
      obtain ⟨m, hm, rfl⟩ := List.mem_map.1 hk
      obtain ⟨f, hf, hname⟩ := h.known m hm
      exact ((mem_left_iff nodup).1 hf).2 hname
    · exact h.of_mem fun f hf _ => ((mem_left_iff nodup).1 hf).1
  · rintro ⟨hk, h⟩
    refine h.of_mem ?_
    intro f hf hname
    refine (mem_left_iff nodup).2 ⟨hf, ?_⟩
    intro hsame
    exact hk (hsame ▸ hname)

/-- The first element is for the first field, and the others are for the other fields. -/
theorem fills_zip_cons_iff {v : Value} {vs : List Value} (nodup : (names (f :: fs)).Nodup) :
    Fills (f :: fs) s ((names (f :: fs)).zip (v :: vs)) t ↔
      ∃ a, f.de.Stands v a ∧ Fills fs (f.put s a) ((names fs).zip vs) t := by
  have hfirst : f.name ∉ names fs := (List.nodup_cons.1 nodup).1
  constructor
  · intro h
    obtain ⟨g, hg, hname, a, hstands, hrest⟩ := fills_cons_iff.1 h
    obtain rfl : g = f := eq_of_name_eq nodup hg (List.mem_cons_self ..) hname
    refine ⟨a, hstands, hrest.of_mem ?_⟩
    intro g hg hagain
    rcases List.mem_cons.1 hg with rfl | hg
    · obtain ⟨⟨_, w⟩, hm, rfl⟩ := List.mem_map.1 hagain
      exact absurd (List.of_mem_zip hm).1 hfirst
    · exact hg
  · rintro ⟨a, hstands, hrest⟩
    exact .cons (List.mem_cons_self ..) hstands
      (hrest.of_mem fun g hg _ => List.mem_cons_of_mem _ hg)

end Accepting

/-! ## Members and elements -/

section

open Accepting

variable {f : Field Accepting σ} {fs : List (Field Accepting σ)} {first : Bool}
  {cs rest : List Char}

/-- One step through an object: its end, or a member for a field that is still open. -/
theorem members_step_iff (nodup : (names fs).Nodup) :
    Record.members first (fs.map field) s cs = .ok (t, rest) ↔
      (Spaces cs ('\x7d' :: rest) ∧ s = t) ∨
        ∃ f ∈ fs, ∃ mid v a after, Lead first cs mid ∧ Member Written mid (f.name, v) after ∧
          f.de.Stands v a ∧
          Record.members false ((left f.name fs).map field) (f.put s a) after = .ok (t, rest) := by
  constructor
  · intro h
    rw [Record.members] at h
    split at h
    · cases h
    · next hend =>
      cases h
      exact .inl ⟨Record.nextKey_eq_none_iff.1 hend, rfl⟩
    · next k before hkey =>
      obtain ⟨ds, name, hlead, hquoted, rfl⟩ := Record.nextKey_eq_some_iff.1 hkey
      split at h
      · cases h
      · next f hfind =>
        obtain ⟨f, hf, hname, rfl⟩ := (find?_field_eq_some_iff nodup).1 hfind
        split at h
        · cases h
        · next mid hcolon =>
          split at h
          · cases h
          · next s' after hread =>
            obtain ⟨start, v, a, hspaces, hwritten, hstands, rfl⟩ := read_field_eq_ok_iff.1 hread
            rw [eraseP_field, ← hname] at h
            refine .inr ⟨f, hf, _, v, a, after, hlead, ?_, hstands, h⟩
            rw [hname]
            exact .keyed hquoted (colon_eq_ok_iff.1 hcolon) hspaces hwritten
  · rintro (⟨hend, rfl⟩ | ⟨f, hf, mid, v, a, after, hlead, hmember, hstands, hmore⟩)
    · rw [Record.members, Record.nextKey_eq_none_iff.2 hend]
    · obtain ⟨ds, name, before, start, body, rfl, hname, hquoted, hcolon, hspaces, hwritten⟩ :=
        member_iff.1 hmember
      have hfind := (find?_field_eq_some_iff nodup).2 ⟨f, hf, rfl, rfl⟩
      have hread := (read_field_eq_ok_iff (s := s)).2 ⟨_, _, a, hspaces, hwritten, hstands, rfl⟩
      rw [Record.members, Record.nextKey_eq_some_iff.2 ⟨ds, name, hlead, hquoted, hname⟩]
      dsimp only
      split
      · next hnone =>
        rw [hfind] at hnone
        cases hnone
      · next f hsome =>
        rw [hfind] at hsome
        cases hsome
        rw [colon_eq_ok_iff.2 hcolon]
        dsimp only
        rw [hread, eraseP_field]
        exact hmore

/-- Members are read as the grammar lists them, if none of them is there twice. -/
theorem members_eq_ok_iff (nodup : (names fs).Nodup) :
    Record.members first (fs.map field) s cs = .ok (t, rest) ↔
      ∃ ms, Listed '\x7d' (Member Written) first cs ms rest ∧ (ms.map Prod.fst).Nodup ∧
        Fills fs s ms t := by
  induction hn : fs.length using Nat.strongRecOn generalizing fs first s cs with
  | ind n ih =>
    subst hn
    rw [members_step_iff nodup]
    constructor
    · rintro (⟨hend, rfl⟩ | ⟨f, hf, mid, v, a, after, hlead, hmember, hstands, hmore⟩)
      · exact ⟨[], .close hend, List.nodup_nil, .nil⟩
      · have hless := length_left_lt (List.mem_map_of_mem hf)
        obtain ⟨ms, hlisted, once, hleft⟩ := (ih _ hless (names_left_nodup nodup) rfl).1 hmore
        obtain ⟨hnew, hfills⟩ := (fills_left_iff nodup).1 hleft
        exact ⟨(f.name, v) :: ms, .item hlead hmember hlisted, List.nodup_cons.2 ⟨hnew, once⟩,
          .cons hf hstands hfills⟩
    · rintro ⟨ms, hlisted, once, hfills⟩
      cases hlisted with
      | close spaces =>
        cases hfills
        exact .inl ⟨spaces, rfl⟩
      | @item _ _ mid after _ m ms lead item more =>
        obtain ⟨k, v⟩ := m
        rw [List.map_cons, List.nodup_cons] at once
        obtain ⟨f, hf, rfl, a, hstands, hrest⟩ := fills_cons_iff.1 hfills
        have hless := length_left_lt (List.mem_map_of_mem hf)
        have hleft := (fills_left_iff nodup).2 ⟨once.1, hrest⟩
        have hmore := (ih _ hless (names_left_nodup nodup) rfl).2 ⟨ms, more, once.2, hleft⟩
        exact .inr ⟨f, hf, mid, v, a, after, lead, item, hstands, hmore⟩

/-- Where no field is left, an array ends. -/
theorem elements_nil_iff :
    Record.elements first [] s cs = .ok (t, rest) ↔ Spaces cs (']' :: rest) ∧ s = t := by
  constructor
  · intro h
    unfold Record.elements at h
    split at h
    · cases h
    · next hskip =>
      cases h
      exact ⟨(skipSpace_eq_cons_iff (by decide)).1 hskip, rfl⟩
    · cases h
  · rintro ⟨hend, rfl⟩
    simp only [Record.elements, (skipSpace_eq_cons_iff (by decide)).2 hend]

/-- One step through an array: its end, or an element for the field whose turn it is. -/
theorem elements_step_iff :
    Record.elements first ((f :: fs).map field) s cs = .ok (t, rest) ↔
      (Spaces cs (']' :: rest) ∧ s = t) ∨
        ∃ mid v a after, Lead first cs mid ∧ Written mid v after ∧ f.de.Stands v a ∧
          Record.elements false (fs.map field) (f.put s a) after = .ok (t, rest) := by
  rw [List.map_cons]
  constructor
  · intro h
    unfold Record.elements at h
    split at h
    · cases h
    · next hend =>
      cases h
      exact .inl ⟨Record.nextElement_eq_false_iff.1 hend, rfl⟩
    · next start hnext =>
      split at h
      · cases h
      · next s' after hread =>
        obtain ⟨hlead, -⟩ := Record.nextElement_eq_true_iff.1 hnext
        obtain ⟨mid, v, a, hspaces, hwritten, hstands, rfl⟩ := read_field_eq_ok_iff.1 hread
        exact .inr ⟨mid, v, a, after, hlead.trans hspaces, hwritten, hstands, h⟩
  · rintro (⟨hend, rfl⟩ | ⟨mid, v, a, after, hlead, hwritten, hstands, hmore⟩)
    · unfold Record.elements
      rw [Record.nextElement_eq_false_iff.2 hend]
    · have hread := (read_field_eq_ok_iff (s := s)).2 ⟨_, _, a, .none, hwritten, hstands, rfl⟩
      obtain ⟨c, ds, rfl, hc⟩ := hwritten.exists_not_isDelimiter
      have hbracket : c ≠ ']' := by
        rintro rfl
        cases hc
      unfold Record.elements
      rw [Record.nextElement_eq_true_iff.2
        ⟨hlead, c, ds, rfl, isSpace_of_isDelimiter hc, hbracket⟩]
      dsimp only
      rw [hread]
      exact hmore

/-- Elements are read as the grammar lists them, one for each field. -/
theorem elements_eq_ok_iff (nodup : (names fs).Nodup) :
    Record.elements first (fs.map field) s cs = .ok (t, rest) ↔
      ∃ vs, Listed ']' Written first cs vs rest ∧ vs.length ≤ fs.length ∧
        Fills fs s ((names fs).zip vs) t := by
  induction fs generalizing first s cs with
  | nil =>
    rw [List.map_nil, elements_nil_iff]
    constructor
    · rintro ⟨hend, rfl⟩
      exact ⟨[], .close hend, Nat.le_refl 0, .nil⟩
    · rintro ⟨vs, hlisted, hfew, hfills⟩
      obtain rfl := List.length_eq_zero_iff.1 (Nat.le_zero.1 hfew)
      cases hfills
      cases hlisted with
      | close spaces => exact ⟨spaces, rfl⟩
  | cons f fs ih =>
    have hrest : (names fs).Nodup := (List.nodup_cons.1 nodup).2
    rw [elements_step_iff]
    constructor
    · rintro (⟨hend, rfl⟩ | ⟨mid, v, a, after, hlead, hwritten, hstands, hmore⟩)
      · refine ⟨[], .close hend, Nat.zero_le _, ?_⟩
        rw [List.zip_nil_right]
        exact .nil
      · obtain ⟨vs, hlisted, hfew, hfills⟩ := (ih hrest).1 hmore
        exact ⟨v :: vs, .item hlead hwritten hlisted, Nat.succ_le_succ hfew,
          (fills_zip_cons_iff nodup).2 ⟨a, hstands, hfills⟩⟩
    · rintro ⟨vs, hlisted, hfew, hfills⟩
      cases hlisted with
      | close spaces =>
        rw [List.zip_nil_right] at hfills
        cases hfills
        exact .inl ⟨spaces, rfl⟩
      | @item _ _ mid after _ v vs lead item more =>
        obtain ⟨a, hstands, hmore⟩ := (fills_zip_cons_iff nodup).1 hfills
        have hless := Nat.le_of_succ_le_succ hfew
        exact .inr ⟨mid, v, a, after, lead, item, hstands, (ih hrest).2 ⟨vs, more, hless, hmore⟩⟩

/-- The reader of a record accepts the values that give a record, and nothing else. -/
theorem accepts_record (shape : Shape Accepting σ) :
    Accepts (record (shape.map Accepting.reader))
      (Given (shape.parts Accepting.Stands) shape.default) := by
  have nodup : (names shape.fields).Nodup := shape.nodup
  intro cs s rest
  constructor
  · intro h
    unfold record at h
    split at h
    · next ds hskip =>
      obtain ⟨vs, hlisted, hfew, hfills⟩ := (elements_eq_ok_iff nodup).1 h
      refine ⟨_, .array vs, (skipSpace_eq_cons_iff (by decide)).1 hskip, .array hlisted, ?_⟩
      have once := nodup_zip nodup vs
      have holds := (fills_iff shape once).1 hfills
      exact (shape.given_array_iff _).2 ⟨hfew, .object once holds⟩
    · next ds hskip =>
      obtain ⟨ms, hlisted, once, hfills⟩ := (members_eq_ok_iff nodup).1 h
      refine ⟨_, .object ms, (skipSpace_eq_cons_iff (by decide)).1 hskip, .object hlisted, ?_⟩
      exact .object once ((fills_iff shape once).1 hfills)
    · exact absurd h (unwanted_ne_ok _ _)
  · rintro ⟨mid, v, hspaces, hwritten, hgiven⟩
    have hskip := fun {c ds} (hc : isSpace c = false) (h : Spaces cs (c :: ds)) =>
      (skipSpace_eq_cons_iff hc).2 h
    cases hwritten with
    | object members =>
      cases hgiven with
      | object once holds =>
        simp only [record, hskip (by decide) hspaces]
        exact (members_eq_ok_iff nodup).2 ⟨_, members, once, (fills_iff shape once).2 holds⟩
    | array elements =>
      obtain ⟨few, hobject⟩ := (shape.given_array_iff _).1 hgiven
      cases hobject with
      | object once holds =>
        simp only [record, hskip (by decide) hspaces]
        exact (elements_eq_ok_iff nodup).2 ⟨_, elements, few, (fills_iff shape once).2 holds⟩
    | _ => cases hgiven

end

/-! ## The readers as a library -/

/-- The readers, each with what it accepts. -/
def accepting : Library where
  De := Accepting
  Error := Fault
  text := ⟨text, fun v s => v = .text s, accepts_text⟩
  flag := ⟨flag, fun v b => v = .flag b, accepts_flag⟩
  record shape := ⟨record (shape.map Accepting.reader), _, accepts_record shape⟩
  fromText d := document d.reader

/-- The readers do what is documented of a library. -/
theorem documented_accepting : accepting.Documented Accepting.Stands where
  reads {_ d _ _} _ h := (document_eq_ok_iff d.accepts).1 h
  accepts {_ d _ v _} h _ takes := (document_eq_ok_iff d.accepts).2 ⟨v, h, takes⟩
  text := Iff.rfl
  flag := Iff.rfl
  composite h := by
    cases h with
    | object => exact .inl ⟨_, rfl⟩
    | array => exact .inr ⟨_, rfl⟩
  known {_ shape _ _} _ h := by
    cases h with
    | object once holds => exact ((shape.holds_iff _).1 holds).1
  once h := by
    cases h with
    | object once holds => exact fun f _ => List.nodup_iff_count_le_one.1 once f.name
  given {_ shape _ _} h := by
    cases h with
    | object once holds => exact ((shape.holds_iff _).1 holds).2.1
  missing {_ shape _ _} _ h := by
    cases h with
    | object once holds => exact ((shape.holds_iff _).1 holds).2.2
  object {_ shape _ _} _ known once given missing :=
    .object once ((shape.holds_iff _).2 ⟨known, given, missing⟩)
  array {_ shape _ _} _ := shape.given_array_iff _

end Reconciler.Json
