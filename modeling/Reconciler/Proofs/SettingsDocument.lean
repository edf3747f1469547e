import Reconciler.Proofs.RecordReading
import Reconciler.Settings

/-!
# Documents of settings

Which documents settings are read from, and what is read: the document is one value, which gives the
settings by their parts. In every other case the document is refused, so that nothing that a host
writes is passed over in silence. This holds of every library that does what is documented of it,
and the readers of this project are one (`Settings.ofJson_accepting`).
-/

namespace Reconciler

open Json

/-- The parts of the log settings, in order. -/
def LogSettings.parts : List (Json.Part LogSettings) :=
  [⟨"filter", filter, fun v s => v = .text s⟩,
   ⟨"ansi", ansi, fun v b => v = .flag b⟩,
   ⟨"target", target, fun v b => v = .flag b⟩]

/-- The parts of the settings. -/
def Settings.parts : List (Json.Part Settings) := [⟨"log", log, Given LogSettings.parts {}⟩]

section Library

variable {lib : Library} {Takes : {α : Type} → lib.De α → Value → α → Prop}

/-- What is declared of the log settings comes to their parts. -/
theorem LogSettings.parts_shape (documented : lib.Documented Takes) :
    (LogSettings.shape lib).parts Takes = LogSettings.parts := by
  have htext : Takes lib.text = fun v s => v = .text s := by
    funext v s
    exact propext documented.text
  have hflag : Takes lib.flag = fun v b => v = .flag b := by
    funext v b
    exact propext documented.flag
  simp only [Shape.parts, LogSettings.shape, List.map_cons, List.map_nil, htext, hflag]
  rfl

/-- What is declared of the settings comes to their parts. -/
theorem Settings.parts_shape (documented : lib.Documented Takes) :
    (Settings.shape lib).parts Takes = Settings.parts := by
  have hlog : Takes (lib.record (LogSettings.shape lib)) = Given LogSettings.parts {} := by
    funext v s
    rw [← LogSettings.parts_shape documented]
    exact propext (documented.takes_record_iff rfl rfl)
  simp only [Shape.parts, Settings.shape, List.map_cons, List.map_nil, hlog]
  rfl

namespace Settings

/-- Nothing in a document of settings is ignored. -/
theorem thorough_shape (lib : Library) : lib.Thorough (lib.record (shape lib)) := by
  have hlog : lib.Thorough (lib.record (LogSettings.shape lib)) := by
    refine .record rfl ?_
    simp only [LogSettings.shape, List.forall_mem_cons]
    exact ⟨.text, .flag, .flag, List.forall_mem_nil _⟩
  refine .record rfl ?_
  simp only [shape, List.forall_mem_cons]
  exact ⟨hlog, List.forall_mem_nil _⟩

/-- Values that give settings are nested less deep than a library goes. -/
theorem shallow_of_given {v : Value} {c : Settings} (h : Given parts {} v c) :
    v.Shallow depthLimit := by
  refine h.shallow (List.forall_mem_singleton.2 ?_)
  intro w l hlog
  refine Given.shallow (n := 125) ?_ hlog
  simp only [LogSettings.parts, List.forall_mem_cons]
  refine ⟨?_, ?_, ?_, List.forall_mem_nil _⟩
  · rintro _ s rfl
    exact .text
  · rintro _ b rfl
    exact .flag
  · rintro _ b rfl
    exact .flag

/-- Settings are read from a document that gives them. -/
theorem ofJson_eq_ok_iff (documented : lib.Documented Takes) {s : String} {c : Settings} :
    ofJson lib s = .ok c ↔ ∃ v, Document s.toList v ∧ Given parts {} v c := by
  have hread : ofJson lib s = .ok c ↔ lib.fromText (lib.record (shape lib)) s = .ok c := by
    unfold ofJson
    cases lib.fromText (lib.record (shape lib)) s <;> simp
  have htakes : ∀ v, Takes (lib.record (shape lib)) v c ↔ Given parts {} v c := by
    intro v
    rw [← parts_shape documented]
    exact documented.takes_record_iff rfl rfl
  rw [hread]
  constructor
  · intro h
    obtain ⟨v, hdocument, hv⟩ := documented.reads (thorough_shape lib) h
    exact ⟨v, hdocument, (htakes v).1 hv⟩
  · rintro ⟨v, hdocument, hgiven⟩
    exact documented.accepts hdocument (shallow_of_given hgiven) ((htakes v).2 hgiven)

/-- A document has one value, which decides what is read. -/
theorem ofJson_eq_ok_iff_of_document (documented : lib.Documented Takes) {s : String} {v : Value}
    (h : Document s.toList v) {c : Settings} : ofJson lib s = .ok c ↔ Given parts {} v c := by
  rw [ofJson_eq_ok_iff documented]
  constructor
  · rintro ⟨w, hw, hgiven⟩
    rwa [h.unique hw] at hgiven
  · intro hgiven
    exact ⟨v, h, hgiven⟩

/-- In which order the settings of the log are given does not matter. -/
theorem given_log_perm {ms ns : List (String × Value)} (h : ms.Perm ns) {c : Settings}
    (hgiven : Given parts {} (.object [("log", .object ms)]) c) :
    Given parts {} (.object [("log", .object ns)]) c := by
  refine hgiven.congr_member ?_
  intro p hp a hstands
  obtain rfl := List.mem_singleton.1 hp
  exact hstands.perm h

/-- Settings are read from a document if its value gives them, by their names in any order or by
their places. In every other case the document is refused. -/
theorem ofJson_iff_given (documented : lib.Documented Takes) (s : String) :
    (∀ c, ofJson lib s = .ok c ↔ ∃ v, Document s.toList v ∧ Given parts {} v c) ∧
      (∀ v, Document s.toList v → ∀ c, ofJson lib s = .ok c ↔ Given parts {} v c) ∧
      ((∃ e, ofJson lib s = .error (.json e)) ↔
        ¬ ∃ v c, Document s.toList v ∧ Given parts {} v c) ∧
      ∀ t ms ns, ms.Perm ns → Document s.toList (.object [("log", .object ms)]) →
        Document t.toList (.object [("log", .object ns)]) →
        ∀ c, ofJson lib s = .ok c ↔ ofJson lib t = .ok c := by
  refine ⟨fun c => ofJson_eq_ok_iff documented,
    fun v hdocument c => ofJson_eq_ok_iff_of_document documented hdocument, ?_, ?_⟩
  · constructor
    · rintro ⟨e, hfault⟩ ⟨v, c, hdocument, hgiven⟩
      have hread := (ofJson_eq_ok_iff_of_document documented hdocument).2 hgiven
      rw [hfault] at hread
      cases hread
    · intro hnone
      cases hread : lib.fromText (lib.record (shape lib)) s with
      | error e => exact ⟨e, by rw [ofJson, hread]⟩
      | ok c =>
        have hok : ofJson lib s = .ok c := by rw [ofJson, hread]
        obtain ⟨v, hgiven⟩ := (ofJson_eq_ok_iff documented).1 hok
        exact absurd ⟨v, c, hgiven⟩ hnone
  · intro t ms ns hperm hs ht c
    rw [ofJson_eq_ok_iff_of_document documented hs, ofJson_eq_ok_iff_of_document documented ht]
    exact ⟨given_log_perm hperm, given_log_perm hperm.symm⟩

end Settings

end Library

namespace Settings

/-- With what they accept beside them, the readers read the same settings. -/
theorem ofJson_accepting (s : String) : ofJson accepting s = ofJson readers s := by
  have hshape : (shape accepting).map Accepting.reader = shape readers := rfl
  have hread : accepting.fromText (accepting.record (shape accepting)) s =
      readers.fromText (readers.record (shape readers)) s :=
    congrArg (fun shape => document (record shape) s) hshape
  unfold ofJson
  rw [hread]
  cases readers.fromText (readers.record (shape readers)) s <;> rfl

/-- The parts may come by name or by their places, what is left out takes its default, and no part
may come twice. -/
theorem ofJson_iff_given_by_place :
    let s := " \x7b \"log\" : [ \"debug\" , false ] \x7d "
    let t := "\x7b \"log\": \x7b\x7d, \"log\": \x7b\x7d \x7d"
    let c : Settings := { log := { filter := "debug", ansi := false, target := false } }
    accepting.Documented Accepting.Stands ∧
      ofJson readers s = .ok c ∧ (∃ v, Document s.toList v ∧ Given parts {} v c) ∧
      ofJson readers t = .error (.json .unfit) ∧
      ¬ ∃ v c, Document t.toList v ∧ Given parts {} v c := by
  intro s t c
  have hs : ofJson readers s = .ok c := by
    dsimp only [ofJson, shape, LogSettings.shape, readers, s, c]
    cbv
  have ht : ofJson readers t = .error (.json .unfit) := by
    dsimp only [ofJson, shape, LogSettings.shape, readers, t]
    cbv
  have hgiven := (ofJson_iff_given documented_accepting s).1 c
  have hrefused := (ofJson_iff_given documented_accepting t).2.2.1
  rw [ofJson_accepting] at hgiven hrefused
  exact ⟨documented_accepting, hs, hgiven.1 hs, ht, hrefused.1 ⟨.unfit, ht⟩⟩

end Settings

end Reconciler
