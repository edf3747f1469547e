import Reconciler.Peer.Recorder
import Reconciler.Proofs.Simulation
import Reconciler.Proofs.Turn

/-!
# What a recorder keeps of a pass

A recorder answers every call by its attribute alone, and keeps it. So all that happens to a
recorder is that calls are appended (`Recorder.record`): by a script, by the commit of a slot and by
the settling of many, only calls that the scripts are known to make.
-/

namespace Reconciler

/-- A script whose calls have a property has calls with any weaker one. -/
theorem Script.Calls.mono {P Q : Call → Prop} (h : ∀ c, P c → Q c) {s : Script} (hs : s.Calls P) :
    s.Calls Q := by
  induction s with
  | done _ => trivial
  | panic _ => trivial
  | call c next ih => exact ⟨h c hs.1, fun r => ih r (hs.2 r)⟩

namespace Recorder

/-- The recorder after some more calls. -/
def record (r : Recorder) (cs : List Call) : Recorder := { r with calls := r.calls ++ cs }

@[simp] theorem calls_record (r : Recorder) (cs : List Call) :
    (r.record cs).calls = r.calls ++ cs := rfl

@[simp] theorem outcome_record (r : Recorder) (cs : List Call) (a : Attribute) :
    (r.record cs).outcome a = r.outcome a := rfl

@[simp] theorem record_nil (r : Recorder) : r.record [] = r := by
  simp [record]

@[simp] theorem record_record (r : Recorder) (cs ds : List Call) :
    (r.record cs).record ds = r.record (cs ++ ds) := by
  simp [record]

/-- A call is answered by its attribute, and kept. -/
theorem send_eq (c : Call) (r : Recorder) :
    Peer.send c r = (r.outcome c.target, r.record [c]) := rfl

/-- A single call is kept by a recorder, and what ends in a panic is about an attribute that the
recorder panics on. -/
theorem run_call {c : Call} {finish : Except PeerError Unit → Except PeerError Unit}
    {r q : Recorder} {o : Outcome PeerError Unit}
    (h : (Script.call c fun answer => .done (finish answer)).run r = (o, q)) :
    q = r.record [c] ∧ ∀ panic, o = .panicked panic → c.target ∈ r.panicking := by
  have hdone : ∀ answer, (Script.done (finish answer)).run (r.record [c]) = (o, q) →
      q = r.record [c] ∧ ∀ panic, o = .panicked panic → c.target ∈ r.panicking := by
    intro answer h
    cases hf : finish answer with
    | ok u =>
      rw [hf] at h
      cases h
      exact ⟨rfl, fun panic hpanic => by cases hpanic⟩
    | error err =>
      rw [hf] at h
      cases h
      exact ⟨rfl, fun panic hpanic => by cases hpanic⟩
  simp only [Script.run, send_eq] at h
  cases ho : r.outcome c.target with
  | ok u =>
    rw [ho] at h
    exact hdone _ h
  | error err =>
    rw [ho] at h
    exact hdone _ h
  | panicked panic =>
    rw [ho] at h
    cases h
    refine ⟨rfl, fun _ _ => ?_⟩
    by_cases hpanics : c.target ∈ r.panicking
    · exact hpanics
    · rw [outcome, if_neg hpanics] at ho
      split at ho <;> cases ho

end Recorder

variable {P : Call → Prop}

/-- A script only appends calls that it is known to make. -/
theorem Script.Calls.exists_record {s : Script} (hs : s.Calls P) (r : Recorder) :
    ∃ cs, (s.run r).2 = r.record cs ∧ ∀ c ∈ cs, P c := by
  induction s generalizing r with
  | done result =>
    refine ⟨[], ?_, by simp⟩
    cases result <;> rw [Recorder.record_nil] <;> rfl
  | panic _ =>
    refine ⟨[], ?_, by simp⟩
    rw [Recorder.record_nil]
    rfl
  | call c next ih =>
    -- the calls after an answer are appended to the one that got it
    have hnext : ∀ result, ∃ cs, ((next result).run (r.record [c])).2 = r.record (c :: cs) ∧
        ∀ d ∈ c :: cs, P d := by
      intro result
      rcases ih result (hs.2 result) (r.record [c]) with ⟨cs, hrun, hcs⟩
      refine ⟨cs, by rw [hrun, Recorder.record_record]; rfl, ?_⟩
      intro d hd
      rcases List.mem_cons.1 hd with rfl | hd
      · exact hs.1
      · exact hcs d hd
    simp only [run, Recorder.send_eq]
    cases r.outcome c.target with
    | ok =>
      rcases hnext (.ok ()) with ⟨cs, hcs⟩
      exact ⟨c :: cs, hcs⟩
    | error err =>
      rcases hnext (.error err) with ⟨cs, hcs⟩
      exact ⟨c :: cs, hcs⟩
    | panicked panic => exact ⟨[c], rfl, by simpa using hs.1⟩

variable {κ : Type} [Catalog κ] {node : NodeHandle}

/-- The commit of a slot only appends calls that its scripts are known to make. -/
theorem Entry.Settles.exists_record {e : Entry κ} {r q : Recorder} {s : Settlement κ}
    (hs : e.Settles node r s q) (he : e.Calls P node) :
    ∃ cs, q = r.record cs ∧ ∀ c ∈ cs, P c := by
  have hrun : ∀ {script : Script} {o : Outcome PeerError Unit} {q : Recorder},
      script.Calls P → script.run r = (o, q) → ∃ cs, q = r.record cs ∧ ∀ c ∈ cs, P c := by
    intro script o q hcalls h
    have hrecord := hcalls.exists_record r
    rwa [h] at hrecord
  have hnone : ∃ cs, r = r.record cs ∧ ∀ c ∈ cs, P c := ⟨[], by simp⟩
  cases hs with
  | idle => exact hnone
  | unchanged => exact hnone
  | comparisonPanicked => exact hnone
  | expired h => exact hrun he.2 h
  | resetFailed h => exact hrun he.2 h
  | resetPanicked h => exact hrun he.2 h
  | applied _ h => exact hrun (he.1 _) h
  | applyFailed _ h => exact hrun (he.1 _) h
  | applyPanicked _ h => exact hrun (he.1 _) h

/-- The settling of slots only appends calls that their scripts are known to make. -/
theorem Table.exists_record_settle {entries : List (Attribute × Entry κ)}
    (he : ∀ x ∈ entries, x.2.Calls P node) (r : Recorder) :
    ∃ cs, (settle node entries r).2 = r.record cs ∧ ∀ c ∈ cs, P c := by
  induction entries generalizing r with
  | nil => exact ⟨[], by simp [settle]⟩
  | cons x entries ih =>
    have hs := x.2.settles_commit node r
    rcases hs.exists_record (he x (.head _)) with ⟨cs, hcommit, hcs⟩
    rcases ih (fun y hy => he y (.tail _ hy)) (r.record cs) with ⟨ds, hsettle, hds⟩
    refine ⟨cs ++ ds, ?_, ?_⟩
    · simp only [settle, hcommit, hsettle, Recorder.record_record]
    · intro c hc
      rcases List.mem_append.1 hc with hc | hc
      · exact hcs c hc
      · exact hds c hc

end Reconciler
