import Reconciler.Proofs.Rendered

/-!
# Operations on a headless peer

All that can be done with a headless peer, as data: a use of the peer is a list of operations, and
`Headless.play` gives their answers and the peer at the end. The journal may be taken out on the
way, so the calls that were received are read from the journals taken and the one that is left
(`Headless.received`). They are all the calls that were made, in order, also those that failed.

Only two operations change which nodes are alive. All others are `Headless.Steady`, so most
arguments need no more than the three cases of `Headless.Op.perform_cases`.
-/

namespace Reconciler.Headless

/-- What may be done with a headless peer. -/
inductive Op where
  /-- A node is made. -/
  | create
  /-- A node is taken away. -/
  | remove (n : NodeHandle)
  /-- An attribute is written or reset. -/
  | call (c : Call)
  /-- A node is moved into an interaction state. -/
  | setState (n : NodeHandle) (s : UiState)
  /-- The states are declared for which a node has styles. -/
  | setSupported (n : NodeHandle) (s : UiState)
  /-- The journal is taken out. -/
  | takeJournal

/-- What an operation answers. -/
inductive Answer where
  | created (n : NodeHandle)
  | removed (wasAlive : Bool)
  | ended (result : Except PeerError Unit)
  | taken (journal : List Call)

namespace Op

/-- The answer of an operation, and the peer after it. -/
def perform : Op → Headless → Answer × Headless
  | create, p => (.created p.createNode.1, p.createNode.2)
  | remove n, p => (.removed (p.removeNode n).1, (p.removeNode n).2)
  | call c, p => (.ended (p.receive c).1, (p.receive c).2)
  | setState n s, p => (.ended (p.setState n s).1, (p.setState n s).2)
  | setSupported n s, p => (.ended (p.setSupported n s).1, (p.setSupported n s).2)
  | takeJournal, p => (.taken p.takeJournal.1, p.takeJournal.2)

/-- The call that an operation makes, if it is one. -/
def call? : Op → Option Call
  | call c => some c
  | _ => none

/-- The node that an operation changes, if there has to be one. -/
def subject? : Op → Option NodeHandle
  | call c => some c.node
  | setState n _ => some n
  | setSupported n _ => some n
  | _ => none

/-- How many nodes an operation makes. -/
def made : Op → Nat
  | create => 1
  | _ => 0

end Op

/-- The journal that an answer hands out. -/
def Answer.journal : Answer → List Call
  | taken journal => journal
  | _ => []

/-- The answers of operations made one after the other, and the peer at the end. -/
def play (p : Headless) : List Op → List Answer × Headless
  | [] => ([], p)
  | op :: ops =>
    let (answer, p) := op.perform p
    let (answers, q) := p.play ops
    (answer :: answers, q)

/-- All calls that were received: those of the journals that were taken out, and those of the
journal that is left. -/
def received (answers : List Answer) (p : Headless) : List Call :=
  answers.flatMap Answer.journal ++ p.journal

/-! ## Changes that make no node and take none away -/

/-- The same nodes are alive, and the next one to be made is the same. -/
structure Steady (p q : Headless) : Prop where
  last : q.last = p.last
  isAlive (n : NodeHandle) : q.isAlive n = p.isAlive n

namespace Steady

variable {p q r : Headless}

theorem refl (p : Headless) : Steady p p := ⟨rfl, fun _ => rfl⟩

theorem trans (h : Steady p q) (k : Steady q r) : Steady p r :=
  ⟨k.last.trans h.last, fun n => (k.isAlive n).trans (h.isAlive n)⟩

theorem update (p : Headless) (n : NodeHandle) (f : Node → Node) : Steady p (p.update n f).2 :=
  ⟨p.last_update n f, p.isAlive_update n f⟩

theorem receive (c : Call) (p : Headless) : Steady p (p.receive c).2 :=
  ⟨last_update _ _ _, p.isAlive_receive c⟩

end Steady

/-! ## What operations do -/

variable {op : Op} {ops : List Op} {p : Headless} {n : NodeHandle}

/-- An operation makes a node, or takes one away, or changes nothing of which nodes are alive. -/
theorem Op.perform_cases (op : Op) (p : Headless) :
    op = .create ∨ (∃ n, op = .remove n) ∨ op.made = 0 ∧ Steady p (op.perform p).2 := by
  cases op with
  | create => exact .inl rfl
  | remove n => exact .inr (.inl ⟨n, rfl⟩)
  | call c => exact .inr (.inr ⟨rfl, .receive c p⟩)
  | setState n s => exact .inr (.inr ⟨rfl, .update p n _⟩)
  | setSupported n s => exact .inr (.inr ⟨rfl, .update p n _⟩)
  | takeJournal => exact .inr (.inr ⟨rfl, rfl, fun _ => rfl⟩)

theorem Op.filterMap_call?_cons (op : Op) (ops : List Op) :
    (op :: ops).filterMap call? = op.call?.toList ++ ops.filterMap call? := by
  cases h : op.call? <;> simp [h]

theorem play_append (p : Headless) (ops more : List Op) :
    p.play (ops ++ more) = ((p.play ops).1 ++ ((p.play ops).2.play more).1,
      ((p.play ops).2.play more).2) := by
  induction ops generalizing p with
  | nil => rfl
  | cons op ops ih => simp only [List.cons_append, play, ih]

/-- An operation on a node that is not alive fails. If it is a call it is kept, and in all else the
peer stays as it is. -/
theorem Op.perform_of_dead (subject : op.subject? = some n) (dead : p.isAlive n = false) :
    op.perform p = (.ended (.error (.unknownNode n)),
      { p with journal := p.journal ++ op.call?.toList }) := by
  have hidle : { p with journal := p.journal ++ [] } = p := by rw [List.append_nil]
  cases op with
  | create => cases subject
  | remove m => cases subject
  | takeJournal => cases subject
  | call c =>
    cases subject
    simp only [perform, receive_of_dead dead]
    rfl
  | setState m s =>
    cases subject
    have hupdate : p.setState n s = (.error (.unknownNode n), p) := update_of_dead dead _
    simp only [perform, hupdate]
    exact congrArg (Prod.mk _) hidle.symm
  | setSupported m s =>
    cases subject
    have hupdate : p.setSupported n s = (.error (.unknownNode n), p) := update_of_dead dead _
    simp only [perform, hupdate]
    exact congrArg (Prod.mk _) hidle.symm

/-- What an operation hands out of the journal and what it leaves of it are the calls so far, with
its own call. -/
theorem Op.journal_perform (op : Op) (p : Headless) :
    (op.perform p).1.journal ++ (op.perform p).2.journal = p.journal ++ op.call?.toList := by
  cases op with
  | create => exact (List.append_nil _).symm
  | remove n => exact (List.append_nil _).symm
  | takeJournal => rfl
  | call c => exact p.journal_receive c
  | setState n s => exact (p.journal_update n _).trans (List.append_nil _).symm
  | setSupported n s => exact (p.journal_update n _).trans (List.append_nil _).symm

/-- Every call that is made is received, once and in order. -/
theorem received_play (p : Headless) (ops : List Op) :
    received (p.play ops).1 (p.play ops).2 = p.journal ++ ops.filterMap Op.call? := by
  induction ops generalizing p with
  | nil => exact (List.append_nil _).symm
  | cons op ops ih =>
    calc
      received (p.play (op :: ops)).1 (p.play (op :: ops)).2 =
          (op.perform p).1.journal ++
            received ((op.perform p).2.play ops).1 ((op.perform p).2.play ops).2 :=
        List.append_assoc _ _ _
      _ = ((op.perform p).1.journal ++ (op.perform p).2.journal) ++ ops.filterMap Op.call? := by
        rw [ih, List.append_assoc]
      _ = p.journal ++ (op :: ops).filterMap Op.call? := by
        rw [op.journal_perform, Op.filterMap_call?_cons, List.append_assoc]

end Reconciler.Headless
