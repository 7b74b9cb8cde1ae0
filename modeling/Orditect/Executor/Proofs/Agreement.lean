import Orditect.Executor.Proofs.Hooks
/-!
# Snapshot and hot record at the end of an execution

A finalisation writes the record and the snapshot in two steps.  Once the running snapshot
is there, the two agree at the end unless a finalisation leaves the snapshot out (the flag
was seen after the body returned, or the record was settled by someone else), or a
cancellation is delivered between the two writes or before the generation is captured.
-/

namespace Orditect.Executor.Proofs

open Session Snapshot Support.LuaJson Support.Transition
open TaskStore (Store field)

variable {ν : Type}

/-! ## The snapshot of a generation -/

def generation (cfg : Config) (eid : String) : Key := ⟨cfg.taskId, "execute", eid⟩

structure Fresh (m : Memory Nat ν) (k : Key) : Prop where
  absent : m.find k = none
  unsealed : k ∉ m.terminal

structure Running (m : Memory Nat ν) (k : Key) : Prop where
  row : ∃ snapshot, m.find k = some snapshot ∧ snapshot.status = TaskStatus.running.value
  unsealed : k ∉ m.terminal

structure Agreed (m : Memory Nat ν) (k : Key) (w : TaskStatus) : Prop where
  row : ∃ snapshot, m.find k = some snapshot ∧ snapshot.status = w.value
  terminal : k ∈ m.terminal
  ended : w.isTerminal = true

def NotRunning (m : Memory Nat ν) (k : Key) : Prop :=
  ∀ snapshot, m.find k = some snapshot → snapshot.status ≠ TaskStatus.running.value

variable {k : Key} {m : Memory Nat ν} {pc : Pc ν} {w w' : TaskStatus}

theorem Fresh.notRunning (h : Fresh m k) : NotRunning m k := by
  intro snapshot hfind
  simp [h.absent] at hfind

structure RowOf (eid : String) (row : SnapshotRow ν) : Prop where
  id : row.executionId = .str eid
  parent : row.parentTaskId = none ∨ ∃ p, row.parentTaskId = some (.str p)

section

variable {cfg : Config} {eid : String} {row : SnapshotRow ν} {now : Nat}

theorem RowOf.taskSnapshot (h : RowOf eid row) (cfg : Config) (now : Nat) :
    ∃ snapshot, taskSnapshot cfg now row = some snapshot ∧
      snapshot.key = generation cfg eid ∧ snapshot.status = row.status.value := by
  unfold Session.taskSnapshot
  rw [h.id]
  rcases h.parent with hnone | ⟨p, hp⟩
  · rw [hnone]
    exact ⟨_, rfl, rfl, rfl⟩
  · rw [hp]
    exact ⟨_, rfl, rfl, rfl⟩

variable [DecidableEq ν] [LuaNumber ν]

theorem RowOf.writeRow_terminal (h : RowOf eid row) (hterminal : row.terminal = true)
    (cfg : Config) (now : Nat) (m : Memory Nat ν) :
    (generation cfg eid ∈ m.terminal ∧ writeRow cfg now row m = m) ∨
      ((m.find (generation cfg eid) = none ∨ generation cfg eid ∉ m.terminal) ∧
        (∃ snapshot, (writeRow cfg now row m).find (generation cfg eid) = some snapshot ∧
          snapshot.status = row.status.value) ∧
        generation cfg eid ∈ (writeRow cfg now row m).terminal) := by
  obtain ⟨snapshot, hsnapshot, hkey, hvalue⟩ := h.taskSnapshot cfg now
  have hwrite : writeRow cfg now row m = (m.saveTerminal snapshot).getD m := by
    simp [writeRow, hsnapshot, hterminal]
  rw [hwrite, ← hkey]
  rcases m.saveTerminal_spec snapshot with ⟨-, hmem, hsame⟩ | ⟨hopen, hfind, hmem⟩
  · exact Or.inl ⟨hmem, hsame⟩
  · exact Or.inr ⟨hopen, ⟨snapshot, hfind, hvalue⟩, hmem⟩

theorem Running.writeRow (hm : Running m (generation cfg eid)) (h : RowOf eid row)
    (hterminal : row.terminal = true) (hended : row.status.isTerminal = true) :
    Agreed (writeRow cfg now row m) (generation cfg eid) row.status := by
  rcases h.writeRow_terminal hterminal cfg now m with
    ⟨hmem, -⟩ | ⟨-, hrow, hmem⟩
  · exact absurd hmem hm.unsealed
  · exact ⟨hrow, hmem, hended⟩

theorem Agreed.writeRow (hm : Agreed m (generation cfg eid) w) (h : RowOf eid row)
    (hterminal : row.terminal = true) :
    Agreed (writeRow cfg now row m) (generation cfg eid) w := by
  rcases h.writeRow_terminal hterminal cfg now m with
    ⟨-, hsame⟩ | ⟨hopen, -, -⟩
  · rw [hsame]
    exact hm
  · obtain ⟨snapshot, hfind, -⟩ := hm.row
    rcases hopen with hnone | hopen
    · simp [hnone] at hfind
    · exact absurd hm.terminal hopen

theorem NotRunning.writeRow (hm : NotRunning m (generation cfg eid)) (h : RowOf eid row)
    (hterminal : row.terminal = true) (hstatus : row.status ≠ .running) :
    NotRunning (writeRow cfg now row m) (generation cfg eid) := by
  rcases h.writeRow_terminal hterminal cfg now m with
    ⟨-, hsame⟩ | ⟨-, ⟨snapshot, hfind, hvalue⟩, -⟩
  · rw [hsame]
    exact hm
  · intro snapshot' hfind'
    obtain rfl : snapshot = snapshot' := Option.some.inj (hfind.symm.trans hfind')
    rw [hvalue]
    exact fun heq => hstatus (TaskStatus.value_injective heq)

end

/-! ## Along the path of `execute` -/

def Formed (eid : String) : Pc ν → Prop
  | .readSnapshot _ request => request.executionId = .str "" ∨ request.executionId = .str eid
  | .writeSnapshot _ row => RowOf eid row
  | .finalizeCancel id => id = .str eid
  | _ => True

def Unstarted (m : Memory Nat ν) (k : Key) (w : TaskStatus) : Pc ν → Prop
  | .readSnapshot false request =>
    Fresh m k ∧ Undecided w ∧ request.status = .running ∧ request.terminal = false
  | .writeSnapshot false row =>
    Fresh m k ∧ Undecided w ∧ row.status = .running ∧ row.terminal = false
  | .readSnapshot true request =>
    NotRunning m k ∧ request.status ≠ .running ∧ request.terminal = true
  | .writeSnapshot true row => NotRunning m k ∧ row.status ≠ .running ∧ row.terminal = true
  | .body | .checkCancelAfter _ | .settleCancelled | .writeSucceeded _ | .hook false => False
  | .captureGeneration | .finalizeFailure _ _ | .finalizeSettle _ _ | .finalizeFailed _
  | .finalizeCancel _ | .hook true | .finished => NotRunning m k
  | _ => Fresh m k

def Started (m : Memory Nat ν) (k : Key) (w : TaskStatus) : Pc ν → Prop
  | .body | .checkCancelAfter _ | .writeSucceeded _ | .finalizeFailure _ _ | .finalizeSettle _ _
  | .finalizeFailed _ => Running m k ∧ Undecided w
  | .captureGeneration | .finalizeCancel _ => Running m k ∧ Undecided w ∨ Agreed m k w
  | .readSnapshot _ request => request.terminal = true ∧
      (Running m k ∧ w = request.status ∧ w.isTerminal = true ∨ Agreed m k w)
  | .writeSnapshot _ row => row.terminal = true ∧
      (Running m k ∧ w = row.status ∧ w.isTerminal = true ∨ Agreed m k w)
  | .hook _ | .finished => Agreed m k w
  | _ => False

theorem Agreed.interferes (h : Agreed m k w) (hw : Interferes w w') : Agreed m k w' := by
  rcases hw with rfl | ⟨hopen, -⟩
  · exact h
  · simp [h.ended] at hopen

theorem Unstarted.notRunning (h : Unstarted m k w pc) : NotRunning m k := by
  cases pc with
  | readSnapshot shielded request | writeSnapshot shielded row =>
    cases shielded with
    | true => exact h.1
    | false => exact h.1.notRunning
  | hook shielded =>
    cases shielded with
    | true => exact h
    | false => exact h.elim
  | body | checkCancelAfter | settleCancelled | writeSucceeded => exact h.elim
  | captureGeneration | finalizeFailure | finalizeSettle | finalizeFailed | finalizeCancel
  | finished => exact h
  | _ => exact Fresh.notRunning h

theorem Unstarted.interferes (h : Unstarted m k w pc) (hw : Interferes w w') :
    Unstarted m k w' pc := by
  cases pc with
  | readSnapshot shielded request | writeSnapshot shielded row =>
    cases shielded with
    | true => exact h
    | false => exact ⟨h.1, h.2.1.interferes hw, h.2.2⟩
  | hook shielded => cases shielded <;> exact h
  | _ => exact h

theorem Started.interferes (h : Started m k w pc) (hw : Interferes w w') : Started m k w' pc := by
  have hsnapshot : ∀ {v : TaskStatus},
      Running m k ∧ w = v ∧ w.isTerminal = true ∨ Agreed m k w →
      Running m k ∧ w' = v ∧ w'.isTerminal = true ∨ Agreed m k w' := by
    rintro v (⟨hrow, hv, hended⟩ | hagreed)
    · rcases hw with rfl | ⟨hopen, -⟩
      · exact Or.inl ⟨hrow, hv, hended⟩
      · simp [hended] at hopen
    · exact Or.inr (hagreed.interferes hw)
  have hopen : Running m k ∧ Undecided w → Running m k ∧ Undecided w' :=
    And.imp_right fun hu => hu.interferes hw
  cases pc with
  | readSnapshot shielded request | writeSnapshot shielded row => exact ⟨h.1, hsnapshot h.2⟩
  | hook shielded | finished => exact Agreed.interferes h hw
  | captureGeneration
  | finalizeCancel id => exact Or.imp hopen (fun hagreed => hagreed.interferes hw) h
  | body | checkCancelAfter result | writeSucceeded result | finalizeFailure error outcome
  | finalizeSettle error outcome | finalizeFailed error => exact hopen h
  | _ => exact h

section

variable [DecidableEq ν] [LuaNumber ν] {cfg : Config} {eid : String} {s : Store ν} {flag : Bool}
  {now : Nat} {pc' : Pc ν} {row : Option (SnapshotRow ν)}

def written (cfg : Config) (now : Nat) (row : Option (SnapshotRow ν)) (m : Memory Nat ν) :
    Memory Nat ν :=
  row.elim m fun row => writeRow cfg now row m

def Kept (pc : Pc ν) (row : Option (SnapshotRow ν)) : Prop :=
  match pc with
  | .writeSnapshot _ r => row = some r
  | _ => True

/-- With the running snapshot there: the flag is not set when the body has returned, the
record is still open when a success or a failure is written, and no cancellation is
delivered after a success was written and before its snapshot was, or while the generation
is captured. -/
def inOrder (cfg : Config) (s : Store ν) : Pc ν → Session.Event ν → Bool
  | .checkCancelAfter _, .proceed _ => !isCancelRequested cfg s
  | .writeSucceeded _, .proceed _ | .finalizeFailed _, .proceed _ => !ended cfg s
  | .writeSucceeded _, .interrupt (some _) => ended cfg s
  | .captureGeneration, .interrupt _ | .readSnapshot false _, .interrupt _
  | .writeSnapshot false _, .interrupt none => false
  | _, _ => true

variable {choice : Choice ν}

omit [DecidableEq ν] [LuaNumber ν] in
theorem Formed.interrupted (h : Formed eid pc) : Formed eid pc.interrupted := by
  cases pc with
  | readSnapshot shielded request
  | writeSnapshot shielded row => cases shielded <;> first | exact h | trivial
  | hook shielded => cases shielded <;> trivial
  | finalizeCancel id => exact h
  | _ => trivial

omit [DecidableEq ν] [LuaNumber ν] in
theorem Unstarted.interrupted (h : Unstarted m k w pc) :
    Unstarted m k w pc.interrupted := by
  have hnone := h.notRunning
  cases pc with
  | readSnapshot shielded request | writeSnapshot shielded row
  | hook shielded => cases shielded <;> first | exact h | exact hnone
  | _ => exact hnone

theorem Started.interrupted (h : Started m k w pc)
    (horder : Running m k → inOrder cfg s pc (.interrupt none) = true) :
    Started m k w pc.interrupted := by
  have hlost : ∀ {p : Prop}, inOrder cfg s pc (.interrupt none) = false → Running m k → p := by
    intro p hfalse hrow
    have htrue := horder hrow
    simp [hfalse] at htrue
  cases pc with
  | captureGeneration =>
    rcases h with ⟨hrow, -⟩ | hagreed
    · exact hlost rfl hrow
    · exact hagreed
  | readSnapshot shielded request | writeSnapshot shielded row =>
    cases shielded with
    | true => exact h
    | false =>
      rcases h.2 with ⟨hrow, -⟩ | hagreed
      · exact hlost rfl hrow
      · exact Or.inr hagreed
  | hook shielded =>
    cases shielded with
    | true => exact h
    | false => exact Or.inr h
  | body | checkCancelAfter result | writeSucceeded result => exact Or.inl h
  | finalizeFailure | finalizeSettle | finalizeFailed | finalizeCancel | finished => exact h
  | _ => exact h.elim

def runningRow (cfg : Config) (eid : String) (s : Session.State ν) : Bool :=
  (s.snapshots.find (generation cfg eid)).any fun snapshot =>
    snapshot.status == TaskStatus.running.value

omit [DecidableEq ν] [LuaNumber ν] in
theorem Running.runningRow {s : Session.State ν} (h : Running s.snapshots (generation cfg eid)) :
    runningRow cfg eid s = true := by
  obtain ⟨snapshot, hfind, hstatus⟩ := h.row
  simp [Proofs.runningRow, hfind, hstatus]

def orderly (cfg : Config) (eid : String) (s : Session.State ν) (e : Session.Event ν) : Bool :=
  !runningRow cfg eid s || s.execution.all fun x => inOrder cfg s.store x.pc e

end

/-- The snapshot of an earlier generation. -/
def earlier : Memory Nat Int where
  snaps := [{ taskId := "t", step := "execute", executionId := "exec-0", status := "cancelled",
              createdAt := 0, updatedAt := 0 }]
  terminal := [generation plain "exec-0"]

end Orditect.Executor.Proofs
