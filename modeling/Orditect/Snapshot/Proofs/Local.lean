import Orditect.Snapshot.Local
import Orditect.Trace.Proofs.RoundTrip
/-!
# The file of the local adapter as a list of calls

Every file that the adapter writes is the text of a list of calls, and each call does to the
file what it does to that list: what is proved of lists of calls holds of files.
-/

namespace Orditect.Snapshot.Proofs

open Support.Instant Support.JsonText Support.LuaJson Trace Trace.Proofs

/-! ## Instants as values and as text -/

variable {key : Key}

section

variable {τ σ ν : Type}

@[simp] theorem key_map (f : τ → σ) (s : TaskSnapshot τ ν) : (s.map f).key = s.key := rfl

theorem status_map (f : τ → σ) (s : TaskSnapshot τ ν) : (s.map f).status = s.status := rfl

theorem foldRow_map (f : τ → σ) (a b : TaskSnapshot τ ν) :
    foldRow (a.map f) (b.map f) = (foldRow a b).map f := by
  cases h : b.expireAt <;> simp [foldRow, TaskSnapshot.map, h]

theorem foldSnapshotRows_map (f : τ → σ) (rows : List (TaskSnapshot τ ν)) :
    foldSnapshotRows (rows.map (TaskSnapshot.map f)) =
      (foldSnapshotRows rows).map (TaskSnapshot.map f) := by
  cases rows with
  | nil => rfl
  | cons row rows =>
    simp only [List.map_cons, foldSnapshotRows, Option.map_some, Option.some.injEq]
    induction rows generalizing row with
    | nil => rfl
    | cons next rows ih => rw [List.map_cons, List.foldl_cons, foldRow_map, ih, List.foldl_cons]

theorem key_foldRow (r row : TaskSnapshot τ ν) : (foldRow r row).key = r.key := rfl

theorem key_foldl (rows : List (TaskSnapshot τ ν)) (r : TaskSnapshot τ ν) :
    (rows.foldl foldRow r).key = r.key := by
  induction rows generalizing r with
  | nil => rfl
  | cons row rows ih => rw [List.foldl_cons, ih, key_foldRow]

theorem key_of_recordAt {rows : List (Row τ ν)} {r : TaskSnapshot τ ν}
    (h : recordAt rows key = some r) : r.key = key := by
  unfold recordAt at h
  cases hrows : (rows.filter fun row => row.data.key == key).map Row.data with
  | nil => simp [hrows, foldSnapshotRows] at h
  | cons first rest =>
    rw [hrows] at h
    obtain rfl := Option.some.inj h
    rw [key_foldl]
    obtain ⟨row, hrow, rfl⟩ := List.mem_map.mp (show first ∈ _ from hrows ▸ List.mem_cons_self)
    simpa using (List.mem_filter.mp hrow).2

def Row.map (f : τ → σ) (row : Row τ ν) : Row σ ν := ⟨row.terminal, row.data.map f⟩

theorem recordAt_map (f : τ → σ) (rows : List (Row τ ν)) (key : Key) :
    recordAt (rows.map (Row.map f)) key = (recordAt rows key).map (TaskSnapshot.map f) := by
  rw [recordAt, recordAt, ← foldSnapshotRows_map, List.filter_map, List.map_map, List.map_map]
  rfl

theorem terminals_map (f : τ → σ) (rows : List (Row τ ν)) :
    terminals (rows.map (Row.map f)) = terminals rows := by
  rw [terminals, terminals, List.filter_map, List.map_map]
  rfl

theorem records_map (f : τ → σ) (rows : List (Row τ ν)) :
    records (rows.map (Row.map f)) = (records rows).map (TaskSnapshot.map f) := by
  have hkeys : (rows.map (Row.map f)).map (fun row => row.data.key) =
      rows.map fun row => row.data.key := by
    rw [List.map_map]
    rfl
  rw [records, records, hkeys, List.map_filterMap]
  congr 1
  funext key
  exact recordAt_map f rows key

theorem samePayload_map [DecidableEq τ] [DecidableEq σ] [DecidableEq ν] [LuaNumber ν] {f : τ → σ}
    (hf : Function.Injective f) (a b : TaskSnapshot τ ν) :
    samePayload (a.map f) (b.map f) = samePayload a b := by
  have hexpire : ((a.map f).expireAt == (b.map f).expireAt) = (a.expireAt == b.expireAt) := by
    rw [Bool.eq_iff_iff, beq_iff_eq, beq_iff_eq]
    exact (Option.map_injective hf).eq_iff
  unfold samePayload
  rw [hexpire]
  rfl

end

/-! ## The list of calls -/

section

variable {ν : Type}

def callRow (c : Call ν) : Row DateTime ν := ⟨decide (c.op = .saveTerminal), c.snapshot⟩

def recordOf (log : List (Call ν)) (key : Key) : Option (TaskSnapshot DateTime ν) :=
  recordAt (log.map callRow) key

def terminalOf (log : List (Call ν)) : List Key := terminals (log.map callRow)

inductive Verdict where
  | write
  | keep
  | reject
  deriving DecidableEq

def Verdict.outcome {σ : Type} (before written : σ) : Verdict → Option σ
  | .write => some written
  | .keep => some before
  | .reject => none

/-- What an adapter does with a call, from the record of the key and whether that is terminal. -/
def verdict [DecidableEq ν] [LuaNumber ν] (existing : Option (TaskSnapshot DateTime ν))
    (terminal : Bool) (c : Call ν) : Verdict :=
  match existing, terminal, c.op with
  | some r, true, .save =>
    if c.snapshot.status ≠ "" ∧ c.snapshot.status ≠ r.status then .reject else .write
  | some r, true, .saveTerminal => if samePayload r c.snapshot then .keep else .reject
  | _, _, _ => .write

def logCall [DecidableEq ν] [LuaNumber ν] (log : List (Call ν)) (c : Call ν) :
    Option (List (Call ν)) :=
  (verdict (recordOf log c.snapshot.key) (decide (c.snapshot.key ∈ terminalOf log)) c).outcome
    log (log ++ [c])

theorem verdict_of_open [DecidableEq ν] [LuaNumber ν] (existing : Option (TaskSnapshot DateTime ν))
    (c : Call ν) : verdict existing false c = .write := by
  unfold verdict
  split <;> simp_all

variable {c : Call ν} {existing : Option (TaskSnapshot DateTime ν)} {terminal : Bool}
  {log : List (Call ν)}

theorem verdict_write [DecidableEq ν] [LuaNumber ν] {r : TaskSnapshot DateTime ν}
    (h : verdict (some r) true c = .write) :
    c.op = .save ∧ (c.snapshot.status = "" ∨ c.snapshot.status = r.status) := by
  unfold verdict at h
  cases hop : c.op with
  | save =>
    refine ⟨rfl, ?_⟩
    simp only [hop] at h
    split at h
    · simp at h
    · rename_i hsame
      by_cases hempty : c.snapshot.status = ""
      · exact Or.inl hempty
      · exact Or.inr (by_contra fun hne => hsame ⟨hempty, hne⟩)
  | saveTerminal =>
    simp only [hop] at h
    split at h <;> simp at h

theorem verdict_keep [DecidableEq ν] [LuaNumber ν] (h : verdict existing terminal c = .keep) :
    (∃ r, existing = some r) ∧ terminal = true := by
  unfold verdict at h
  split at h
  · split at h <;> simp at h
  · exact ⟨⟨_, rfl⟩, rfl⟩
  · simp at h

theorem verdict_save [DecidableEq ν] [LuaNumber ν] (hop : c.op = .save)
    (h : c.snapshot.status = "" ∨ ∃ r, existing = some r ∧ r.status = c.snapshot.status) :
    verdict existing terminal c = .write := by
  unfold verdict
  split
  next r _ _ =>
    refine if_neg fun hchange => ?_
    rcases h with h | ⟨r', hr', hstatus⟩
    · exact hchange.1 h
    · obtain rfl := Option.some.inj hr'
      exact hchange.2 hstatus.symm
  next hterminal => simp [hop] at hterminal
  next => rfl

/-! ## What a row adds -/

theorem foldSnapshotRows_concat {τ : Type} (rows : List (TaskSnapshot τ ν))
    (row : TaskSnapshot τ ν) :
    foldSnapshotRows (rows ++ [row]) =
      some (((foldSnapshotRows rows).map fun r => foldRow r row).getD row) := by
  cases rows with
  | nil => rfl
  | cons first rows => simp [foldSnapshotRows]

theorem recordOf_concat_self (log : List (Call ν)) (c : Call ν) :
    recordOf (log ++ [c]) c.snapshot.key =
      some (((recordOf log c.snapshot.key).map fun r => foldRow r c.snapshot).getD c.snapshot) := by
  simp only [recordOf, recordAt, List.map_append, List.filter_append, List.map_cons, List.map_nil]
  rw [List.filter_cons_of_pos (by simp [callRow])]
  exact foldSnapshotRows_concat _ _

theorem recordOf_concat_of_ne (log : List (Call ν)) (h : c.snapshot.key ≠ key) :
    recordOf (log ++ [c]) key = recordOf log key := by
  simp only [recordOf, recordAt, List.map_append, List.filter_append, List.map_cons, List.map_nil]
  rw [List.filter_cons_of_neg (by simpa [callRow] using h)]
  simp

theorem mem_terminalOf :
    key ∈ terminalOf log ↔ ∃ c ∈ log, c.op = .saveTerminal ∧ c.snapshot.key = key := by
  simp [terminalOf, terminals, callRow, and_assoc]

theorem mem_terminalOf_concat (log : List (Call ν)) (c : Call ν) (key : Key) :
    key ∈ terminalOf (log ++ [c]) ↔
      key ∈ terminalOf log ∨ c.op = .saveTerminal ∧ c.snapshot.key = key := by
  simp [mem_terminalOf, or_and_right, exists_or]

theorem recordOf_of_terminal (h : key ∈ terminalOf log) :
    ∃ r, recordOf log key = some r := by
  induction log using List.reverseRecOn with
  | nil => simp [terminalOf, terminals] at h
  | append_singleton log c ih =>
    by_cases hkey : c.snapshot.key = key
    · subst hkey
      exact ⟨_, recordOf_concat_self log c⟩
    · rw [recordOf_concat_of_ne log hkey]
      rcases (mem_terminalOf_concat log c key).mp h with h | ⟨-, h⟩
      · exact ih h
      · exact absurd h hkey

end

variable {ν : Type} [NumberText ν] [LuaNumber ν]

def callEnvelope (c : Call ν) : Envelope ν :=
  ⟨match c.op with | .save => "save" | .saveTerminal => "save_terminal", c.ts,
    c.snapshot.toPayload⟩

def fileOf (log : List (Call ν)) : List Char := written (log.map callEnvelope)

theorem fileOf_concat (log : List (Call ν)) (c : Call ν) :
    fileOf (log ++ [c]) = appendEnvelope (fileOf log) (callEnvelope c) := by
  simp [fileOf, written]

theorem rows_fileOf (log : List (Call ν)) :
    Local.rows (fileOf log) = (log.map callRow).map (Row.map DateTime.iso) := by
  rw [Local.rows, fileOf, iterEnvelopes_written]
  induction log with
  | nil => rfl
  | cons c log ih =>
    have hrow : readRow (callEnvelope c).data.1 = some (c.snapshot.map DateTime.iso) :=
      readRow_payload c.snapshot
    have hop : isSaveTerminal ((callEnvelope c).row.lookup "op") =
        decide (c.op = .saveTerminal) := by
      obtain ⟨op, snapshot, ts⟩ := c
      cases op <;> rfl
    have hdata : rowData (callEnvelope c).row = some (callEnvelope c).data.1 := rfl
    rw [List.map_cons, List.map_cons, List.filterMap_cons, hdata, Option.bind_some, hrow,
      Option.map_some, ih, hop]
    rfl

theorem record_fileOf (log : List (Call ν)) (key : Key) :
    Local.record (fileOf log) key = (recordOf log key).map (TaskSnapshot.map DateTime.iso) := by
  rw [Local.record, rows_fileOf, recordAt_map]
  rfl

theorem terminal_fileOf (log : List (Call ν)) :
    Local.terminal (ν := ν) (fileOf log) = terminalOf log := by
  rw [Local.terminal, rows_fileOf, terminals_map]
  rfl

theorem call_fileOf [DecidableEq ν] (log : List (Call ν)) (c : Call ν) :
    Local.call (fileOf log) c = (logCall log c).map fileOf := by
  obtain ⟨op, snapshot, ts⟩ := c
  cases op with
  | save =>
    have hrow : (⟨"save", ts, snapshot.toPayload⟩ : Envelope ν) =
        callEnvelope ⟨.save, snapshot, ts⟩ := rfl
    simp only [Local.call, Local.save, logCall, verdict, record_fileOf, terminal_fileOf, hrow,
      ← fileOf_concat]
    cases recordOf log snapshot.key with
    | none => rfl
    | some existing =>
      by_cases hkey : snapshot.key ∈ terminalOf log
      · simp only [Option.map_some, hkey, decide_true, true_and, status_map]
        split <;> rfl
      · simp [hkey, Verdict.outcome]
  | saveTerminal =>
    have hrow : (⟨"save_terminal", ts, snapshot.toPayload⟩ : Envelope ν) =
        callEnvelope ⟨.saveTerminal, snapshot, ts⟩ := rfl
    simp only [Local.call, Local.saveTerminal, logCall, verdict, record_fileOf, terminal_fileOf,
      hrow,
      ← fileOf_concat]
    cases recordOf log snapshot.key with
    | none => rfl
    | some existing =>
      by_cases hkey : snapshot.key ∈ terminalOf log
      · simp only [Option.map_some, hkey, decide_true, samePayload_map DateTime.iso_injective]
        split <;> rfl
      · simp [hkey, Verdict.outcome]

theorem after_fileOf [DecidableEq ν] (calls : List (Call ν)) :
    after Local.call [] calls = fileOf (after logCall [] calls) := by
  have hfrom : ∀ log : List (Call ν),
      after Local.call (fileOf log) calls = fileOf (after logCall log calls) := by
    induction calls with
    | nil => exact fun log => rfl
    | cons c calls ih =>
      intro log
      have hserve : (Local.call (fileOf log) c).getD (fileOf log) =
          fileOf ((logCall log c).getD log) := by
        rw [call_fileOf]
        cases logCall log c <;> rfl
      simp only [after, List.foldl_cons] at ih ⊢
      rw [hserve, ih]
  exact hfrom []

end Orditect.Snapshot.Proofs
