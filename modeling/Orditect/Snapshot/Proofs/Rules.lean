import Orditect.Snapshot.Proofs.Protection
import Orditect.Snapshot.Rules
/-!
# What the local adapter writes satisfies the rules

Both rules remember for a key the status of its terminal save.  As long as the rows are those of
accepted calls that is the status of the record in the folded file, which the guard of `save`
compares with, so no row departs from it.
-/

namespace Orditect.Snapshot.Proofs

open Support.Instant Support.JsonText Support.LuaJson Snapshot.Rules Trace Trace.Proofs

variable {ν : Type}

/-! ## Rows of the adapter -/

def rowKey (key : Key) : RowKey ν := ⟨.str key.taskId, .str key.step, .str key.executionId⟩

theorem rowKey_same_iff [DecidableEq ν] [LuaNumber ν] {a b : Key} :
    (rowKey a : RowKey ν).same (rowKey b) = true ↔ a = b := by
  obtain ⟨taskId, step, executionId⟩ := a
  obtain ⟨taskId', step', executionId'⟩ := b
  simp [rowKey, RowKey.same, Json.pyEq, and_assoc]

section

variable [LuaNumber ν]

theorem keyAndStatus_row (c : Call ν) :
    keyAndStatus (callEnvelope c).row = some (rowKey c.snapshot.key, .str c.snapshot.status) := by
  have hlookup : ∀ k, c.snapshot.payload.lookup k = (c.snapshot.payloadFields.lookup k).join :=
    lookup_compact (nodup_payloadFields c.snapshot)
  have hdata : (callEnvelope c).row.lookup "data" = some (.obj c.snapshot.payload) := rfl
  simp [keyAndStatus, hdata, hlookup, TaskSnapshot.payloadFields, List.lookup_cons, hashable,
    rowKey, TaskSnapshot.key]

theorem isOp_row (c : Call ν) :
    isOp ["save", "save_terminal"] ((callEnvelope c).row.lookup "op") = true := by
  obtain ⟨op, snapshot, ts⟩ := c
  cases op <;> rfl

theorem isOp_terminal_row (c : Call ν) :
    isOp ["save_terminal"] ((callEnvelope c).row.lookup "op") = decide (c.op = .saveTerminal) := by
  obtain ⟨op, snapshot, ts⟩ := c
  cases op <;> rfl

def linesOf (log : List (Call ν)) : List (Json ν) := log.map fun c => .obj (callEnvelope c).row

theorem iterDomainRows_concat (log : List (Call ν)) (c : Call ν) :
    iterDomainRows (linesOf (log ++ [c])) .snapshot =
      iterDomainRows (linesOf log) .snapshot ++ [(log.length, (callEnvelope c).row)] := by
  have hmeta : (callEnvelope c).row.lookup "meta" = none := rfl
  simp [iterDomainRows, linesOf, List.zipIdx_append, hmeta, Domain.contains, isOp_row]

end

/-! ## The baseline and the record -/

section

variable [DecidableEq ν] [LuaNumber ν]

def terminalAfter (log : List (Call ν)) : Baseline ν :=
  log.foldl (fun baseline c =>
    if c.op = .saveTerminal then baseline.note (rowKey c.snapshot.key) (.str c.snapshot.status)
    else baseline) []

def Remembers (baseline : Baseline ν) (log : List (Call ν)) : Prop :=
  ∀ key recorded, baseline.get (rowKey key) = some recorded →
    key ∈ terminalOf log ∧ ∃ r, recordOf log key = some r ∧ recorded = .str r.status

theorem get_note (baseline : Baseline ν) (key other : Key) (status : String) :
    (baseline.note (rowKey key) (.str status)).get (rowKey other) =
      if status ≠ "" ∧ key = other then some (.str status) else baseline.get (rowKey other) := by
  by_cases hempty : status = ""
  · simp [Baseline.note, Json.truthy, hempty]
  · by_cases hkey : key = other
    · subst hkey
      have hsame : (rowKey key : RowKey ν).same (rowKey key) = true := rowKey_same_iff.mpr rfl
      simp [Baseline.note, Baseline.get, Json.truthy, hempty, hsame]
    · have hsame : (rowKey key : RowKey ν).same (rowKey other) = false := by
        rw [Bool.eq_false_iff, ne_eq, rowKey_same_iff]
        exact hkey
      simp [Baseline.note, Baseline.get, Json.truthy, hempty, hsame, hkey]

def Writes (log : List (Call ν)) (c : Call ν) : Prop :=
  verdict (recordOf log c.snapshot.key) (decide (c.snapshot.key ∈ terminalOf log)) c = .write

theorem log_induction {P : List (Call ν) → Prop} (hstart : P [])
    (hwrite : ∀ log c, P log → Writes log c → P (log ++ [c])) (calls : List (Call ν)) :
    P (after logCall [] calls) := by
  induction calls using List.reverseRecOn with
  | nil => exact hstart
  | append_singleton calls c ih =>
    rw [after_concat]
    generalize after logCall [] calls = log at ih ⊢
    unfold logCall
    cases hverdict : verdict (recordOf log c.snapshot.key)
        (decide (c.snapshot.key ∈ terminalOf log)) c with
    | write => exact hwrite log c ih hverdict
    | keep | reject => exact ih

variable {log : List (Call ν)} {c : Call ν}

theorem Writes.of_terminal (h : Writes log c) {r : TaskSnapshot DateTime ν}
    (hterminal : c.snapshot.key ∈ terminalOf log) (hr : recordOf log c.snapshot.key = some r) :
    c.op = .save ∧ (c.snapshot.status = "" ∨ c.snapshot.status = r.status) := by
  rw [Writes, hr, decide_eq_true hterminal] at h
  exact verdict_write h

theorem Remembers.concat {baseline : Baseline ν} (h : Remembers baseline log)
    (hwrite : Writes log c) :
    Remembers (if c.op = .saveTerminal
      then baseline.note (rowKey c.snapshot.key) (.str c.snapshot.status) else baseline)
      (log ++ [c]) := by
  have hold : Remembers baseline (log ++ [c]) := by
    intro key recorded hget
    obtain ⟨hterminal, r, hr, rfl⟩ := h key recorded hget
    refine ⟨(mem_terminalOf_concat log c key).mpr (Or.inl hterminal), ?_⟩
    by_cases hkey : c.snapshot.key = key
    · subst hkey
      refine ⟨_, recordOf_concat_self log c, ?_⟩
      rw [hr, Option.map_some, Option.getD_some,
        status_foldRow (hwrite.of_terminal hterminal hr).2]
    · exact ⟨r, by rw [recordOf_concat_of_ne log hkey, hr], rfl⟩
  split
  · rename_i hop
    intro key recorded hget
    rw [get_note] at hget
    split at hget
    · rename_i hnew
      obtain ⟨hstatus, rfl⟩ := hnew
      obtain rfl := Option.some.inj hget
      refine ⟨(mem_terminalOf_concat log c _).mpr (Or.inr ⟨hop, rfl⟩), _,
        recordOf_concat_self log c, ?_⟩
      cases recordOf log c.snapshot.key with
      | none => rfl
      | some r => simp [foldRow, hstatus]
    · exact hold key recorded hget
  · exact hold

theorem Remembers.drift_eq_nil {baseline : Baseline ν} (h : Remembers baseline log)
    (hwrite : Writes log c) (finding : Json ν → Finding) :
    baseline.drift (rowKey c.snapshot.key) (.str c.snapshot.status) finding = [] := by
  unfold Baseline.drift
  split
  · rename_i recorded hget
    obtain ⟨hterminal, r, hr, rfl⟩ := h _ recorded hget
    rcases (hwrite.of_terminal hterminal hr).2 with hempty | hsame
    · simp [Json.truthy, hempty]
    · simp [Json.pyEq, hsame]
  · rfl

theorem terminalAfter_concat (log : List (Call ν)) (c : Call ν) :
    terminalAfter (log ++ [c]) =
      if c.op = .saveTerminal
      then (terminalAfter log).note (rowKey c.snapshot.key) (.str c.snapshot.status)
      else terminalAfter log := by
  simp [terminalAfter]

/-! ## The scans -/

variable (repr : Json ν → String)

theorem drSnp001Row_row (h : Remembers (terminalAfter log) log) (hwrite : Writes log c) :
    drSnp001Row repr ⟨[], terminalAfter log, []⟩ (log.length, (callEnvelope c).row) =
      some ⟨[], terminalAfter (log ++ [c]), []⟩ := by
  simp only [drSnp001Row, keyAndStatus_row, isOp_row, isOp_terminal_row, if_true, Option.map_some,
    h.drift_eq_nil hwrite, terminalAfter_concat, decide_eq_true_eq, List.append_nil]

theorem drSnp002Row_row (h : Remembers (terminalAfter log) log) (hwrite : Writes log c) :
    drSnp002Row repr ⟨[], terminalAfter log, []⟩ (log.length, (callEnvelope c).row) =
      some ⟨[], terminalAfter (log ++ [c]), []⟩ := by
  simp only [drSnp002Row, keyAndStatus_row, isOp_row, isOp_terminal_row, if_true, Option.map_some,
    h.drift_eq_nil hwrite, terminalAfter_concat, decide_eq_true_eq, List.append_nil]

theorem scan_log {row : Scan ν → Nat × List (String × Json ν) → Option (Scan ν)}
    (hrow : ∀ log c, Remembers (terminalAfter log) log → Writes log c →
      row ⟨[], terminalAfter log, []⟩ (log.length, (callEnvelope c).row) =
        some ⟨[], terminalAfter (log ++ [c]), []⟩) (calls : List (Call ν)) :
    let log := after logCall [] calls
    (iterDomainRows (linesOf log) .snapshot).foldlM row ⟨[], [], []⟩ =
      some ⟨[], terminalAfter log, []⟩ := by
  refine (log_induction (P := fun log => Remembers (terminalAfter log) log ∧
    (iterDomainRows (linesOf log) .snapshot).foldlM row ⟨[], [], []⟩ =
      some ⟨[], terminalAfter log, []⟩) ?_ ?_ calls).2
  · exact ⟨fun key recorded hget => by simp [terminalAfter, Baseline.get] at hget, rfl⟩
  · intro log c ⟨hremembers, hscan⟩ hwrite
    refine ⟨?_, ?_⟩
    · rw [terminalAfter_concat]
      exact hremembers.concat hwrite
    · rw [iterDomainRows_concat, List.foldlM_append, hscan]
      simp [hrow log c hremembers hwrite]

variable [NumberText ν]

/-- No finding of either rule in the file of any sequence of calls. -/
theorem local_stream_clean (calls : List (Call ν)) :
    let lines := (iterEnvelopes (after Local.call [] calls)).map Json.obj
    drSnp001 repr lines = some [] ∧ drSnp002 repr lines = some [] := by
  have hlines : ∀ log : List (Call ν), (iterEnvelopes (fileOf log)).map Json.obj = linesOf log := by
    intro log
    rw [fileOf, iterEnvelopes_written]
    simp [linesOf]
  rw [after_fileOf, hlines]
  refine ⟨?_, ?_⟩
  · rw [drSnp001, scan_log fun log c => drSnp001Row_row repr]
    rfl
  · rw [drSnp002, scan_log fun log c => drSnp002Row_row repr]
    simp

end

end Orditect.Snapshot.Proofs
