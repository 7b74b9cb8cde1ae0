import Orditect.Snapshot.Proofs.Protection
/-!
# Saving a terminal snapshot again

A repeated `save_terminal` is compared with the record of the key.  The memory adapter has put
the first one in the place of the record, so the repetition finds it again.  The local adapter
has folded it into the record, and what an earlier save gave and the terminal one leaves out
makes the two differ.
-/

namespace Orditect.Snapshot.Proofs

open Support.Instant Support.JsonText Support.LuaJson

variable {ν : Type}

structure Repeats (c again : Call ν) : Prop where
  op : c.op = .saveTerminal
  again_op : again.op = .saveTerminal
  snapshot : again.snapshot = { c.snapshot with
    createdAt := again.snapshot.createdAt, updatedAt := again.snapshot.updatedAt }

def RepeatAccepted {σ : Type} (call : σ → Call ν → Option σ) (start : σ)
    (before : List (Call ν)) (c again : Call ν) : Prop :=
  ∀ s, call (after call start before) c = some s → call s again = some s

/-- The snapshot has every field of the record, and a status if the record has one. -/
structure Covers {τ σ : Type} (existing : TaskSnapshot τ ν) (snapshot : TaskSnapshot σ ν) :
    Prop where
  parentTaskId : snapshot.parentTaskId = none → existing.parentTaskId = none
  status : snapshot.status = "" → existing.status = ""
  inputPointer : snapshot.inputPointer = none → existing.inputPointer = none
  outputPointer : snapshot.outputPointer = none → existing.outputPointer = none
  error : snapshot.error = none → existing.error = none
  cost : snapshot.cost = none → existing.cost = none
  model : snapshot.model = none → existing.model = none
  expireAt : snapshot.expireAt = none → existing.expireAt = none

/-! ## The comparison -/

section

variable [DecidableEq ν] [LuaNumber ν]

theorem or_beq_iff {α : Type} [DecidableEq α] (new old : Option α) :
    (new.or old == new) = true ↔ (new = none → old = none) := by
  cases new with
  | none | some a => simp

theorem sameField_or_iff {α : Type} {dump : α → Json ν} (hdump : ∀ a, distinct (dump a) = true)
    (new old : Option α) :
    sameField ((new.or old).map dump) (new.map dump) = true ↔ (new = none → old = none) := by
  cases new with
  | none => cases old <;> simp [sameField]
  | some a => simpa [sameField] using pyEq_self (dump a) (hdump a)

variable {τ : Type} {again c : Call ν}

omit [DecidableEq ν] [LuaNumber ν] in
theorem status_foldRow_beq_iff (existing row : TaskSnapshot τ ν) :
    ((foldRow existing row).status == row.status) = true ↔
      (row.status = "" → existing.status = "") := by
  by_cases hempty : row.status = ""
  · simp [foldRow, hempty]
  · simp [foldRow, hempty]

theorem samePayload_foldRow_iff [DecidableEq τ] {existing row : TaskSnapshot τ ν}
    (hkey : existing.key = row.key) :
    samePayload (foldRow existing row) row = true ↔ Covers existing row := by
  have hfolded : ((foldRow existing row).key == row.key) = true := by
    rw [key_foldRow, hkey, beq_self_eq_true]
  simp only [samePayload, Bool.and_eq_true, hfolded, true_and, status_foldRow_beq_iff]
  simp only [foldRow, or_beq_iff, sameField_or_iff distinct_dump,
    sameField_or_iff distinct_dumpCost]
  constructor
  · rintro ⟨⟨⟨⟨⟨⟨⟨hparent, hstatus⟩, hin⟩, hout⟩, herror⟩, hcost⟩, hmodel⟩, hexpire⟩
    exact ⟨hparent, hstatus, hin, hout, herror, hcost, hmodel, hexpire⟩
  · intro h
    exact ⟨⟨⟨⟨⟨⟨⟨h.parentTaskId, h.status⟩, h.inputPointer⟩, h.outputPointer⟩, h.error⟩, h.cost⟩,
      h.model⟩, h.expireAt⟩

theorem samePayload_repeats (h : Repeats c again) (r : TaskSnapshot DateTime ν) :
    samePayload r again.snapshot = samePayload r c.snapshot := by
  rw [h.snapshot]
  rfl

theorem samePayload_self [DecidableEq τ] (s : TaskSnapshot τ ν) :
    samePayload s s = true := by
  have hself := (samePayload_foldRow_iff (rfl : s.key = s.key)).mpr
    ⟨id, id, id, id, id, id, id, id⟩
  have hparts : foldRow s s = s := by
    obtain ⟨_, _, _, parent, status, input, output, error, cost, model, _, _, expire⟩ := s
    simp [foldRow]
  rwa [hparts] at hself

omit [DecidableEq ν] [LuaNumber ν] in
theorem Repeats.key (h : Repeats c again) :
    again.snapshot.key = c.snapshot.key := by
  rw [h.snapshot]
  rfl

/-! ## The repetition -/

theorem verdict_saveTerminal {r : TaskSnapshot DateTime ν} (hop : c.op = .saveTerminal) :
    verdict (some r) true c = if samePayload r c.snapshot then .keep else .reject := by
  simp only [verdict, hop]

theorem Decides.call_again {σ : Type} {call : σ → Call ν → Option σ}
    {record : σ → Key → Option (TaskSnapshot DateTime ν)} {terminal : σ → List Key}
    {write : σ → Call ν → σ} (h : Decides call record terminal write) {s s' : σ}
    (hc : Repeats c again) (hcall : call s c = some s') :
    ∃ r, record s' c.snapshot.key = some r ∧
      call s' again = if samePayload r c.snapshot then some s' else none := by
  have hfinal : c.snapshot.key ∈ terminal s' ∧ (record s' c.snapshot.key).isSome = true := by
    rw [h.call_eq] at hcall
    cases hverdict : verdict (record s c.snapshot.key) (decide (c.snapshot.key ∈ terminal s)) c with
    | write =>
      rw [hverdict] at hcall
      obtain rfl := Option.some.inj hcall
      exact ⟨(h.mem_terminal s c _).mpr (Or.inr ⟨hc.op, rfl⟩), h.record_isSome s c⟩
    | keep =>
      rw [hverdict] at hcall
      obtain rfl := Option.some.inj hcall
      obtain ⟨⟨r, hr⟩, hterminal⟩ := verdict_keep hverdict
      exact ⟨by simpa using hterminal, by rw [hr]; rfl⟩
    | reject => simp [hverdict, Verdict.outcome] at hcall
  obtain ⟨r, hr⟩ := Option.isSome_iff_exists.mp hfinal.2
  refine ⟨r, hr, ?_⟩
  rw [h.call_eq, hc.key, hr, decide_eq_true hfinal.1, verdict_saveTerminal hc.again_op,
    samePayload_repeats hc]
  split <;> rfl

theorem memory_repeatAccepted (before : List (Call ν)) (hc : Repeats c again) :
    RepeatAccepted Memory.call Memory.empty before c again := by
  intro m' hcall
  obtain ⟨r, hr, hagain⟩ := memory_decides.call_again hc hcall
  generalize after Memory.call Memory.empty before = m at hcall
  have hsame : samePayload r c.snapshot = true := by
    rw [memory_call_eq] at hcall
    cases hverdict : verdict (m.find c.snapshot.key) (decide (c.snapshot.key ∈ m.terminal)) c with
    | write =>
      rw [hverdict] at hcall
      obtain rfl := Option.some.inj hcall
      rw [find_memoryWrite_self, hc.op] at hr
      obtain rfl := Option.some.inj hr
      exact samePayload_self c.snapshot
    | keep =>
      rw [hverdict] at hcall
      obtain rfl := Option.some.inj hcall
      obtain ⟨-, hterminal⟩ := verdict_keep hverdict
      rw [hr, hterminal, verdict_saveTerminal hc.op] at hverdict
      by_contra hdiffers
      simp [hdiffers] at hverdict
    | reject => simp [hverdict, Verdict.outcome] at hcall
  rw [hagain, if_pos hsame]

def LeavesNothingOut (log : List (Call ν)) (c : Call ν) : Prop :=
  c.snapshot.key ∈ terminalOf log ∨
    ∀ existing, recordOf log c.snapshot.key = some existing → Covers existing c.snapshot

theorem log_repeat_iff {log log' : List (Call ν)} (hop : c.op = .saveTerminal)
    (hcall : logCall log c = some log') {r : TaskSnapshot DateTime ν}
    (hr : recordOf log' c.snapshot.key = some r) :
    samePayload r c.snapshot = true ↔ LeavesNothingOut log c := by
  by_cases hterminal : c.snapshot.key ∈ terminalOf log
  · refine iff_of_true ?_ (Or.inl hterminal)
    obtain ⟨existing, hexisting⟩ := recordOf_of_terminal hterminal
    rw [logCall, hexisting, decide_eq_true hterminal, verdict_saveTerminal hop] at hcall
    split at hcall
    · rename_i hsame
      obtain rfl := Option.some.inj hcall
      obtain rfl := Option.some.inj (hr.symm.trans hexisting)
      exact hsame
    · cases hcall
  · rw [logCall, decide_eq_false hterminal, verdict_of_open] at hcall
    obtain rfl := Option.some.inj hcall
    rw [recordOf_concat_self] at hr
    obtain rfl := Option.some.inj hr
    rw [LeavesNothingOut, or_iff_right hterminal]
    cases hexisting : recordOf log c.snapshot.key with
    | none => simpa using samePayload_self c.snapshot
    | some existing =>
      rw [Option.map_some, Option.getD_some,
        samePayload_foldRow_iff (key_of_recordAt hexisting)]
      exact ⟨fun h _ heq => Option.some.inj heq ▸ h, fun h => h existing rfl⟩

variable [NumberText ν]

theorem local_repeatAccepted_iff {before : List (Call ν)} (hc : Repeats c again) :
    RepeatAccepted Local.call [] before c again ↔
      LeavesNothingOut (after logCall [] before) c := by
  rw [RepeatAccepted, after_fileOf]
  generalize after logCall [] before = log
  rw [call_fileOf]
  cases hcall : logCall log c with
  | none =>
    refine iff_of_true (by simp) (Or.inl ?_)
    by_contra hopen
    rw [logCall, decide_eq_false hopen, verdict_of_open] at hcall
    cases hcall
  | some log' =>
    obtain ⟨r, hr, hagain⟩ := log_decides.call_again hc hcall
    rw [← log_repeat_iff hc.op hcall hr]
    simp only [Option.map_some, Option.some.injEq, forall_eq', call_fileOf, hagain]
    by_cases hsame : samePayload r c.snapshot = true <;> simp [hsame]

/-- The key of the snapshot is terminal, or the snapshot covers the record of it. -/
def CoversRecord (file : List Char) (snapshot : TaskSnapshot DateTime ν) : Prop :=
  snapshot.key ∈ Local.terminal (ν := ν) file ∨
    ∀ existing : TaskSnapshot String ν, Local.record file snapshot.key = some existing →
      Covers existing snapshot

omit [DecidableEq ν] in
theorem covered_fileOf_iff {log : List (Call ν)} :
    CoversRecord (fileOf log) c.snapshot ↔ LeavesNothingOut log c := by
  rw [CoversRecord, LeavesNothingOut, terminal_fileOf, record_fileOf]
  refine or_congr_right ?_
  cases recordOf log c.snapshot.key with
  | none => simp
  | some existing =>
    simp only [Option.map_some, Option.some.injEq, forall_eq']
    constructor
    · rintro ⟨hparent, hstatus, hin, hout, herror, hcost, hmodel, hexpire⟩
      exact ⟨hparent, hstatus, hin, hout, herror, hcost, hmodel,
        fun h => Option.map_eq_none_iff.mp (hexpire h)⟩
    · rintro ⟨hparent, hstatus, hin, hout, herror, hcost, hmodel, hexpire⟩
      exact ⟨hparent, hstatus, hin, hout, herror, hcost, hmodel,
        fun h => Option.map_eq_none_iff.mpr (hexpire h)⟩

/-- Both adapters accept the repetition of a terminal save, and it changes nothing, exactly if
the first one left out nothing that the record in the file had, or found it terminal. -/
theorem repeat_accepted_iff {before : List (Call ν)} {c again : Call ν} (hc : Repeats c again) :
    RepeatAccepted Memory.call Memory.empty before c again ∧
        RepeatAccepted Local.call [] before c again ↔
      CoversRecord (after Local.call [] before) c.snapshot := by
  rw [and_iff_right (memory_repeatAccepted before hc), local_repeatAccepted_iff hc, after_fileOf,
    covered_fileOf_iff]

end

def runningWith (model : Option String) : Call Int where
  op := .save
  snapshot := { taskId := "t", step := "s", executionId := "e", status := "running", model,
                createdAt := DateTime.newYear 1, updatedAt := DateTime.newYear 1 }
  ts := DateTime.newYear 1

def concluded (year : Nat) : Call Int where
  op := .saveTerminal
  snapshot := { taskId := "t", step := "s", executionId := "e", status := "succeeded",
                createdAt := DateTime.newYear 1, updatedAt := DateTime.newYear year }
  ts := DateTime.newYear year

theorem repeats_concluded : Repeats (concluded 2) (concluded 3) := ⟨rfl, rfl, rfl⟩

theorem repeat_accepted_running :
    RepeatAccepted Memory.call Memory.empty [runningWith none] (concluded 2) (concluded 3) ∧
      RepeatAccepted Local.call [] [runningWith none] (concluded 2) (concluded 3) := by
  refine (repeat_accepted_iff repeats_concluded).mpr ?_
  rw [after_fileOf, covered_fileOf_iff]
  refine Or.inr fun existing hexisting => ?_
  obtain rfl : (runningWith none).snapshot = existing := Option.some.inj hexisting
  exact ⟨fun _ => rfl, fun h => absurd h (by decide), fun _ => rfl, fun _ => rfl, fun _ => rfl,
    fun _ => rfl, fun _ => rfl, fun _ => rfl⟩

/-- The model of the earlier save is in the record, and the repetition does not have it. -/
theorem repeat_rejected_model :
    ¬RepeatAccepted Local.call [] [runningWith (some "m")] (concluded 2) (concluded 3) := by
  rw [local_repeatAccepted_iff repeats_concluded]
  rintro (hterminal | hcovers)
  · revert hterminal
    decide
  · have hmodel := (hcovers _ rfl).model rfl
    cases hmodel

end Orditect.Snapshot.Proofs
