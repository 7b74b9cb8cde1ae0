import Orditect.Snapshot.Proofs.Local
/-!
# A terminal record keeps its status

Both adapters refuse a change of the status of a key once it was saved as terminal, and
refuse nothing else in a save.
-/

namespace Orditect.Snapshot.Proofs

open Support.Instant Support.JsonText Support.LuaJson

variable {ν : Type}

theorem after_concat {σ : Type} (call : σ → Call ν → Option σ) (s : σ) (calls : List (Call ν))
    (c : Call ν) :
    after call s (calls ++ [c]) = (call (after call s calls) c).getD (after call s calls) := by
  simp [after]

theorem after_cons {σ : Type} (call : σ → Call ν → Option σ) (s : σ) (c : Call ν)
    (calls : List (Call ν)) :
    after call s (c :: calls) = after call ((call s c).getD s) calls := rfl

theorem after_append {σ : Type} (call : σ → Call ν → Option σ) (s : σ)
    (calls later : List (Call ν)) :
    after call s (calls ++ later) = after call (after call s calls) later :=
  List.foldl_append

/-! ## What is asked of an adapter -/

section

variable {σ τ : Type}

def Final (record : σ → Key → Option (TaskSnapshot τ ν)) (terminal : σ → List Key) (key : Key)
    (status : String) (s : σ) : Prop :=
  key ∈ terminal s ∧ ∃ r, record s key = some r ∧ r.status = status

/-- Once a terminal save has been accepted the status of the record stays; a call that raises
leaves every record and the terminal keys; a save without a status or with that of the record
is accepted. -/
structure TerminalProtected (call : σ → Call ν → Option σ)
    (record : σ → Key → Option (TaskSnapshot τ ν)) (terminal : σ → List Key) (start : σ) :
    Prop where
  status_stays : ∀ before c later, c.op = .saveTerminal →
    (call (after call start before) c).isSome = true →
    ∃ status, Final record terminal c.snapshot.key status (after call start (before ++ [c])) ∧
      Final record terminal c.snapshot.key status (after call start (before ++ c :: later))
  rejected_unchanged : ∀ calls c, call (after call start calls) c = none →
    record (after call start (calls ++ [c])) = record (after call start calls) ∧
      terminal (after call start (calls ++ [c])) = terminal (after call start calls)
  save_accepted : ∀ calls c, c.op = .save →
    (c.snapshot.status = "" ∨ ∃ r, record (after call start calls) c.snapshot.key = some r ∧
      r.status = c.snapshot.status) → (call (after call start calls) c).isSome = true

theorem terminalProtected_of_step {call : σ → Call ν → Option σ}
    {record : σ → Key → Option (TaskSnapshot τ ν)} {terminal : σ → List Key} (start : σ)
    (hfinal : ∀ s c s', call s c = some s' → c.op = .saveTerminal →
      ∃ status, Final record terminal c.snapshot.key status s')
    (hstays : ∀ s c s' key status, call s c = some s' →
      Final record terminal key status s → Final record terminal key status s')
    (hsave : ∀ s c, c.op = .save → (c.snapshot.status = "" ∨
      ∃ r, record s c.snapshot.key = some r ∧ r.status = c.snapshot.status) →
      (call s c).isSome = true) :
    TerminalProtected call record terminal start := by
  have hrun : ∀ calls s key status, Final record terminal key status s →
      Final record terminal key status (after call s calls) := by
    intro calls
    induction calls with
    | nil => exact fun s key status h => h
    | cons c calls ih =>
      intro s key status h
      rw [after_cons]
      cases hc : call s c with
      | none => exact ih s key status h
      | some s' => exact ih s' key status (hstays s c s' key status hc h)
  refine ⟨?_, ?_, ?_⟩
  · intro before c later hop haccepted
    obtain ⟨s', hs'⟩ := Option.isSome_iff_exists.mp haccepted
    obtain ⟨status, hstatus⟩ := hfinal _ c s' hs' hop
    have hnow : after call start (before ++ [c]) = s' := by rw [after_concat, hs']; rfl
    refine ⟨status, hnow ▸ hstatus, ?_⟩
    rw [show before ++ c :: later = before ++ [c] ++ later by simp, after_append, hnow]
    exact hrun later s' _ status hstatus
  · intro calls c hnone
    rw [after_concat, hnone]
    exact ⟨rfl, rfl⟩
  · exact fun calls c hop hstatus => hsave _ c hop hstatus

end

theorem status_foldRow {τ : Type} {r row : TaskSnapshot τ ν}
    (h : row.status = "" ∨ row.status = r.status) : (foldRow r row).status = r.status := by
  simp only [foldRow]
  split
  · rfl
  · rename_i hne
    exact h.resolve_left hne

/-! ## The memory adapter -/

section

variable [DecidableEq ν] [LuaNumber ν]

/-- What the memory adapter makes of a call that it accepts: `save` completes the record,
`save_terminal` puts its snapshot in the place of the record. -/
def memoryWrite (m : Memory DateTime ν) (c : Call ν) : Memory DateTime ν :=
  match c.op with
  | .save => m.put (((m.find c.snapshot.key).map fun r => foldRow r c.snapshot).getD c.snapshot)
  | .saveTerminal => { m.put c.snapshot with terminal := c.snapshot.key :: m.terminal }

theorem memory_call_eq (m : Memory DateTime ν) (c : Call ν) :
    m.call c =
      (verdict (m.find c.snapshot.key) (decide (c.snapshot.key ∈ m.terminal)) c).outcome
        m (memoryWrite m c) := by
  obtain ⟨op, snapshot, ts⟩ := c
  cases op with
  | save =>
    simp only [Memory.call, Memory.save, verdict, memoryWrite]
    cases m.find snapshot.key with
    | none => rfl
    | some existing =>
      by_cases hkey : snapshot.key ∈ m.terminal
      · simp only [hkey, decide_true, true_and]
        split <;> rfl
      · simp [hkey, Verdict.outcome]
  | saveTerminal =>
    simp only [Memory.call, Memory.saveTerminal, verdict, memoryWrite, Memory.terminal_put]
    cases m.find snapshot.key with
    | none => rfl
    | some existing =>
      by_cases hkey : snapshot.key ∈ m.terminal
      · simp only [hkey, decide_true]
        split <;> rfl
      · simp [hkey, Verdict.outcome]

omit [DecidableEq ν] [LuaNumber ν] in
theorem find_memoryWrite_of_ne (m : Memory DateTime ν) {c : Call ν} {key : Key}
    (h : c.snapshot.key ≠ key) : (memoryWrite m c).find key = m.find key := by
  unfold memoryWrite
  split
  · apply m.find_put_of_ne
    cases hfind : m.find c.snapshot.key with
    | none => exact h
    | some r => exact fun hkey => h ((Memory.key_of_find hfind).symm.trans hkey)
  · exact m.find_put_of_ne h

omit [DecidableEq ν] [LuaNumber ν] in
theorem find_memoryWrite_self (m : Memory DateTime ν) (c : Call ν) :
    (memoryWrite m c).find c.snapshot.key =
      match c.op with
      | .save => some (((m.find c.snapshot.key).map fun r => foldRow r c.snapshot).getD c.snapshot)
      | .saveTerminal => some c.snapshot := by
  unfold memoryWrite
  cases hop : c.op with
  | save =>
    simp only
    cases hfind : m.find c.snapshot.key with
    | none => exact m.find_put_self c.snapshot
    | some r =>
      have hkey : (foldRow r c.snapshot).key = c.snapshot.key :=
        (key_foldRow r c.snapshot).trans (Memory.key_of_find hfind)
      simp only [Option.map_some, Option.getD_some]
      rw [← hkey]
      exact m.find_put_self _
  | saveTerminal => exact m.find_put_self c.snapshot

omit [DecidableEq ν] [LuaNumber ν] in
theorem mem_terminal_memoryWrite (m : Memory DateTime ν) (c : Call ν) (key : Key) :
    key ∈ (memoryWrite m c).terminal ↔
      key ∈ m.terminal ∨ c.op = .saveTerminal ∧ c.snapshot.key = key := by
  unfold memoryWrite
  cases c.op with
  | save => simp [Memory.terminal_put]
  | saveTerminal => simp [eq_comm, or_comm]

end

/-! ## An adapter that goes by the verdict -/

section

variable {σ : Type} [DecidableEq ν] [LuaNumber ν]

structure Decides (call : σ → Call ν → Option σ)
    (record : σ → Key → Option (TaskSnapshot DateTime ν)) (terminal : σ → List Key)
    (write : σ → Call ν → σ) : Prop where
  call_eq : ∀ s c, call s c =
    (verdict (record s c.snapshot.key) (decide (c.snapshot.key ∈ terminal s)) c).outcome
      s (write s c)
  record_of_ne : ∀ s c key, c.snapshot.key ≠ key → record (write s c) key = record s key
  record_save : ∀ s c, c.op = .save → record (write s c) c.snapshot.key =
    some (((record s c.snapshot.key).map fun r => foldRow r c.snapshot).getD c.snapshot)
  record_isSome : ∀ s c, (record (write s c) c.snapshot.key).isSome = true
  mem_terminal : ∀ s c key, key ∈ terminal (write s c) ↔
    key ∈ terminal s ∨ c.op = .saveTerminal ∧ c.snapshot.key = key

theorem Decides.terminalProtected {call : σ → Call ν → Option σ}
    {record : σ → Key → Option (TaskSnapshot DateTime ν)} {terminal : σ → List Key}
    {write : σ → Call ν → σ} (h : Decides call record terminal write) (start : σ) :
    TerminalProtected call record terminal start := by
  refine terminalProtected_of_step start ?_ ?_ ?_
  · intro s c s' hcall hop
    rw [h.call_eq] at hcall
    cases hverdict : verdict (record s c.snapshot.key) (decide (c.snapshot.key ∈ terminal s)) c with
    | write =>
      rw [hverdict] at hcall
      obtain rfl := Option.some.inj hcall
      obtain ⟨r, hr⟩ := Option.isSome_iff_exists.mp (h.record_isSome s c)
      exact ⟨r.status, (h.mem_terminal s c _).mpr (Or.inr ⟨hop, rfl⟩), r, hr, rfl⟩
    | keep =>
      rw [hverdict] at hcall
      obtain rfl := Option.some.inj hcall
      obtain ⟨⟨r, hr⟩, hterminal⟩ := verdict_keep hverdict
      exact ⟨r.status, by simpa using hterminal, r, hr, rfl⟩
    | reject => simp [hverdict, Verdict.outcome] at hcall
  · rintro s c s' key status hcall ⟨hterminal, r, hr, rfl⟩
    rw [h.call_eq] at hcall
    cases hverdict : verdict (record s c.snapshot.key) (decide (c.snapshot.key ∈ terminal s)) c with
    | write =>
      rw [hverdict] at hcall
      obtain rfl := Option.some.inj hcall
      refine ⟨(h.mem_terminal s c key).mpr (Or.inl hterminal), ?_⟩
      by_cases hkey : c.snapshot.key = key
      · subst hkey
        rw [hr, decide_eq_true hterminal] at hverdict
        obtain ⟨hop, hstatus⟩ := verdict_write hverdict
        refine ⟨_, h.record_save s c hop, ?_⟩
        rw [hr]
        exact status_foldRow hstatus
      · exact ⟨r, by rw [h.record_of_ne s c key hkey, hr], rfl⟩
    | keep =>
      rw [hverdict] at hcall
      obtain rfl := Option.some.inj hcall
      exact ⟨hterminal, r, hr, rfl⟩
    | reject => simp [hverdict, Verdict.outcome] at hcall
  · intro s c hop hstatus
    rw [h.call_eq, verdict_save hop hstatus]
    rfl

theorem memory_decides :
    Decides (Memory.call (ν := ν)) Memory.find Memory.terminal memoryWrite where
  call_eq := memory_call_eq
  record_of_ne m c key := find_memoryWrite_of_ne m
  record_save m c hop := by rw [find_memoryWrite_self, hop]
  record_isSome m c := by
    rw [find_memoryWrite_self]
    split <;> rfl
  mem_terminal := mem_terminal_memoryWrite

theorem log_decides :
    Decides (logCall (ν := ν)) recordOf terminalOf fun log c => log ++ [c] where
  call_eq log c := rfl
  record_of_ne log c key := recordOf_concat_of_ne log
  record_save log c _ := recordOf_concat_self log c
  record_isSome log c := by rw [recordOf_concat_self]; rfl
  mem_terminal := mem_terminalOf_concat

/-! ## The local adapter -/

variable [NumberText ν]

omit [DecidableEq ν] in
theorem final_fileOf {log : List (Call ν)} {key : Key} {status : String}
    (h : Final recordOf terminalOf key status log) :
    Final (Local.record (ν := ν)) (Local.terminal (ν := ν)) key status (fileOf log) := by
  obtain ⟨hterminal, r, hr, rfl⟩ := h
  refine ⟨by rwa [terminal_fileOf], r.map DateTime.iso, ?_, rfl⟩
  rw [record_fileOf, hr]
  rfl

theorem local_protected :
    TerminalProtected (Local.call (ν := ν)) (Local.record (ν := ν))
      (Local.terminal (ν := ν)) [] := by
  have hlog := (log_decides (ν := ν)).terminalProtected []
  refine ⟨?_, ?_, ?_⟩
  · intro before c later hop haccepted
    rw [after_fileOf, call_fileOf, Option.isSome_map] at haccepted
    obtain ⟨status, hnow, hlater⟩ := hlog.status_stays before c later hop haccepted
    refine ⟨status, ?_, ?_⟩
    · rw [after_fileOf]
      exact final_fileOf hnow
    · rw [after_fileOf]
      exact final_fileOf hlater
  · intro calls c hnone
    rw [after_concat, hnone]
    exact ⟨rfl, rfl⟩
  · intro calls c hop hstatus
    rw [after_fileOf] at hstatus ⊢
    rw [call_fileOf, Option.isSome_map]
    refine hlog.save_accepted calls c hop (hstatus.imp_right ?_)
    rintro ⟨r, hr, heq⟩
    rw [record_fileOf] at hr
    obtain ⟨r', hr', rfl⟩ := Option.map_eq_some_iff.mp hr
    exact ⟨r', hr', heq⟩

/-- In both adapters a terminal record keeps its status, a call that raises changes nothing,
and a save that does not change the status is accepted. -/
theorem terminal_status_protected :
    TerminalProtected (Memory.call (ν := ν)) Memory.find Memory.terminal Memory.empty ∧
      TerminalProtected (Local.call (ν := ν)) (Local.record (ν := ν))
        (Local.terminal (ν := ν)) [] :=
  ⟨memory_decides.terminalProtected Memory.empty, local_protected⟩

end

end Orditect.Snapshot.Proofs
