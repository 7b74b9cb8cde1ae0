import Orditect.Snapshot.Proofs.Protection
import Orditect.Support.PlainSet
/-!
# The two adapters side by side

They decide alike and hold the same records as long as no key that was first saved is saved
as terminal later: there `save_terminal` of the memory adapter puts its snapshot in the place
of the record, while the local adapter folds it into the record.
-/

namespace Orditect.Snapshot.Proofs

open Support.Instant Support.JsonText Support.LuaJson

variable {ν : Type}

/-! ## What is read at a key -/

variable {key : Key}

section

variable {τ : Type}

theorem newest_toList [LinearOrder τ] (row : Option (TaskSnapshot τ ν)) :
    newest row.toList = row := by
  cases row <;> rfl

theorem filter_toList {α : Type} (p : α → Bool) (o : Option α) :
    o.toList.filter p = (o.filter p).toList := by
  cases o with
  | none => rfl
  | some a => by_cases h : p a = true <;> simp [h, Option.filter]

theorem filter_key {rows : List (TaskSnapshot τ ν)} (h : (rows.map TaskSnapshot.key).Nodup)
    (key : Key) :
    rows.filter (fun s => s.key == key) = (rows.find? fun s => s.key == key).toList := by
  induction rows with
  | nil => rfl
  | cons row rows ih =>
    obtain ⟨hnew, hnodup⟩ := List.nodup_cons.mp h
    by_cases hrow : row.key = key
    · have hrest : rows.filter (fun s => s.key == key) = [] := by
        rw [List.filter_eq_nil_iff]
        intro s hs heq
        refine hnew (List.mem_map.mpr ⟨s, hs, ?_⟩)
        rw [hrow]
        simpa using heq
      simp [hrow, hrest]
    · simpa [hrow] using ih hnodup

theorem nodup_put {m : Memory τ ν} (h : (m.snaps.map TaskSnapshot.key).Nodup)
    (snapshot : TaskSnapshot τ ν) : ((m.put snapshot).snaps.map TaskSnapshot.key).Nodup := by
  unfold Memory.put
  split
  · have hkeys : (m.snaps.map fun s => if s.key == snapshot.key then snapshot else s).map
        TaskSnapshot.key = m.snaps.map TaskSnapshot.key := by
      rw [List.map_map]
      apply List.map_congr_left
      intro s _
      by_cases hs : s.key = snapshot.key <;> simp [hs]
    simpa only [hkeys] using h
  · rename_i hnone
    have hnew : ∀ s ∈ m.snaps, s.key ≠ snapshot.key := by
      simpa [Memory.find] using hnone
    rw [List.map_append, List.map_cons, List.map_nil]
    refine h.append (List.nodup_singleton _) (List.disjoint_singleton.mpr fun hmem => ?_)
    obtain ⟨s, hs, hkey⟩ := List.mem_map.mp hmem
    exact hnew s hs hkey

theorem filter_at_key (rows : List (TaskSnapshot τ ν)) (alive : TaskSnapshot τ ν → Bool)
    (key : Key) :
    (rows.filter fun s => s.taskId == key.taskId && s.step == key.step &&
        s.executionId == key.executionId && alive s) =
      (rows.filter fun s => s.key == key).filter alive := by
  rw [List.filter_filter]
  congr 1
  funext s
  have hkey : (s.key == key) =
      (s.taskId == key.taskId && s.step == key.step && s.executionId == key.executionId) := by
    obtain ⟨taskId, step, executionId⟩ := key
    rw [Bool.eq_iff_iff]
    simp [TaskSnapshot.key, and_assoc]
  rw [hkey, Bool.and_comm]

theorem get_key [LinearOrder τ] {m : Memory τ ν} (h : (m.snaps.map TaskSnapshot.key).Nodup)
    (now : τ) (key : Key) :
    m.get now key.taskId key.step (some key.executionId) =
      (m.find key).filter fun s => s.alive now := by
  rw [Memory.get]
  simp only
  rw [filter_at_key, filter_key h, filter_toList, newest_toList]
  rfl

theorem filter_filterMap_key {keys : List Key} (h : keys.Nodup)
    {f : Key → Option (TaskSnapshot τ ν)} (hf : ∀ k r, f k = some r → r.key = k) (key : Key) :
    (keys.filterMap f).filter (fun s => s.key == key) =
      if key ∈ keys then (f key).toList else [] := by
  induction keys with
  | nil => rfl
  | cons k keys ih =>
    obtain ⟨hnew, hnodup⟩ := List.nodup_cons.mp h
    have hrest := ih hnodup
    by_cases hk : k = key
    · subst hk
      rw [if_neg hnew] at hrest
      cases hr : f k with
      | none => simp [hr, hrest]
      | some r => simp [hr, hrest, hf k r hr]
    · have hmem : key ∈ k :: keys ↔ key ∈ keys := by simp [Ne.symm hk]
      simp only [hmem, ← hrest]
      cases hr : f k with
      | none => simp [hr]
      | some r =>
        have hne : r.key ≠ key := fun heq => hk ((hf k r hr).symm.trans heq)
        simp [hr, hne]

theorem recordAt_eq_none {rows : List (Row τ ν)} (h : key ∉ rows.map fun row => row.data.key) :
    recordAt rows key = none := by
  have hnil : rows.filter (fun row => row.data.key == key) = [] := by
    rw [List.filter_eq_nil_iff]
    intro row hrow heq
    exact h (List.mem_map.mpr ⟨row, hrow, by simpa using heq⟩)
  rw [recordAt, hnil]
  rfl

theorem filter_records (rows : List (Row τ ν)) (key : Key) :
    (records rows).filter (fun s => s.key == key) = (recordAt rows key).toList := by
  rw [records, filter_filterMap_key (Orditect.Support.PlainSet.nodup_eraseDups _)
    (fun k r => key_of_recordAt)]
  split
  · rfl
  · rename_i hkey
    rw [recordAt_eq_none (by simpa using hkey)]
    rfl

end

theorem alive_map_iso (now : DateTime) (s : TaskSnapshot DateTime ν) :
    Local.alive now (s.map DateTime.iso) = s.alive now := by
  cases h : s.expireAt with
  | none => simp [Local.alive, TaskSnapshot.alive, TaskSnapshot.map, h]
  | some d => simp [Local.alive, TaskSnapshot.alive, TaskSnapshot.map, h, DateTime.parse_iso]

theorem local_get_key [NumberText ν] [LuaNumber ν] (log : List (Call ν)) (now : DateTime)
    (key : Key) :
    Local.get (fileOf log) now key.taskId key.step (some key.executionId) =
      (recordOf log key).filter fun s => s.alive now := by
  rw [Local.get, Local.candidates]
  simp only
  rw [filter_at_key, filter_records, filter_toList, newest_toList]
  rw [rows_fileOf, recordAt_map, ← recordOf]
  cases recordOf log key with
  | none => rfl
  | some r =>
    by_cases halive : r.alive now = true
    · simp [Option.filter, alive_map_iso, halive, validate_map_iso]
    · simp [Option.filter, alive_map_iso, halive]

/-! ## The first call of a key -/

/-- The calls of a key begin with the one that wrote its record. -/
def firstCall (calls : List (Call ν)) (key : Key) : Option (Call ν) :=
  calls.find? fun c => c.snapshot.key == key

variable {log calls : List (Call ν)} {c d : Call ν}

theorem firstCall_concat (calls : List (Call ν)) (c : Call ν) (key : Key) :
    firstCall (calls ++ [c]) key =
      (firstCall calls key).or (if c.snapshot.key = key then some c else none) := by
  by_cases hkey : c.snapshot.key = key <;> simp [firstCall, List.find?_append, hkey]

theorem recordOf_of_firstCall (h : firstCall log key = none) :
    recordOf log key = none := by
  apply recordAt_eq_none
  rw [firstCall, List.find?_eq_none] at h
  intro hmem
  rw [List.map_map] at hmem
  obtain ⟨c, hc, hkey⟩ := List.mem_map.mp hmem
  exact h c hc (by simpa [callRow] using hkey)

theorem createdAt_foldl (rows : List (TaskSnapshot DateTime ν)) (r : TaskSnapshot DateTime ν) :
    (rows.foldl foldRow r).createdAt = r.createdAt := by
  induction rows generalizing r with
  | nil => rfl
  | cons row rows ih => exact (ih (foldRow r row)).trans rfl

theorem recordOf_of_firstCall_eq (h : firstCall log key = some d) :
    ∃ r, recordOf log key = some r ∧ r.createdAt = d.snapshot.createdAt := by
  have hrows : recordOf log key =
      foldSnapshotRows ((log.filter fun c => c.snapshot.key == key).map Call.snapshot) := by
    rw [recordOf, recordAt, List.filter_map, List.map_map]
    rfl
  rw [firstCall, ← List.head?_filter] at h
  obtain ⟨rest, hfilter⟩ := List.head?_eq_some_iff.mp h
  refine ⟨_, by rw [hrows, hfilter]; rfl, createdAt_foldl _ d.snapshot⟩

def Unpromoted (before : List (Call ν)) (c : Call ν) : Prop :=
  c.op = .saveTerminal → ∀ d, firstCall before c.snapshot.key = some d → d.op = .saveTerminal

/-- No key that was first saved is saved as terminal later. -/
def NeverPromoted (calls : List (Call ν)) : Prop :=
  ∀ before c later, calls = before ++ c :: later → Unpromoted before c

theorem NeverPromoted.of_append {more : List (Call ν)} (h : NeverPromoted (calls ++ more)) :
    NeverPromoted calls := by
  intro before c later heq
  exact h before c (later ++ more) (by simp [heq])

theorem NeverPromoted.concat (h : NeverPromoted calls) (hc : Unpromoted calls c) :
    NeverPromoted (calls ++ [c]) := by
  intro before d later hsplit
  rcases List.eq_nil_or_concat later with rfl | ⟨later, z, rfl⟩
  · obtain ⟨rfl, hcd⟩ := List.append_inj' hsplit rfl
    obtain rfl : c = d := by simpa using hcd
    exact hc
  · rw [List.concat_eq_append, ← List.cons_append, ← List.append_assoc] at hsplit
    exact h before d later (List.append_inj' hsplit rfl).1

/-! ## The simulation -/

theorem nodup_memoryWrite {m : Memory DateTime ν} (h : (m.snaps.map TaskSnapshot.key).Nodup)
    (c : Call ν) :
    ((memoryWrite m c).snaps.map TaskSnapshot.key).Nodup := by
  unfold memoryWrite
  split
  · exact nodup_put h _
  · exact nodup_put h _

section

variable [DecidableEq ν] [LuaNumber ν]

/-- The two hold the same records and the same terminal keys. -/
structure Same (m : Memory DateTime ν) (log : List (Call ν)) : Prop where
  record : ∀ key, m.find key = recordOf log key
  terminal : ∀ key, key ∈ m.terminal ↔ key ∈ terminalOf log
  nodup : (m.snaps.map TaskSnapshot.key).Nodup

variable {m : Memory DateTime ν}

theorem Same.verdict_eq (h : Same m log) (c : Call ν) :
    verdict (m.find c.snapshot.key) (decide (c.snapshot.key ∈ m.terminal)) c =
      verdict (recordOf log c.snapshot.key) (decide (c.snapshot.key ∈ terminalOf log)) c := by
  rw [h.record, decide_eq_decide.mpr (h.terminal c.snapshot.key)]

theorem Same.isSome_eq (h : Same m log) (c : Call ν) :
    (m.call c).isSome = (logCall log c).isSome := by
  rw [memory_call_eq, logCall, h.verdict_eq]
  cases verdict (recordOf log c.snapshot.key) (decide (c.snapshot.key ∈ terminalOf log)) c <;> rfl

theorem Same.serve (h : Same m log)
    (hc : c.op = .saveTerminal → recordOf log c.snapshot.key = none ∨
      c.snapshot.key ∈ terminalOf log) :
    Same ((m.call c).getD m) ((logCall log c).getD log) := by
  rw [memory_call_eq, logCall, h.verdict_eq]
  cases hverdict :
    verdict (recordOf log c.snapshot.key) (decide (c.snapshot.key ∈ terminalOf log)) c with
  | keep | reject => exact h
  | write =>
    simp only [Verdict.outcome, Option.getD_some]
    refine ⟨?_, ?_, nodup_memoryWrite h.nodup c⟩
    · intro key
      by_cases hkey : c.snapshot.key = key
      · subst hkey
        rw [find_memoryWrite_self, recordOf_concat_self, h.record]
        cases hop : c.op with
        | save => rfl
        | saveTerminal =>
          have hnone : recordOf log c.snapshot.key = none := by
            refine (hc hop).resolve_right fun hterminal => ?_
            obtain ⟨r, hr⟩ := recordOf_of_terminal hterminal
            rw [hr, decide_eq_true hterminal] at hverdict
            rw [(verdict_write hverdict).1] at hop
            simp at hop
          rw [hnone]
          rfl
      · rw [find_memoryWrite_of_ne m hkey, recordOf_concat_of_ne log hkey, h.record]
    · intro key
      rw [mem_terminal_memoryWrite, mem_terminalOf_concat, h.terminal]

structure Written (calls log : List (Call ν)) : Prop where
  sublist : log.Sublist calls
  first : ∀ key, firstCall log key = firstCall calls key

theorem written_after (calls : List (Call ν)) : Written calls (after logCall [] calls) := by
  induction calls using List.reverseRecOn with
  | nil => exact ⟨List.Sublist.refl _, fun _ => rfl⟩
  | append_singleton calls c ih =>
    rw [after_concat, logCall]
    generalize after logCall [] calls = log at ih ⊢
    have hskip : verdict (recordOf log c.snapshot.key) (decide (c.snapshot.key ∈ terminalOf log))
        c ≠ .write → Written (calls ++ [c]) log := by
      intro hverdict
      refine ⟨ih.sublist.trans (List.sublist_append_left _ _), fun key => ?_⟩
      rw [firstCall_concat, ih.first]
      by_cases hkey : c.snapshot.key = key
      · subst hkey
        cases hfirst : firstCall calls c.snapshot.key with
        | some d => rfl
        | none =>
          rw [← ih.first] at hfirst
          rw [recordOf_of_firstCall hfirst] at hverdict
          exact absurd rfl hverdict
      · simp [hkey]
    cases hverdict :
      verdict (recordOf log c.snapshot.key) (decide (c.snapshot.key ∈ terminalOf log)) c with
    | write =>
      refine ⟨ih.sublist.append (List.Sublist.refl _), fun key => ?_⟩
      change firstCall (log ++ [c]) key = _
      rw [firstCall_concat, firstCall_concat, ih.first]
    | keep | reject => exact hskip (by simp [hverdict])

theorem same_after (h : NeverPromoted calls) :
    Same (after Memory.call Memory.empty calls) (after logCall [] calls) := by
  induction calls using List.reverseRecOn with
  | nil => exact ⟨fun _ => rfl, fun _ => Iff.rfl, List.nodup_nil⟩
  | append_singleton calls c ih =>
    have hsame := ih h.of_append
    rw [after_concat, after_concat]
    refine hsame.serve fun hop => ?_
    cases hrecord : recordOf (after logCall [] calls) c.snapshot.key with
    | none => exact Or.inl rfl
    | some r =>
      obtain ⟨d, hd⟩ : ∃ d, firstCall (after logCall [] calls) c.snapshot.key = some d := by
        rw [← Option.ne_none_iff_exists']
        intro hnone
        rw [recordOf_of_firstCall hnone] at hrecord
        simp at hrecord
      have hwritten := written_after calls
      have hterminal := h calls c [] rfl hop d (by rw [← hwritten.first, hd])
      have hkey := List.find?_some hd
      exact Or.inr (mem_terminalOf.mpr
        ⟨d, List.mem_of_find?_eq_some hd, hterminal, by simpa using hkey⟩)

theorem not_terminal_of_firstCall (h : NeverPromoted calls) (hd : firstCall calls key = some d)
    (hop : d.op ≠ .saveTerminal) :
    key ∉ terminalOf (after logCall [] calls) := by
  intro hterminal
  obtain ⟨e, he, heop, rfl⟩ := mem_terminalOf.mp hterminal
  obtain ⟨before, later, hsplit⟩ := List.append_of_mem ((written_after calls).sublist.subset he)
  rw [hsplit, firstCall, List.find?_append, List.find?_cons_of_pos (by simp)] at hd
  cases hfirst : firstCall before e.snapshot.key with
  | none =>
    rw [show before.find? _ = none from hfirst] at hd
    obtain rfl := Option.some.inj hd
    exact hop heop
  | some d' =>
    rw [show before.find? _ = some d' from hfirst] at hd
    obtain rfl := Option.some.inj hd
    exact hop (h before e later hsplit heop d' hfirst)

variable [NumberText ν]

/-- The call is accepted by both adapters or by neither, and after it a read of any key by its
execution finds the same record in both. -/
def AgreeAfter (before : List (Call ν)) (c : Call ν) : Prop :=
  ((after Memory.call Memory.empty before).call c).isSome =
      (Local.call (after Local.call [] before) c).isSome ∧
    ∀ (now : DateTime) (taskId step executionId : String),
      (after Memory.call Memory.empty (before ++ [c])).get now taskId step (some executionId) =
        Local.get (after Local.call [] (before ++ [c])) now taskId step (some executionId)

def AgreeThroughout (calls : List (Call ν)) : Prop :=
  ∀ before c later, calls = before ++ c :: later → AgreeAfter before c

theorem agreeAfter_of_same {before : List (Call ν)}
    (hbefore : Same (after Memory.call Memory.empty before) (after logCall [] before))
    (hafter : Same (after Memory.call Memory.empty (before ++ [c]))
      (after logCall [] (before ++ [c]))) : AgreeAfter before c := by
  refine ⟨?_, fun now taskId step executionId => ?_⟩
  · rw [after_fileOf, call_fileOf, Option.isSome_map]
    exact hbefore.isSome_eq c
  · have hmemory := get_key hafter.nodup now ⟨taskId, step, executionId⟩
    have hlocal := local_get_key (after logCall [] (before ++ [c])) now ⟨taskId, step, executionId⟩
    rw [after_fileOf]
    exact (hmemory.trans (by rw [hafter.record])).trans hlocal.symm

theorem not_agreeAfter {before : List (Call ν)} (h : NeverPromoted before)
    (hop : c.op = .saveTerminal) (hd : firstCall before c.snapshot.key = some d)
    (hdop : d.op ≠ .saveTerminal) (hexpire : c.snapshot.expireAt = none)
    (hcreated : d.snapshot.createdAt < c.snapshot.createdAt) : ¬AgreeAfter before c := by
  rintro ⟨-, hget⟩
  have hsame := same_after h
  have hopen := not_terminal_of_firstCall h hd hdop
  obtain ⟨r, hr, hrcreated⟩ :=
    recordOf_of_firstCall_eq ((written_after before).first c.snapshot.key ▸ hd)
  have hverdict : verdict (recordOf (after logCall [] before) c.snapshot.key)
      (decide (c.snapshot.key ∈ terminalOf (after logCall [] before))) c = .write := by
    rw [decide_eq_false hopen]
    exact verdict_of_open _ c
  have hmemory : after Memory.call Memory.empty (before ++ [c]) =
      memoryWrite (after Memory.call Memory.empty before) c := by
    rw [after_concat, memory_call_eq, hsame.verdict_eq, hverdict]
    rfl
  have hlog : after logCall [] (before ++ [c]) = after logCall [] before ++ [c] := by
    rw [after_concat, logCall, hverdict]
    rfl
  have hread := hget c.ts c.snapshot.taskId c.snapshot.step c.snapshot.executionId
  rw [after_fileOf, hmemory, hlog] at hread
  have hleft := get_key (nodup_memoryWrite hsame.nodup c) c.ts c.snapshot.key
  have hright := local_get_key (after logCall [] before ++ [c]) c.ts c.snapshot.key
  have halive : c.snapshot.alive c.ts = true := by simp [TaskSnapshot.alive, hexpire]
  rw [find_memoryWrite_self, hop] at hleft
  rw [recordOf_concat_self, hr] at hright
  have heq := (hleft.symm.trans hread).trans hright
  simp only [Option.filter, halive, Option.map_some, Option.getD_some, if_true] at heq
  split at heq
  · have hinstant := congrArg TaskSnapshot.createdAt (Option.some.inj heq)
    rw [show (foldRow r c.snapshot).createdAt = r.createdAt from rfl, hrcreated] at hinstant
    exact absurd hinstant hcreated.ne'
  · simp at heq

/-- For calls without expiry whose creation instants increase, the two adapters agree after
each call if and only if no key that was first saved is saved as terminal later. -/
theorem adapters_agree_iff {calls : List (Call ν)}
    (hexpire : ∀ c ∈ calls, c.snapshot.expireAt = none)
    (hcreated : calls.Pairwise fun a b => a.snapshot.createdAt < b.snapshot.createdAt) :
    AgreeThroughout calls ↔ NeverPromoted calls := by
  constructor
  · intro hagree
    have hinitial : ∀ before later, calls = before ++ later → NeverPromoted before := by
      intro before
      induction before using List.reverseRecOn with
      | nil => simp [NeverPromoted]
      | append_singleton before c ih =>
        intro later hcalls
        have hsplit : calls = before ++ c :: later := by simpa using hcalls
        have hbefore := ih (c :: later) hsplit
        refine hbefore.concat fun hop d hd => ?_
        by_contra hdop
        have hmem : d ∈ before := List.mem_of_find?_eq_some hd
        rw [hsplit, List.pairwise_append] at hcreated
        exact not_agreeAfter hbefore hop hd hdop (hexpire c (by simp [hsplit]))
          (hcreated.2.2 d hmem c (by simp)) (hagree before c later hsplit)
    exact hinitial calls [] (by simp)
  · intro h before c later heq
    have hcalls : calls = before ++ [c] ++ later := by simp [heq]
    have hinitial : NeverPromoted (before ++ [c]) := (hcalls ▸ h).of_append
    exact agreeAfter_of_same (same_after hinitial.of_append) (same_after hinitial)

end

def started : Call Int where
  op := .save
  snapshot := { taskId := "t", step := "s", executionId := "e", status := "running",
                createdAt := DateTime.newYear 1, updatedAt := DateTime.newYear 1 }
  ts := DateTime.newYear 1

def finished : Call Int where
  op := .saveTerminal
  snapshot := { taskId := "t", step := "s", executionId := "e", status := "succeeded",
                createdAt := DateTime.newYear 2, updatedAt := DateTime.newYear 2 }
  ts := DateTime.newYear 2

/-- One key saved twice, another one saved as terminal twice, the second time refused. -/
def interleaved : List (Call Int) :=
  let running (n : Nat) : Call Int :=
    { started with
      snapshot := { started.snapshot with createdAt := .newYear n, updatedAt := .newYear n }
      ts := .newYear n }
  let ended (n : Nat) : Call Int :=
    { finished with
      snapshot := { finished.snapshot with
        taskId := "u", createdAt := .newYear n, updatedAt := .newYear n }
      ts := .newYear n }
  [running 1, ended 2, running 3, ended 4]

theorem neverPromoted_interleaved : NeverPromoted interleaved := by
  have hnil : NeverPromoted ([] : List (Call Int)) := by simp [NeverPromoted]
  refine (((hnil.concat ?_).concat ?_).concat ?_).concat ?_
  · rintro ⟨⟩
  · intro _ d hd
    simp [firstCall, started, finished, TaskSnapshot.key] at hd
  · rintro ⟨⟩
  · intro _ d hd
    obtain rfl : _ = d := by simpa [firstCall, started, finished, TaskSnapshot.key] using hd
    rfl

theorem adapters_agree_interleaved : AgreeThroughout interleaved :=
  (adapters_agree_iff (by decide) (by decide)).mpr neverPromoted_interleaved

theorem started_then_finished_differ : ¬AgreeAfter [started] finished := by
  refine not_agreeAfter (d := started) (fun b e l heq hop => ?_) rfl rfl (by decide) rfl (by decide)
  obtain ⟨rfl, rfl, -⟩ : b = [] ∧ e = started ∧ l = [] := by
    simpa [List.cons_eq_append_iff] using heq
  exact absurd hop (by decide)

end Orditect.Snapshot.Proofs
