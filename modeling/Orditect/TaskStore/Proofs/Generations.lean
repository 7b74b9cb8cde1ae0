import Mathlib.Data.List.DropRight
import Orditect.TaskStore.Proofs.Terminal
/-!
# Reopening: one winner, and the trace of old generations

A reopening needs a terminal record and leaves one that is not, so the next one needs an
update in between that settles the record again.  The stored trace is compared with the
ids that were observed in the record, in the order they were current.
-/

namespace Orditect.TaskStore.Proofs

open Support.Expiring Support.LuaJson Support.Transition

variable {ν : Type}

def traceOf (earlier : List String) : Option (Json ν) :=
  if earlier = [] then none
  else some (.arr ((earlier.rtake 50).map .str))

def terminalNow (cfg : Config) (s : Store ν) (t : String) : Bool :=
  match getTask t s with
  | none => false
  | some record => isTerminal cfg (Json.orEmpty (record "status"))

/-- The clients, and the execution ids the record of the task has had. -/
structure Generations (ν : Type) where
  base : State ν
  ids : List String

def noteGeneration (ids : List String) : Option (Json ν) → List String
  | some (.str eid) => if ids.getLast? = some eid then ids else ids ++ [eid]
  | _ => ids

def generationStep [DecidableEq ν] [LuaNumber ν] (cfg : Config) (t : String) (s : Generations ν)
    (e : Event ν) : Option (Generations ν) :=
  (step cfg s.base e).map fun base =>
    ⟨base, noteGeneration s.ids (field base.store t "execution_id")⟩

/-- Updates leave the ids alone, `t` is not initialised again, and generated ids are not
empty. -/
def Traces (cfg : Config) (t : String) : Event ν → Prop
  | .initializeTask _ x _ _ _ _ _ _ => x ≠ t
  | .updateTask _ _ updates _ _ =>
    updates "execution_id" = none ∧ updates "previous_execution_ids" = none
  | .reopenTask _ _ status _ eid => status ∉ cfg.terminalStatuses ∧ eid ≠ ""
  | _ => True

def CallTraces (cfg : Config) (t : String) : Call ν → Prop
  | .initializeTask x _ _ _ _ _ _ => x ≠ t
  | .validateTransfer _ updates _ | .updateTask _ updates _ =>
    updates "execution_id" = none ∧ updates "previous_execution_ids" = none
  | .reopenTask _ status _ eid => status ∉ cfg.terminalStatuses ∧ eid ≠ ""

variable {call : Call ν} {cur : String} {s s' : State ν} {cfg : Config} {t : String}

theorem CallTraces.keepsId (h : CallTraces cfg t call) :
    CallKeepsId call := by
  cases call with
  | validateTransfer x updates expiry | updateTask x updates expiry => exact h.1
  | _ => trivial

/-! ## The trace -/

theorem recodeList_strs [LuaNumber ν] (ids : List String) :
    Json.recodeList (ids.map (.str : String → Json ν)) = ids.map .str := by
  induction ids with
  | nil => rfl
  | cons id ids ih => simp [Json.recodeList, ih]

variable {ids : List String} {f : Fields ν} {expiry : Option Int} {store : Store ν}

theorem recode_strs [LuaNumber ν] (h : ids ≠ []) :
    Json.recode (.arr (ids.map .str) : Json ν) = .arr (ids.map .str) := by
  cases ids with
  | nil => exact absurd rfl h
  | cons id ids => simp [Json.recode, recodeList_strs]

theorem rtake_ne_nil (h : ids ≠ []) : ids.rtake 50 ≠ [] := by
  have hpos := List.length_pos_of_ne_nil h
  simp only [List.rtake, ne_eq, List.drop_eq_nil_iff]
  omega

theorem rtake_append (earlier : List String) (cur : String) :
    (if 50 < (earlier.rtake 50 ++ [cur]).length then (earlier.rtake 50 ++ [cur]).tail
      else earlier.rtake 50 ++ [cur]) = (earlier ++ [cur]).rtake 50 := by
  rw [List.rtake_concat_succ]
  have hlen : (earlier.rtake 50).length = min 50 earlier.length := by
    simp only [List.rtake, List.length_drop]
    omega
  by_cases hfull : 50 ≤ earlier.length
  · have hne : earlier.rtake 50 ≠ [] := List.ne_nil_of_length_pos (by omega)
    have hsucc : earlier.length - 49 = earlier.length - 50 + 1 := by omega
    rw [if_pos (by simp [hlen, hfull]), List.tail_append_of_ne_nil hne]
    simp only [List.rtake, List.tail_drop, hsucc]
  · have hzero : earlier.length - 50 = 0 := by omega
    have hzero' : earlier.length - 49 = 0 := by omega
    rw [if_neg (by simp only [List.length_append, hlen, List.length_singleton]; omega)]
    simp only [List.rtake, hzero, hzero']

theorem tracePrevious_arr (elems : List (Json ν)) (hcur : cur ≠ "") :
    tracePrevious (some (.arr elems)) (some (.str cur)) =
      .arr (if 50 < (elems ++ [Json.str cur]).length then (elems ++ [Json.str cur]).tail
        else elems ++ [Json.str cur]) := by
  simp [tracePrevious, hcur]

theorem tracePrevious_traceOf (earlier : List String) (hcur : cur ≠ "") :
    tracePrevious (traceOf earlier : Option (Json ν)) (some (.str cur)) =
      .arr (((earlier ++ [cur]).rtake 50).map .str) := by
  by_cases h : earlier = []
  · subst h
    simp [traceOf, tracePrevious, hcur, List.rtake]
  · have hids : (traceOf earlier : Option (Json ν)) = some (.arr ((earlier.rtake 50).map .str)) :=
      if_neg h
    rw [hids, tracePrevious_arr _ hcur, ← rtake_append, apply_ite (List.map Json.str),
      List.map_tail, List.map_append, List.length_append, List.length_append, List.length_map,
      List.map_singleton, List.length_singleton, List.length_singleton]

theorem recode_traceOf [LuaNumber ν] (earlier : List String) :
    (traceOf earlier : Option (Json ν)).map Json.recode = traceOf earlier := by
  unfold traceOf
  split
  · rfl
  · rename_i hne
    rw [Option.map_some, recode_strs (rtake_ne_nil hne)]

theorem previous_reopened [LuaNumber ν] {record : Fields ν} {earlier : List String}
    (hcur : cur ≠ "") (hid : record "execution_id" = some (.str cur))
    (hprev : record "previous_execution_ids" = traceOf earlier) (old : Json ν)
    (eid status : String) (now : Nat) :
    (reopened record old eid status now).recode "previous_execution_ids" =
      traceOf (earlier ++ [cur]) := by
  have hset : reopened record old eid status now "previous_execution_ids" =
      some (tracePrevious (record "previous_execution_ids") (record "execution_id")) := by
    simp [reopened, Fields.set, Fields.unset]
  have hne : earlier ++ [cur] ≠ [] := by simp
  rw [Fields.recode, hset, hid, hprev, tracePrevious_traceOf earlier hcur, Option.map_some,
    recode_strs (rtake_ne_nil hne), traceOf, if_neg hne]

/-! ## What the scripts do to one record -/

theorem terminalNow_of_records {s s' : Store ν} (h : s'.records t = s.records t) :
    terminalNow cfg s' t = terminalNow cfg s t := by
  unfold terminalNow getTask
  rw [h]

theorem Rewrites.getTask_self {s s' : Store ν} (h : Rewrites s s' t f) :
    getTask t s' = some f := by
  obtain ⟨n, hrec⟩ := h
  unfold getTask
  rw [hrec, Function.update_self]
  rfl

theorem Rewrites.terminalNow {s s' : Store ν} (h : Rewrites s s' t f) (cfg : Config) :
    terminalNow cfg s' t = isTerminal cfg (Json.orEmpty (f "status")) := by
  unfold Proofs.terminalNow
  rw [h.getTask_self]

def TerminalOrGone (cfg : Config) (t : String) (s : State ν) : Prop :=
  getTask t s.store = none ∨ terminalNow cfg s.store t = true

theorem terminalOrGone_of_records (h : TerminalOrGone cfg t s)
    (hrecords : s'.store.records t = s.store.records t) :
    TerminalOrGone cfg t s' := by
  rcases h with hgone | hterm
  · left
    unfold getTask at hgone ⊢
    rw [hrecords, hgone]
  · right
    rw [terminalNow_of_records hrecords, hterm]

section Scripts

variable [LuaNumber ν]

theorem executionId_reopened (current : Fields ν) (old : Json ν) (eid word : String) (now : Nat) :
    (reopened current old eid word now).recode "execution_id" = some (.str eid) := by
  simp [Fields.recode, reopened, Fields.set, Fields.unset]

theorem status_reopened (current : Fields ν) (old : Json ν) (eid word : String) (now : Nat) :
    (reopened current old eid word now).recode "status" = some (.str word) := by
  simp [Fields.recode, reopened, Fields.set, Fields.unset]

theorem taskInit_spec (data : Fields ν) (expiry : Int) (t : String) (ifNotExists : Bool)
    (status parentId eid : String) (s : Store ν) :
    (taskInit data expiry t ifNotExists status parentId eid s).2 = s ∨
      (ifNotExists = false ∨ getTask t s = none) ∧
        Rewrites s (taskInit data expiry t ifNotExists status parentId eid s).2 t
          (data.set "execution_id" (.str eid)).recode := by
  unfold taskInit
  dsimp only
  split
  · exact Or.inl rfl
  · rename_i hnew
    split
    · exact Or.inl rfl
    · refine Or.inr ⟨?_, expiry.toNat, by split <;> split <;> rfl⟩
      rw [Bool.and_eq_true, not_and_or] at hnew
      rcases hnew with hoverwrite | hmissing
      · exact Or.inl (by simpa using hoverwrite)
      · have hnone : s.records t = none := by simpa using hmissing
        exact Or.inr (by simp [getTask, hnone])

theorem reopen_spec (cfg : Config) (s : Store ν) (t eid word : String) (expiry : Int) :
    (∃ current, getTask t s = some current ∧
        isTerminal cfg (Json.orEmpty (current "status")) = true ∧
        (taskReopen cfg t eid word expiry s).1 = .reopened eid (Json.orEmpty (current "status")) ∧
        Rewrites s (taskReopen cfg t eid word expiry s).2 t
          (reopened current (Json.orEmpty (current "status")) eid word s.now).recode) ∨
      ((∀ gen old, (taskReopen cfg t eid word expiry s).1 ≠ .reopened gen old) ∧
        (taskReopen cfg t eid word expiry s).2 = s) := by
  unfold taskReopen
  dsimp only
  split
  · exact Or.inr ⟨by simp, rfl⟩
  · rename_i current hcur
    split
    · exact Or.inr ⟨by simp, rfl⟩
    · rename_i hterm
      split
      · exact Or.inr ⟨by simp, rfl⟩
      · refine Or.inl ⟨current, hcur, by simpa using hterm, rfl, ?_⟩
        exact ⟨(effectiveExpiry cfg expiry ((s.records t).ttl s.now)).toNat,
          by split <;> split <;> rfl⟩

theorem reopened_of_terminalNow (hexpire : 0 < cfg.defaultExpireTime) {s : Store ν}
    (eid word : String) (hexpiry : expiry ≠ some 0) (hterm : terminalNow cfg s t = true) :
    ∃ old, (taskReopen cfg t eid word (expiry.getD (-1)) s).1 = .reopened eid old := by
  have hpos : 0 < effectiveExpiry cfg (expiry.getD (-1)) ((s.records t).ttl s.now) := by
    unfold effectiveExpiry
    split
    · split <;> assumption
    · cases expiry with
      | none => simp_all
      | some n =>
        simp only [ne_eq, Option.some.injEq] at hexpiry
        simp only [Option.getD_some] at *
        omega
  cases hcur : getTask t s with
  | none => simp [terminalNow, hcur] at hterm
  | some current =>
    have hstatus : isTerminal cfg (Json.orEmpty (current "status")) = true := by
      simpa [terminalNow, hcur] using hterm
    refine ⟨Json.orEmpty (current "status"), ?_⟩
    unfold getTask at hcur
    simp [taskReopen, hcur, hstatus, Int.not_le.mpr hpos]

variable [DecidableEq ν]

/-- What one step of a call can do to the record of `t`. -/
inductive TraceEffect (cfg : Config) (t : String) (s : Store ν) (call : Call ν) (s' : Store ν) :
    Prop
  | same (h : s'.records t = s.records t)
  | update (updates current : Fields ν) (expiry : Option Int)
      (hcall : call = .updateTask t updates expiry) (hcur : getTask t s = some current)
      (hw : Rewrites s s' t (updates.merge current).recode)
      (hkeep : (Json.orEmpty (current "status")).luaEq
          ((updates "status").getD (Json.orEmpty (current "status"))) = true ∨
        isTerminal cfg (Json.orEmpty (current "status")) = false)
  | reopened (current : Fields ν) (word eid : String) (expiry : Option Int)
      (hcall : call = .reopenTask t word expiry eid) (hcur : getTask t s = some current)
      (hterm : isTerminal cfg (Json.orEmpty (current "status")) = true)
      (hw : Rewrites s s' t
        (TaskStore.reopened current (Json.orEmpty (current "status")) eid word s.now).recode)

theorem traceEffect_perform {s : Store ν} (hcall : CallTraces cfg t call) :
    TraceEffect cfg t s call (perform cfg s call).2 := by
  cases call with
  | reopenTask x word expiry eid =>
    rcases reopen_spec cfg s x eid word (expiry.getD (-1)) with
      ⟨current, hcur, hterm, -, hw⟩ | ⟨-, hsame⟩
    · by_cases hx : t = x
      · subst hx
        exact .reopened current word eid expiry rfl hcur hterm hw
      · exact .same (hw.records_ne hx)
    · exact .same (congrArg (fun u => u.records t) hsame)
  | initializeTask x expiry status ifNotExists parent timestamp eid =>
    rcases taskInit_spec (initialData timestamp status parent)
      (expiry.getD cfg.defaultExpireTime) x ifNotExists status (parent.getD "") eid s with
      hsame | ⟨-, hw⟩
    · exact .same (congrArg (fun u => u.records t) hsame)
    · exact .same (hw.records_ne (Ne.symm hcall))
  | validateTransfer x updates expiry =>
    cases effect_perform cfg s (.validateTransfer x updates expiry) with
    | same h => exact .same (congrFun h t)
    | generation y f gen hid => simp [Call.executionId] at hid
    | update y updates current expiry heq => simp at heq
  | updateTask x updates expiry =>
    cases effect_perform cfg s (.updateTask x updates expiry) with
    | same h => exact .same (congrFun h t)
    | generation y f gen hid => simp [Call.executionId] at hid
    | update y updates' current expiry' heq hcur hw hkeep =>
      obtain ⟨rfl, rfl, rfl⟩ := Call.updateTask.inj heq
      by_cases hx : t = x
      · subst hx
        exact .update updates current expiry rfl hcur hw hkeep
      · exact .same (hw.records_ne hx)

end Scripts

/-! ## The ids of the record -/

/-- The record has the last of the observed ids, and the trace of the others. -/
structure Traced (t : String) (s : Generations ν) : Prop where
  ids : Inv s.base
  record : ∀ record, getTask t s.base.store = some record → ∃ earlier cur,
    s.ids = earlier ++ [cur] ∧ record "execution_id" = some (.str cur) ∧
      record "previous_execution_ids" = traceOf earlier
  nonempty : "" ∉ s.ids
  issued : ∀ eid ∈ s.ids, eid ∈ s.base.issued
  unpending : ∀ c call eid, s.base.calls c = some call → call.executionId = some eid → eid ∉ s.ids
  nodup : s.ids.Nodup

theorem Traced.note_of_records {s : Generations ν} (hs : Traced t s)
    (h : store.records t = s.base.store.records t ∨ store.records t = none) :
    noteGeneration s.ids (field store t "execution_id") = s.ids := by
  rcases h with hsame | hgone
  · rw [field_congr hsame]
    cases hrecord : getTask t s.base.store with
    | none => simp [field, hrecord, noteGeneration]
    | some record =>
      obtain ⟨earlier, cur, hids, hid, -⟩ := hs.record record hrecord
      simp [field, hrecord, hid, noteGeneration, hids]
  · simp [field, getTask, hgone, noteGeneration]

theorem Traced.record_of_records {s : Generations ν} (hs : Traced t s)
    (h : store.records t = s.base.store.records t ∨ store.records t = none) :
    ∀ record, getTask t store = some record → ∃ earlier cur,
      s.ids = earlier ++ [cur] ∧ record "execution_id" = some (.str cur) ∧
        record "previous_execution_ids" = traceOf earlier := by
  intro record hrecord
  rcases h with hsame | hgone
  · apply hs.record record
    rw [← hrecord]
    unfold getTask
    rw [hsame]
  · simp [getTask, hgone] at hrecord

/-! ## One step of the clients -/

section Runs

variable [DecidableEq ν] [LuaNumber ν]

inductive Moves (cfg : Config) (t : String) (s : State ν) (e : Event ν) (s' : State ν) : Prop
  | begins (client : Nat) (call : Call ν) (hcall : CallTraces cfg t call)
      (h : begin client call s = some s')
  | performs (client : Nat) (call : Call ν) (he : e = .proceed client)
      (hcall : s.calls client = some call)
      (hs' : s' = { s with
        store := (perform cfg s.store call).2
        calls := Function.update s.calls client (perform cfg s.store call).1 })
  | shrinks (hstore : Shrinks s.store s'.store) (hcalls : s'.calls = s.calls)
      (hissued : s'.issued = s.issued)

variable {e : Event ν} {client : Nat} {eid : String} {es : List (Event ν)} {u : State ν}

theorem moves_step (he : Traces cfg t e) (h : step cfg s e = some s') : Moves cfg t s e s' := by
  cases e with
  | initializeTask client x expiry status ifNotExists parent timestamp eid =>
    exact .begins client _ (by exact he) h
  | updateTask client x updates expiry validate =>
    refine .begins client _ ?_ h
    split <;> exact he
  | reopenTask client x status expiry eid => exact .begins client _ (by exact he) h
  | proceed client =>
    obtain ⟨call, hcall, hs'⟩ := step_proceed h
    exact .performs client call rfl hcall hs'
  | listTaskIdsByStatus status nowMs =>
    simp only [step] at h
    split at h
    · obtain rfl := Option.some.inj h
      exact .shrinks (fun _ => Or.inl rfl) rfl rfl
    · simp at h
  | advance ms =>
    obtain rfl := Option.some.inj h
    exact .shrinks (shrinks_tick ms s.store) rfl rfl
  | evict x =>
    obtain rfl := Option.some.inj h
    exact .shrinks (shrinks_evict s.store x) rfl rfl

def CallsTrace (cfg : Config) (t : String) (s : State ν) : Prop :=
  ∀ c call, s.calls c = some call → CallTraces cfg t call

theorem callsTrace_step (hs : CallsTrace cfg t s) (he : Traces cfg t e)
    (h : step cfg s e = some s') : CallsTrace cfg t s' := by
  intro c other hc
  cases moves_step he h with
  | begins client call hcall h =>
    rcases calls_begin h hc with ⟨-, rfl⟩ | ⟨-, hold⟩
    · exact hcall
    · exact hs c other hold
  | performs client call he hcall hs' =>
    subst hs'
    rcases calls_proceed hc with ⟨-, hold⟩ | ⟨-, x, updates, expiry, rfl, rfl⟩
    · exact hs c other hold
    · exact (hs client _ hcall : CallTraces cfg t (.validateTransfer x updates expiry))
  | shrinks hstore hcalls hissued => exact hs c other (hcalls ▸ hc)

/-! ## Terminal again -/

theorem settles_of_step (hs : CallsTrace cfg t s) (he : Traces cfg t e)
    (h : step cfg s e = some s') (hbefore : terminalNow cfg s.store t ≠ true)
    (hafter : terminalNow cfg s'.store t = true) :
    ∃ client updates expiry, e = .proceed client ∧
      s.calls client = some (.updateTask t updates expiry) := by
  cases moves_step he h with
  | begins client call hcall h =>
    rw [(begin_spec h).1] at hafter
    exact absurd hafter hbefore
  | performs client call he hcall hs' =>
    subst hs'
    cases traceEffect_perform (s := s.store) (hs client call hcall) with
    | same hsame => exact absurd ((terminalNow_of_records hsame).symm.trans hafter) hbefore
    | update updates current expiry heq hcur hw hkeep =>
      exact ⟨client, updates, expiry, he, heq ▸ hcall⟩
    | reopened current word eid expiry heq hcur hterm hw =>
      have hword : word ∉ cfg.terminalStatuses := by
        have htraces := hs client call hcall
        rw [heq] at htraces
        exact htraces.1
      rw [hw.terminalNow, status_reopened] at hafter
      simp [Json.orEmpty, isTerminal, hword] at hafter
  | shrinks hstore hcalls hissued =>
    rcases hstore t with hsame | hgone
    · exact absurd ((terminalNow_of_records hsame).symm.trans hafter) hbefore
    · simp [terminalNow, getTask, hgone] at hafter

theorem isTerminal_merge {updates current : Fields ν}
    (hterm : isTerminal cfg (Json.orEmpty (current "status")) = true)
    (hkeep : (Json.orEmpty (current "status")).luaEq
        ((updates "status").getD (Json.orEmpty (current "status"))) = true ∨
      isTerminal cfg (Json.orEmpty (current "status")) = false) :
    isTerminal cfg (Json.orEmpty ((updates.merge current).recode "status")) = true := by
  cases hold : Json.orEmpty (current "status") with
  | str word =>
    rw [hold] at hterm hkeep
    have hnew : (updates "status").getD (.str word) = .str word := by
      rcases hkeep with heq | hnot
      · exact Json.eq_of_luaEq_str heq
      · simp [hterm] at hnot
    suffices Json.orEmpty ((updates.merge current).recode "status") = .str word by
      rw [this]
      exact hterm
    cases hup : updates "status" with
    | some v =>
      obtain rfl : v = .str word := by simpa [hup] using hnew
      simp [Fields.recode, Fields.merge, hup, Json.orEmpty]
    | none =>
      simp only [Fields.recode, Fields.merge, hup, Option.none_or]
      unfold Json.orEmpty at hold
      split at hold
      · rename_i hc
        rw [hc]
        exact hold
      · rename_i hc
        rw [hc]
        exact hold
      · rename_i hc
        rw [hc, hold]
        simp [Json.orEmpty]
  | _ => simp [hold, isTerminal] at hterm

def uncontested (t : String) (s : State ν) : Event ν → Bool
  | .proceed client =>
    match s.calls client with
    | some (.reopenTask x _ _ _) => x != t
    | _ => true
  | _ => true

theorem terminalOrGone_step (hs : CallsTrace cfg t s) (hterm : TerminalOrGone cfg t s)
    (he : Traces cfg t e) (hfree : uncontested t s e = true) (h : step cfg s e = some s') :
    TerminalOrGone cfg t s' := by
  cases moves_step he h with
  | begins client call hcall h =>
    apply terminalOrGone_of_records hterm
    rw [(begin_spec h).1]
  | performs client call he hcall hs' =>
    subst hs' he
    cases traceEffect_perform (s := s.store) (hs client call hcall) with
    | same hsame => exact terminalOrGone_of_records hterm hsame
    | update updates current expiry heq hcur hw hkeep =>
      rcases hterm with hgone | hterm
      · simp [hgone] at hcur
      · right
        rw [hw.terminalNow]
        apply isTerminal_merge _ hkeep
        simpa [terminalNow, hcur] using hterm
    | reopened current word eid expiry heq hcur hterm hw =>
      simp [uncontested, hcall, heq] at hfree
  | shrinks hstore hcalls hissued =>
    rcases hstore t with hsame | hgone
    · exact terminalOrGone_of_records hterm hsame
    · exact Or.inl (by simp [getTask, hgone])

theorem calls_uncontested {word : String}
    (hcall : s.calls client = some (.reopenTask t word expiry eid)) (he : Traces cfg t e)
    (hfree : uncontested t s e = true) (h : step cfg s e = some s') :
    s'.calls client = some (.reopenTask t word expiry eid) := by
  cases moves_step he h with
  | begins other call _ h =>
    obtain ⟨-, hcalls, -, -⟩ := begin_spec h
    have hne : client ≠ other := by
      rintro rfl
      simp [begin, hcall] at h
    rw [hcalls, Function.update_of_ne hne, hcall]
  | performs other call he hother hs' =>
    subst hs' he
    have hne : client ≠ other := by
      rintro rfl
      simp [uncontested, hcall] at hfree
    exact (Function.update_of_ne hne _ _).trans hcall
  | shrinks hstore hcalls hissued => rw [hcalls, hcall]

theorem traced_performs {s : Generations ν} (hs : Traced t s)
    (hcall : s.base.calls client = some call) (htraces : CallTraces cfg t call) :
    Traced t ⟨{ s.base with
        store := (perform cfg s.base.store call).2
        calls := Function.update s.base.calls client (perform cfg s.base.store call).1 },
      noteGeneration s.ids (field (perform cfg s.base.store call).2 t "execution_id")⟩ := by
  have hinv : Inv { s.base with
      store := (perform cfg s.base.store call).2
      calls := Function.update s.base.calls client (perform cfg s.base.store call).1 } :=
    inv_proceed hs.ids hcall
  cases traceEffect_perform (s := s.base.store) htraces with
  | same hsame =>
    rw [hs.note_of_records (Or.inl hsame)]
    refine ⟨hinv, hs.record_of_records (Or.inl hsame), hs.nonempty, hs.issued, ?_, hs.nodup⟩
    intro c other eid hc hid
    exact hs.unpending c other eid (calls_proceed_of_id hc hid).2 hid
  | update updates current expiry heq hcur hw hkeep =>
    subst heq
    obtain ⟨earlier, cur, hids, hid, hprev⟩ := hs.record current hcur
    have hid' : (updates.merge current).recode "execution_id" = some (.str cur) := by
      simp [Fields.recode, Fields.merge, htraces.1, hid]
    have hprev' : (updates.merge current).recode "previous_execution_ids" = traceOf earlier := by
      simp only [Fields.recode, Fields.merge, htraces.2, Option.none_or, hprev, recode_traceOf]
    have hnote : noteGeneration s.ids (some (.str cur) : Option (Json ν)) = s.ids := by
      simp [noteGeneration, hids]
    rw [hw.field_self, hid', hnote]
    refine ⟨hinv, ?_, hs.nonempty, hs.issued, ?_, hs.nodup⟩
    · intro record hrecord
      rw [hw.getTask_self, Option.some.injEq] at hrecord
      subst hrecord
      exact ⟨earlier, cur, hids, hid', hprev'⟩
    · intro c other eid hc heid
      exact hs.unpending c other eid (calls_proceed_of_id hc heid).2 heid
  | reopened current word eid expiry heq hcur hterm hw =>
    subst heq
    obtain ⟨earlier, cur, hids, hid, hprev⟩ := hs.record current hcur
    have hcurne : cur ≠ "" := by
      rintro rfl
      exact hs.nonempty (by simp [hids])
    have hfresh : eid ∉ s.ids := hs.unpending client _ eid hcall rfl
    have hid' := executionId_reopened current (Json.orEmpty (current "status")) eid word
      s.base.store.now
    have hnote : noteGeneration s.ids (some (.str eid) : Option (Json ν)) = s.ids ++ [eid] := by
      have hlast : s.ids.getLast? ≠ some eid :=
        fun h => hfresh (List.mem_of_getLast? h)
      simp [noteGeneration, hlast]
    rw [hw.field_self, hid', hnote]
    refine ⟨hinv, ?_, ?_, ?_, ?_, ?_⟩
    · intro record hrecord
      rw [hw.getTask_self, Option.some.injEq] at hrecord
      subst hrecord
      refine ⟨s.ids, eid, rfl, hid', ?_⟩
      rw [hids]
      exact previous_reopened hcurne hid hprev _ eid word _
    · simpa using ⟨hs.nonempty, htraces.2⟩
    · intro x hx
      rcases List.mem_append.mp hx with hx | hx
      · exact hs.issued x hx
      · rw [List.mem_singleton.mp hx]
        exact hs.ids.pending client _ eid hcall rfl
    · intro c other x hc hx hmem
      obtain ⟨hne, hold⟩ := calls_proceed_of_id hc hx
      rcases List.mem_append.mp hmem with hmem | hmem
      · exact hs.unpending c other x hold hx hmem
      · rw [List.mem_singleton.mp hmem] at hx
        exact hne (hs.ids.distinct c client other _ eid hold hcall hx rfl)
    · simpa using hs.nodup.concat hfresh

theorem traced_step {s s' : Generations ν} (hs : Traced t s) (hcalls : CallsTrace cfg t s.base)
    (he : Traces cfg t e) (h : generationStep cfg t s e = some s') : Traced t s' := by
  obtain ⟨base, hbase, rfl⟩ := Option.map_eq_some_iff.mp h
  cases moves_step he hbase with
  | begins client call hcall h =>
    obtain ⟨hstore, -, hnew, hold⟩ := begin_spec h
    have hrecords : base.store.records t = s.base.store.records t ∨
        base.store.records t = none := Or.inl (by rw [hstore])
    rw [hs.note_of_records hrecords]
    refine ⟨inv_begin hs.ids hcall.keepsId h, hs.record_of_records hrecords, hs.nonempty,
      fun eid heid => hold eid (hs.issued eid heid), ?_, hs.nodup⟩
    intro c other eid hc hid
    rcases calls_begin h hc with ⟨-, rfl⟩ | ⟨-, hc⟩
    · exact fun heid => (hnew eid hid).1 (hs.issued eid heid)
    · exact hs.unpending c other eid hc hid
  | performs client call he hcall hs' =>
    subst hs'
    exact traced_performs hs hcall (hcalls client call hcall)
  | shrinks hstore hcalls hissued =>
    rw [hs.note_of_records (hstore t)]
    refine ⟨inv_shrink hs.ids hstore hcalls hissued, hs.record_of_records (hstore t),
      hs.nonempty, fun eid heid => hissued ▸ hs.issued eid heid, ?_, hs.nodup⟩
    intro c other eid hc hid
    exact hs.unpending c other eid (hcalls ▸ hc) hid

/-! ## Runs from an initialisation -/

def Wins (cfg : Config) (t : String) (s : State ν) (client : Nat) (eid : String) : Prop :=
  ∃ word expiry old, s.calls client = some (.reopenTask t word expiry eid) ∧
    (taskReopen cfg t eid word (expiry.getD (-1)) s.store).1 = .reopened eid old

def Attempts (t : String) (s : State ν) (client : Nat) (eid : String) : Prop :=
  ∃ word expiry, s.calls client = some (.reopenTask t word expiry eid) ∧ expiry ≠ some 0

def SettledBetween (cfg : Config) (t : String) (s : State ν) (es : List (Event ν)) : Prop :=
  ∃ fs gs client updates expiry u u', es = fs ++ .proceed client :: gs ∧
    run (step cfg) s fs = some u ∧ u.calls client = some (.updateTask t updates expiry) ∧
    step cfg u (.proceed client) = some u' ∧ terminalNow cfg u.store t = false ∧
    terminalNow cfg u'.store t = true

theorem callsTrace_run (hs : CallsTrace cfg t s) (hes : ∀ e ∈ es, Traces cfg t e)
    (hrun : run (step cfg) s es = some u) :
    CallsTrace cfg t u := by
  apply run_invariant_mem _ hs hes hrun
  intro v e v' hv he hstep
  exact callsTrace_step hv he hstep

theorem wins_of_attempts (hexpire : 0 < cfg.defaultExpireTime) (hs : CallsTrace cfg t s)
    (hattempts : Attempts t s client eid) (hterm : terminalNow cfg s.store t = true)
    (hes : ∀ e ∈ es, Traces cfg t e)
    (hfree : Along (step cfg) (fun v e => uncontested t v e = true) s es)
    (hrun : run (step cfg) s es = some u) (hlives : (getTask t u.store).isSome = true) :
    Wins cfg t u client eid := by
  obtain ⟨word, expiry, hcall, hexpiry⟩ := hattempts
  have hend : CallsTrace cfg t u ∧ TerminalOrGone cfg t u ∧
      u.calls client = some (.reopenTask t word expiry eid) := by
    have hG := (along_of_forall_mem (fun e he _ => hes e he) s).and hfree
    apply run_invariant_along _ ⟨hs, Or.inr hterm, hcall⟩ hG hrun
    intro v e v' hv he hstep
    exact ⟨callsTrace_step hv.1 he.1 hstep, terminalOrGone_step hv.1 hv.2.1 he.1 he.2 hstep,
      calls_uncontested hv.2.2 he.1 he.2 hstep⟩
  obtain ⟨-, hgone | hnow, hcall'⟩ := hend
  · simp [hgone] at hlives
  · obtain ⟨old, hold⟩ := reopened_of_terminalNow hexpire eid word hexpiry hnow
    exact ⟨word, expiry, old, hcall', hold⟩

theorem terminalNow_after_wins (hs : CallsTrace cfg t s) (hwins : Wins cfg t s client eid)
    (h : step cfg s (.proceed client) = some s') : terminalNow cfg s'.store t ≠ true := by
  obtain ⟨word, expiry, old, hcall, hreply⟩ := hwins
  have htraces : CallTraces cfg t (.reopenTask t word expiry eid) := hs client _ hcall
  simp only [step, hcall, Option.some.injEq] at h
  subst h
  rcases reopen_spec cfg s.store t eid word (expiry.getD (-1)) with
    ⟨current, -, -, -, hw⟩ | ⟨hnot, -⟩
  · have hnow := hw.terminalNow cfg
    rw [status_reopened] at hnow
    simp [perform, hnow, Json.orEmpty, isTerminal, htraces.1]
  · exact absurd hreply (hnot eid old)

omit [DecidableEq ν] in
theorem terminalNow_of_wins (hwins : Wins cfg t s client eid) :
    terminalNow cfg s.store t = true := by
  obtain ⟨word, expiry, old, -, hreply⟩ := hwins
  rcases reopen_spec cfg s.store t eid word (expiry.getD (-1)) with
    ⟨current, hcur, hterm, -⟩ | ⟨hnot, -⟩
  · simpa [terminalNow, hcur] using hterm
  · exact absurd hreply (hnot eid old)

theorem settledBetween_of_wins {other : Nat} {eid' : String} (hs : CallsTrace cfg t s)
    (hwins : Wins cfg t s client eid) (h : step cfg s (.proceed client) = some s')
    (hes : ∀ e ∈ es, Traces cfg t e) (hrun : run (step cfg) s' es = some u)
    (hwins' : Wins cfg t u other eid') :
    SettledBetween cfg t s' es := by
  have hs' : CallsTrace cfg t s' := callsTrace_step hs (by trivial) h
  obtain ⟨fs, e, gs, v, v', rfl, hfs, hstep, hbefore, hafter⟩ :=
    exists_step_of_run (P := fun v => terminalNow cfg v.store t = true)
      (terminalNow_after_wins hs hwins h) hrun (terminalNow_of_wins hwins')
  have hv : CallsTrace cfg t v := by
    apply callsTrace_run hs' _ hfs
    intro f hf
    exact hes f (List.mem_append_left _ hf)
  have he : Traces cfg t e := hes e (by simp)
  obtain ⟨d, updates, expiry, rfl, hcall⟩ := settles_of_step hv he hstep hbefore hafter
  exact ⟨fs, gs, d, updates, expiry, v, v', rfl, hfs, hcall, hstep, by simpa using hbefore, hafter⟩

theorem traced_init {now : Nat} {life : Option Int} {status : String} {ifNotExists : Bool}
    {parent : Option String} {timestamp : String} (heid : eid ≠ "")
    (h : run (step cfg) (start now)
      [.initializeTask client t life status ifNotExists parent timestamp eid,
        .proceed client] = some s) :
    Traced t ⟨s, [eid]⟩ ∧ CallsTrace cfg t s := by
  have hinv : Inv s := by
    apply run_invariant_mem (P := KeepsId) _ (inv_start now) (by simp [KeepsId]) h
    intro u e u' hu he hstep
    exact (inv_step cfg hu he hstep).1
  obtain ⟨s₁, hbegin, hrest⟩ := run_cons_eq_some.mp h
  obtain ⟨s₂, hproceed, hend⟩ := run_cons_eq_some.mp hrest
  obtain rfl : s₂ = s := by simpa using hend
  simp only [step, begin, start, Call.executionId, List.not_mem_nil, if_false,
    Option.some.injEq] at hbegin
  subst hbegin
  simp only [step, Function.update_self, Option.some.injEq] at hproceed
  subst hproceed
  have hidle : ∀ c call, Function.update (Function.update (fun _ => none) client
      (some (Call.initializeTask t life status ifNotExists parent timestamp eid)))
      client none c ≠ some (call : Call ν) := by
    intro c call
    by_cases hc : c = client <;> simp [hc]
  refine ⟨⟨hinv, ?_, by simpa using heid.symm, by simp, ?_, by simp⟩, ?_⟩
  · intro record hrecord
    refine ⟨[], eid, rfl, ?_⟩
    rcases taskInit_spec (ν := ν) (initialData timestamp status parent)
      (life.getD cfg.defaultExpireTime) t ifNotExists status (parent.getD "") eid
      ⟨now, fun _ => none, fun _ => none, fun _ => none⟩ with hsame | ⟨-, hw⟩
    · simp only [perform, hsame] at hrecord
      simp [getTask] at hrecord
    · simp only [perform, hw.getTask_self, Option.some.injEq] at hrecord
      subst hrecord
      refine ⟨by simp [Fields.recode], ?_⟩
      cases parent <;> simp [Fields.recode, Fields.set, initialData, traceOf]
  · intro c call x hc
    exact absurd hc (hidle c call)
  · intro c call hc
    exact absurd hc (hidle c call)

/-- Over every interleaving of reopenings and updates after an initialisation, the record
has the trace of its generations; a terminal record is reopened by an attempt that no other
one contests; and between two reopenings an update makes it terminal again. -/
theorem reopen_one_winner (cfg : Config) (hexpire : 0 < cfg.defaultExpireTime) (now client : Nat)
    (t : String) (life : Option Int) (status : String) (ifNotExists : Bool)
    (parent : Option String) (timestamp eid : String) (heid : eid ≠ "") (s₀ : State ν)
    (hinit : run (step cfg) (start now)
      [.initializeTask client t life status ifNotExists parent timestamp eid,
        .proceed client] = some s₀)
    (es : List (Event ν)) (htraces : ∀ e ∈ es, Traces cfg t e) (s : Generations ν)
    (hrun : run (generationStep cfg t) ⟨s₀, [eid]⟩ es = some s) :
    (∀ record, getTask t s.base.store = some record → ∃ earlier cur, s.ids = earlier ++ [cur] ∧
        s.ids.Nodup ∧ record "execution_id" = some (.str cur) ∧
        record "previous_execution_ids" = traceOf earlier) ∧
      (∀ c gen fs u, Attempts t s.base c gen → terminalNow cfg s.base.store t = true →
        (∀ e ∈ fs, Traces cfg t e) →
        Along (step cfg) (fun v e => uncontested t v e = true) s.base fs →
        run (step cfg) s.base fs = some u → (getTask t u.store).isSome = true →
        Wins cfg t u c gen) ∧
      ∀ c d gen gen' s' fs u, Wins cfg t s.base c gen →
        step cfg s.base (.proceed c) = some s' → (∀ e ∈ fs, Traces cfg t e) →
        run (step cfg) s' fs = some u → Wins cfg t u d gen' → SettledBetween cfg t s' fs := by
  have hend : Traced t s ∧ CallsTrace cfg t s.base := by
    apply run_invariant_mem (I := fun u => Traced t u ∧ CallsTrace cfg t u.base) _
      (traced_init heid hinit) htraces hrun
    intro u e u' hu he hstep
    refine ⟨traced_step hu.1 hu.2 he hstep, ?_⟩
    obtain ⟨base, hbase, rfl⟩ := Option.map_eq_some_iff.mp hstep
    exact callsTrace_step hu.2 he hbase
  obtain ⟨htraced, hcalls⟩ := hend
  refine ⟨?_, ?_, ?_⟩
  · intro record hrecord
    obtain ⟨earlier, cur, hids, hid, hprev⟩ := htraced.record record hrecord
    exact ⟨earlier, cur, hids, htraced.nodup, hid, hprev⟩
  · intro c gen fs u hattempts hterm hfs hfree hrun hlives
    exact wins_of_attempts hexpire hcalls hattempts hterm hfs hfree hrun hlives
  · intro c d gen gen' s' fs u hwins hstep hfs hrun hwins'
    exact settledBetween_of_wins hcalls hwins hstep hfs hrun hwins'

def newTask : List (Event Int) :=
  [.initializeTask 0 "t" none "pending" true none "2026-01-01T00:00:00+00:00" "exec-1", .proceed 0]

def settleAndReopen (expiry : Option Int) (eid : String) : List (Event Int) :=
  [.updateTask 0 "t" (setStatus "completed") none false, .proceed 0,
    .reopenTask 1 "t" "pending" expiry eid]

def twice : List (Event Int) :=
  settleAndReopen none "exec-2" ++ .proceed 1 :: settleAndReopen none "exec-3"

def reopenedTwice : Generations Int :=
  replay (generationStep standard "t") ⟨replay (step standard) (start 0) newTask, ["exec-1"]⟩ twice

theorem reopen_one_winner_twice :
    (∃ earlier cur, reopenedTwice.ids = earlier ++ [cur] ∧ reopenedTwice.ids.Nodup ∧
        field reopenedTwice.base.store "t" "execution_id" = some (.str cur) ∧
        field reopenedTwice.base.store "t" "previous_execution_ids" = traceOf earlier) ∧
      Wins standard "t" (replay (step standard) reopenedTwice.base [.advance 1000]) 1 "exec-3" ∧
      SettledBetween standard "t" (replay (step standard) reopenedTwice.base [.proceed 1])
        (settleAndReopen none "exec-4") := by
  have htraces : ∀ e ∈ twice, Traces standard "t" e := by
    simp [twice, settleAndReopen, Traces, setStatus, Fields.set, standard]
  have htraces' : ∀ e ∈ settleAndReopen none "exec-4", Traces standard "t" e := by
    simp [settleAndReopen, Traces, setStatus, Fields.set, standard]
  obtain ⟨hrecord, hattempt, hbetween⟩ := reopen_one_winner standard (by decide) 0 0 "t" none
    "pending" true none "2026-01-01T00:00:00+00:00" "exec-1" (by decide)
    (replay (step standard) (start 0) newTask) (run_eq_replay (by decide)) twice htraces
    reopenedTwice (run_eq_replay (by decide))
  refine ⟨hrecord _ rfl, ?_, ?_⟩
  · exact hattempt 1 "exec-3" [.advance 1000] _ ⟨"pending", none, rfl, by simp⟩ (by decide)
      (by simp [Traces]) (by decide) (run_eq_replay (by decide)) (by decide)
  · exact hbetween 1 1 "exec-3" "exec-4" _ (settleAndReopen none "exec-4") _
      ⟨"pending", none, .str "completed", rfl, rfl⟩ (step_eq_replay (by decide)) htraces'
      (run_eq_replay (by decide)) ⟨"pending", none, .str "completed", rfl, rfl⟩

/-- A reopening with an expiry of zero seconds raises on a terminal record. -/
theorem reopen_expiring_at_once :
    ∃ s : State Int,
      run (step standard) (start 0) (newTask ++ settleAndReopen (some 0) "exec-2") = some s ∧
        terminalNow standard s.store "t" = true ∧
        s.calls 1 = some (.reopenTask "t" "pending" (some 0) "exec-2") ∧
        (taskReopen standard "t" "exec-2" "pending" 0 s.store).1 = .raised := by
  exact ⟨_, run_eq_replay (by decide), by decide, rfl, rfl⟩

end Runs

end Orditect.TaskStore.Proofs
