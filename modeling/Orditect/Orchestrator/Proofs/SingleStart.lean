import Orditect.Executor.Proofs.Fencing
import Orditect.Orchestrator.Submit
import Orditect.TaskStore.Proofs.Generations
/-!
# One execution for each generation

`submit` reads that the task is pending, writes `queued` and starts the execution in three
separate steps, and nothing ties the write to what was read.  Two calls that overlap there
start two executions of one generation; calls that do not overlap start one.
-/

namespace Orditect.Orchestrator.Proofs

open Executor Executor.Proofs Support.LuaJson Support.Transition
open TaskStore (Store InitReply taskInit getTask field)

variable {ν : Type} {cfg : Config} {s s' : State ν} {x : Submission ν} {eid : String}

theorem generation_eq_some {s : Store ν} {g : String} :
    generation cfg s = some g ↔ field s cfg.taskId "execution_id" = some (.str g) := by
  unfold generation
  split
  · rename_i h
    simp [h]
  · rename_i hnot
    constructor
    · intro h
      exact absurd h.symm (Option.some_ne_none g)
    · intro h
      exact absurd h (hnot g)

theorem generation_of_same {s s' : Store ν} (h : SameGeneration cfg s s') {g : String}
    (hg : generation cfg s' = some g) : generation cfg s = some g :=
  generation_eq_some.mpr ((h.id g).mp (generation_eq_some.mp hg))

def Pending (cfg : Config) (s : Store ν) : Prop :=
  field s cfg.taskId "status" = some (.str TaskStatus.pending.value)

def noneStarting (s : State ν) : Bool := s.submissions.all fun x => x.pc != .createTask

section

variable [DecidableEq ν] [LuaNumber ν]

/-- The condition on a step: a call finds the task pending only when no other call has
found it so and not yet started its execution, and a new generation begins only when no
call is about to start one. -/
def apart (cfg : Config) (s : State ν) : Event ν → Bool
  | .proceed i =>
    match s.submissions[i]? with
    | some x =>
      x.pc != .transitionRead || status cfg s.base.store != some .pending ||
        s.submissions.all fun y => !y.pc.critical
    | none => true
  | .initializeTask i _ _ =>
    match s.submissions[i]? with
    | some x =>
      x.pc == .initializeTask true && (getTask cfg.taskId s.base.store).isSome ||
        noneStarting s
    | none => true
  | .other e =>
    e.executionId.isNone || !TaskStore.Proofs.terminalNow cfg.storage s.base.store cfg.taskId ||
      noneStarting s
  | _ => true

end

/-- An id that is still pending, or that a call is about to start, was not started. -/
structure Single (cfg : Config) (s : State ν) : Prop where
  current : ∀ g, generation cfg s.base.store = some g → g ∈ s.issued
  issued : ∀ g ∈ s.starts, g ∈ s.issued
  nodup : s.starts.Nodup
  pending : Pending cfg s.base.store → ∀ g, generation cfg s.base.store = some g → g ∉ s.starts
  critical : ∀ (i : Nat) (x : Submission ν), s.submissions[i]? = some x → x.pc.critical = true →
    ∀ g, generation cfg s.base.store = some g → g ∉ s.starts
  unique : ∀ (i j : Nat) (x y : Submission ν), s.submissions[i]? = some x →
    s.submissions[j]? = some y → x.pc.critical = true → y.pc.critical = true → i = j
  queued : ∀ (i : Nat) (x : Submission ν), s.submissions[i]? = some x → x.pc = .createTask →
    ¬Pending cfg s.base.store

def NoneEnters (s s' : State ν) : Prop :=
  ∀ (i : Nat) (x' : Submission ν), s'.submissions[i]? = some x' → x'.pc.critical = true →
    ∃ x : Submission ν, s.submissions[i]? = some x ∧ x.pc = x'.pc

theorem noneEnters_of_eq (h : s'.submissions = s.submissions) :
    NoneEnters s s' := by
  intro i x hx _
  exact ⟨x, h ▸ hx, rfl⟩

theorem getElem?_move {calls : List (Submission ν)} {i j : Nat} {y : Submission ν}
    (hy : (calls.set i x)[j]? = some y) : j = i ∧ y = x ∨ j ≠ i ∧ calls[j]? = some y := by
  by_cases hj : j = i
  · subst hj
    rw [List.getElem?_set_self'] at hy
    obtain ⟨_, _, rfl⟩ := Option.map_eq_some_iff.mp hy
    exact Or.inl ⟨rfl, rfl⟩
  · rw [List.getElem?_set_ne (Ne.symm hj)] at hy
    exact Or.inr ⟨hj, hy⟩

theorem noneEnters_set {i : Nat} (h : s'.submissions = s.submissions.set i x)
    (hx : x.pc.critical = false) :
    NoneEnters s s' := by
  intro j y hy hcritical
  rw [h] at hy
  rcases getElem?_move hy with ⟨-, rfl⟩ | ⟨-, hold⟩
  · simp [hx] at hcritical
  · exact ⟨y, hold, rfl⟩

theorem noneEnters_append (h : s'.submissions = s.submissions ++ [x]) (hx : x.pc.critical = false) :
    NoneEnters s s' := by
  intro j y hy hcritical
  rw [h] at hy
  rcases Nat.lt_or_ge j s.submissions.length with hj | hj
  · rw [List.getElem?_append_left hj] at hy
    exact ⟨y, hy, rfl⟩
  · rw [List.getElem?_append_right hj] at hy
    obtain rfl := List.mem_singleton.mp (List.mem_of_getElem? hy)
    simp [hx] at hcritical

section Keep

theorem Single.keep (hs : Single cfg s) (hstore : SameGeneration cfg s.base.store s'.base.store)
    (henters : NoneEnters s s') (hstarts : s'.starts = s.starts)
    (hissued : ∀ g ∈ s.issued, g ∈ s'.issued) : Single cfg s' := by
  have hgen : ∀ g, generation cfg s'.base.store = some g → generation cfg s.base.store = some g :=
    fun g hg => generation_of_same hstore hg
  refine ⟨?_, ?_, hstarts ▸ hs.nodup, ?_, ?_, ?_, ?_⟩
  · intro g hg
    exact hissued g (hs.current g (hgen g hg))
  · intro g hg
    exact hissued g (hs.issued g (hstarts ▸ hg))
  · intro hpending g hg
    rw [hstarts]
    exact hs.pending (hstore.pending hpending) g (hgen g hg)
  · intro i x' hx' hcritical g hg
    obtain ⟨x, hx, hpc⟩ := henters i x' hx' hcritical
    rw [hstarts]
    exact hs.critical i x hx (hpc ▸ hcritical) g (hgen g hg)
  · intro i j x' y' hx' hy' hcx hcy
    obtain ⟨x, hx, hpcx⟩ := henters i x' hx' hcx
    obtain ⟨y, hy, hpcy⟩ := henters j y' hy' hcy
    exact hs.unique i j x y hx hy (hpcx ▸ hcx) (hpcy ▸ hcy)
  · intro i x' hx' hcreate hpending
    obtain ⟨x, hx, hpc⟩ := henters i x' hx' (by rw [hcreate]; rfl)
    exact hs.queued i x hx (hpc.trans hcreate) (hstore.pending hpending)

theorem Single.opens (hs : Single cfg s) (hnew : eid ∉ s.issued)
    (hgen : generation cfg s'.base.store = some eid) (henters : NoneEnters s s')
    (hfree : noneStarting s = true) (hstarts : s'.starts = s.starts)
    (hissued : s'.issued = eid :: s.issued) : Single cfg s' := by
  have hfresh : ∀ g, generation cfg s'.base.store = some g → g ∉ s'.starts := by
    intro g hg hmem
    obtain rfl : eid = g := Option.some.inj (hgen.symm.trans hg)
    exact hnew (hs.issued eid (hstarts ▸ hmem))
  refine ⟨?_, ?_, hstarts ▸ hs.nodup, fun _ => hfresh, fun _ _ _ _ => hfresh, ?_, ?_⟩
  · intro g hg
    obtain rfl : eid = g := Option.some.inj (hgen.symm.trans hg)
    rw [hissued]
    exact List.mem_cons_self
  · intro g hg
    rw [hissued]
    exact List.mem_cons_of_mem _ (hs.issued g (hstarts ▸ hg))
  · intro i j x' y' hx' hy' hcx hcy
    obtain ⟨x, hx, hpcx⟩ := henters i x' hx' hcx
    obtain ⟨y, hy, hpcy⟩ := henters j y' hy' hcy
    exact hs.unique i j x y hx hy (hpcx ▸ hcx) (hpcy ▸ hcy)
  · intro i x' hx' hcreate
    obtain ⟨x, hx, hpc⟩ := henters i x' hx' (by rw [hcreate]; rfl)
    have hnot := List.all_eq_true.mp hfree x (List.mem_of_getElem? hx)
    simp [hpc, hcreate] at hnot

end Keep

theorem status_eq_pending {store : Store ν} :
    status cfg store = some .pending ↔ Pending cfg store := by
  unfold status Pending
  constructor
  · intro h
    unfold TaskStatus.ofField at h
    split at h <;> simp_all [TaskStatus.value]
  · intro h
    rw [h]
    rfl

theorem issue_eq_some (h : s.issue eid = some s') :
    eid ∉ s.issued ∧ s' = { s with issued := eid :: s.issued } := by
  unfold State.issue at h
  split at h
  · simp at h
  · rename_i hnew
    exact ⟨hnew, (Option.some.inj h).symm⟩

section Steps

variable [DecidableEq ν] [LuaNumber ν] {i : Nat}

omit [DecidableEq ν] in
theorem initializeTask_spec (ifNotExists : Bool) (parent : Option String) (timestamp eid : String)
    (store : Store ν) {reply : InitReply} {store' : Store ν}
    (h : initializeTask cfg ifNotExists parent timestamp eid store = (reply, store')) :
    store' = store ∨ (generation cfg store' = some eid ∧ Pending cfg store' ∧
      (ifNotExists = false ∨ getTask cfg.taskId store = none)) := by
  unfold initializeTask at h
  have hspec := TaskStore.Proofs.taskInit_spec (TaskStore.initialData timestamp
    TaskStatus.pending.value parent) cfg.storage.defaultExpireTime cfg.taskId ifNotExists
    TaskStatus.pending.value (parent.getD "") eid store
  rw [h] at hspec
  rcases hspec with hsame | ⟨hnew, hw⟩
  · exact Or.inl hsame
  · refine Or.inr ⟨generation_eq_some.mpr ?_, ?_, hnew⟩
    · rw [hw.field_self]
      simp [Fields.recode]
    · rw [Pending, hw.field_self]
      cases parent <;> simp [Fields.recode, TaskStore.initialData, Fields.set]

theorem created_not_critical (x : Submission ν) : x.created.critical = false := by
  unfold Submission.created
  split <;> rfl

structure Initializes (cfg : Config) (s s' : State ν) (ifNotExists : Bool) (eid : String) :
    Prop where
  new : eid ∉ s.issued
  enters : NoneEnters s s'
  starts : s'.starts = s.starts
  issued : s'.issued = eid :: s.issued
  executions : s'.base.executions = s.base.executions
  store : s'.base.store = s.base.store ∨
    generation cfg s'.base.store = some eid ∧ Pending cfg s'.base.store ∧
      (ifNotExists = false ∨ getTask cfg.taskId s.base.store = none)

theorem step_initializeTask {timestamp : String}
    (h : step cfg s (.initializeTask i timestamp eid) = some s') :
    ∃ x ifNotExists, s.submissions[i]? = some x ∧ x.pc = .initializeTask ifNotExists ∧
      Initializes cfg s s' ifNotExists eid := by
  cases hx : s.submissions[i]? with
  | none => simp [step, hx] at h
  | some x =>
    cases hpc : x.pc with
    | initializeTask ifNotExists =>
      simp only [step, hx, hpc] at h
      obtain ⟨hnew, rfl⟩ := issue_eq_some h
      cases hinit : initializeTask cfg ifNotExists x.parentTaskId timestamp eid s.base.store with
      | mk reply store =>
        have hpc' : (x.afterInit reply).critical = false := by
          cases reply with
          | written => exact created_not_critical x
          | skipped | raised => rfl
        exact ⟨x, ifNotExists, rfl, hpc, hnew, noneEnters_set rfl hpc', rfl, rfl, rfl,
          initializeTask_spec _ _ _ _ _ hinit⟩
    | _ => simp [step, hx, hpc] at h

theorem single_initializeTask (hs : Single cfg s) {timestamp : String}
    (hapart : apart cfg s (.initializeTask i timestamp eid) = true)
    (h : step cfg s (.initializeTask i timestamp eid) = some s') : Single cfg s' := by
  obtain ⟨x, ifNotExists, hx, hpc, hinit⟩ := step_initializeTask h
  rcases hinit.store with hsame | ⟨hgen, -, hopens⟩
  · exact hs.keep (hsame ▸ .refl cfg s.base.store) hinit.enters hinit.starts
      (fun g hg => hinit.issued ▸ List.mem_cons_of_mem _ hg)
  · have hfree : noneStarting s = true := by
      rcases hopens with rfl | hmissing
      · simpa [apart, hx, hpc] using hapart
      · simpa [apart, hx, hpc, hmissing] using hapart
    exact hs.opens hinit.new hgen hinit.enters hfree hinit.starts hinit.issued

omit [DecidableEq ν] in
theorem reopenTask_spec (cfg : Config) (eid word : String) (expiry : Option Int) (store : Store ν) :
    (reopenTask cfg eid word expiry store).2 = store ∨
      (generation cfg (reopenTask cfg eid word expiry store).2 = some eid ∧
        field (reopenTask cfg eid word expiry store).2 cfg.taskId "status" = some (.str word) ∧
        TaskStore.Proofs.terminalNow cfg.storage store cfg.taskId = true) := by
  rcases TaskStore.Proofs.reopen_spec cfg.storage store cfg.taskId eid word (expiry.getD (-1)) with
    ⟨current, hcur, hterm, -, hw⟩ | ⟨-, hsame⟩
  · right
    refine ⟨generation_eq_some.mpr ?_, ?_,
      by simpa [TaskStore.Proofs.terminalNow, hcur] using hterm⟩
    · exact (hw.field_self _).trans (TaskStore.Proofs.executionId_reopened _ _ _ _ _)
    · exact (hw.field_self _).trans (TaskStore.Proofs.status_reopened _ _ _ _ _)
  · exact Or.inl hsame

theorem single_other (hs : Single cfg s) {e : Executor.Event ν}
    (hapart : apart cfg s (.other e) = true) (h : step cfg s (.other e) = some s') :
    Single cfg s' := by
  cases hid : e.executionId with
  | none =>
    simp only [step, hid] at h
    obtain ⟨base, hbase, rfl⟩ := Option.map_eq_some_iff.mp h
    rcases step_store hbase with hsame | ⟨eid, word, expiry, heid, -⟩
    · exact hs.keep hsame (noneEnters_of_eq rfl) rfl (fun _ hg => hg)
    · simp [hid] at heid
  | some eid =>
    simp only [step, hid] at h
    obtain ⟨base, hbase, hissue⟩ := Option.bind_eq_some_iff.mp h
    obtain ⟨hnew, rfl⟩ := issue_eq_some hissue
    have hissued : ∀ g ∈ s.issued, g ∈ eid :: s.issued := fun g hg => List.mem_cons_of_mem _ hg
    rcases step_store hbase with hsame | ⟨eid', word, expiry, heid, hstore⟩
    · exact hs.keep hsame (noneEnters_of_eq rfl) rfl hissued
    · obtain rfl : eid = eid' := Option.some.inj (hid.symm.trans heid)
      rcases reopenTask_spec cfg eid word expiry s.base.store with hsame | ⟨hgen, -, hterm⟩
      · have hkept : SameGeneration cfg s.base.store base.store := by
          rw [hstore, hsame]
          exact .refl cfg s.base.store
        exact hs.keep hkept (noneEnters_of_eq rfl) rfl hissued
      · have hfree : noneStarting s = true := by
          simpa [apart, hid, hterm] using hapart
        rw [← hstore] at hgen
        exact hs.opens hnew hgen (noneEnters_of_eq rfl) hfree rfl rfl

omit [DecidableEq ν] [LuaNumber ν] in
theorem single_enters (hs : Single cfg s) (hpending : Pending cfg s.base.store)
    (hfree : (s.submissions.all fun y => !y.pc.critical) = true) :
    Single cfg (s.move i x .transitionWrite) := by
  have honly : ∀ {j : Nat} {y : Submission ν},
      (s.move i x .transitionWrite).submissions[j]? = some y → y.pc.critical = true →
      j = i ∧ y.pc = .transitionWrite := by
    intro j y hy hcritical
    rcases getElem?_move hy with ⟨hj, rfl⟩ | ⟨-, hold⟩
    · exact ⟨hj, rfl⟩
    · have hnot := List.all_eq_true.mp hfree y (List.mem_of_getElem? hold)
      simp [hcritical] at hnot
  refine ⟨hs.current, hs.issued, hs.nodup, hs.pending, ?_, ?_, ?_⟩
  · intro j y hy hcritical
    exact hs.pending hpending
  · intro j k y z hy hz hcy hcz
    exact (honly hy hcy).1.trans (honly hz hcz).1.symm
  · intro j y hy hcreate
    have hpc := (honly hy (by rw [hcreate]; rfl)).2
    simp [hcreate] at hpc

theorem single_queues (hs : Single cfg s) (hx : s.submissions[i]? = some x)
    (hpc : x.pc = .transitionWrite) {store : Store ν}
    (hwrite : updateTask cfg [("status", .str TaskStatus.queued.value)] s.base.store =
      (.ok, store)) (hsame : SameGeneration cfg s.base.store store) :
    Single cfg ({ s with base := { s.base with store := store } }.move i x .createTask) := by
  have hnot : ¬Pending cfg store := by
    intro hpending
    have hqueued := (status_of_ok hwrite).symm.trans hpending
    simp [TaskStatus.value] at hqueued
  have hcritical : x.pc.critical = true := by rw [hpc]; rfl
  have hgen : ∀ g, generation cfg store = some g → generation cfg s.base.store = some g :=
    fun g hg => generation_of_same hsame hg
  -- whoever is critical now was so before
  have hbefore : ∀ {j : Nat} {y : Submission ν},
      (s.submissions.set i { x with pc := .createTask })[j]? = some y → y.pc.critical = true →
      ∃ z : Submission ν, s.submissions[j]? = some z ∧ z.pc.critical = true := by
    intro j y hy hcy
    rcases getElem?_move hy with ⟨rfl, -⟩ | ⟨-, hold⟩
    · exact ⟨x, hx, hcritical⟩
    · exact ⟨y, hold, hcy⟩
  refine ⟨fun g hg => hs.current g (hgen g hg), hs.issued, hs.nodup,
    fun hpending => absurd hpending hnot, ?_, ?_, fun _ _ _ _ => hnot⟩
  · intro j y _ _ g hg
    exact hs.critical i x hx hcritical g (hgen g hg)
  · intro j k y z hy hz hcy hcz
    obtain ⟨y', hy', hcy'⟩ := hbefore hy hcy
    obtain ⟨z', hz', hcz'⟩ := hbefore hz hcz
    exact hs.unique j k y' z' hy' hz' hcy' hcz'

omit [DecidableEq ν] [LuaNumber ν] in
theorem single_starts (hs : Single cfg s) (hx : s.submissions[i]? = some x)
    (hpc : x.pc = .createTask) {base : Executor.State ν}
    (hbegin : begin cfg true x.timed s.base = some base) :
    Single cfg { s.move i x .ended with
      base := base
      starts := s.starts ++ (generation cfg s.base.store).toList } := by
  have hstore := begin_store hbegin
  have hcritical : x.pc.critical = true := by rw [hpc]; rfl
  obtain ⟨g, hg⟩ : ∃ g, generation cfg s.base.store = some g := by
    unfold begin at hbegin
    split at hbegin
    · rename_i birth hid
      exact ⟨birth, generation_eq_some.mpr hid⟩
    · simp at hbegin
  have hfresh : g ∉ s.starts := hs.critical i x hx hcritical g hg
  have hnot : ¬Pending cfg s.base.store := hs.queued i x hx hpc
  -- no call is critical any more
  have hnone : ∀ {j : Nat} {y : Submission ν},
      (s.submissions.set i { x with pc := .ended })[j]? = some y → y.pc.critical = false := by
    intro j y hy
    rcases getElem?_move hy with ⟨-, rfl⟩ | ⟨hj, hold⟩
    · rfl
    · cases hcy : y.pc.critical with
      | false => rfl
      | true => exact absurd (hs.unique j i y x hold hx hcy hcritical) hj
  refine ⟨?_, ?_, ?_, ?_, ?_, ?_, ?_⟩
  · intro g' hg'
    rw [hstore] at hg'
    exact hs.current g' hg'
  · intro g' hg'
    simp only [hg, Option.toList_some, List.mem_append, List.mem_singleton] at hg'
    rcases hg' with hold | rfl
    · exact hs.issued g' hold
    · exact hs.current g' hg
  · simpa [hg] using hs.nodup.concat hfresh
  · intro hpending
    exact absurd (hstore ▸ hpending) hnot
  · intro j y hy hcy
    simp [hnone hy] at hcy
  · intro j k y z hy _ hcy
    simp [hnone hy] at hcy
  · intro j y hy hcreate
    have hcy := hnone hy
    rw [hcreate] at hcy
    exact absurd hcy (by simp [SubmitPc.critical])

/-- What the next step of a call of `submit` does.  Neither of its two writes touches the
execution id. -/
inductive Proceeds (cfg : Config) (s : State ν) (i : Nat) (x : Submission ν) : State ν → Prop
  | calm {pc : SubmitPc} (hcalm : pc.critical = false) : Proceeds cfg s i x (s.move i x pc)
  | describes {reply : TaskStore.UpdateReply} {store : Store ν} {pc : SubmitPc}
      (hcalm : pc.critical = false)
      (hwrite : updateTask cfg [("metadata", x.metadata.getD .null)] s.base.store = (reply, store))
      (hsame : SameGeneration cfg s.base.store store) :
      Proceeds cfg s i x ({ s with base := { s.base with store := store } }.move i x pc)
  | enters (hpc : x.pc = .transitionRead) (hstatus : status cfg s.base.store = some .pending) :
      Proceeds cfg s i x (s.move i x .transitionWrite)
  | queues {reply : TaskStore.UpdateReply} {store : Store ν} {pc : SubmitPc}
      (hpc : x.pc = .transitionWrite)
      (hwrite : updateTask cfg [("status", .str TaskStatus.queued.value)] s.base.store =
        (reply, store))
      (hsame : SameGeneration cfg s.base.store store)
      (hnext : reply = .ok ∧ pc = .createTask ∨ pc = .ended) :
      Proceeds cfg s i x ({ s with base := { s.base with store := store } }.move i x pc)
  | starts {base : Executor.State ν} (hpc : x.pc = .createTask)
      (hbegin : begin cfg true x.timed s.base = some base) :
      Proceeds cfg s i x { s.move i x .ended with
        base := base
        starts := s.starts ++ (generation cfg s.base.store).toList }

theorem step_proceed (h : step cfg s (.proceed i) = some s') :
    ∃ x, s.submissions[i]? = some x ∧ Proceeds cfg s i x s' := by
  cases hx : s.submissions[i]? with
  | none => simp [step, hx] at h
  | some x =>
    refine ⟨x, rfl, ?_⟩
    cases hpc : x.pc with
    | createTask =>
      simp only [step, hx, hpc] at h
      obtain ⟨base, hbegin, rfl⟩ := Option.map_eq_some_iff.mp h
      exact .starts hpc hbegin
    | readExisting =>
      simp only [step, hx, hpc, Submission.next] at h
      split at h
      · obtain rfl := Option.some.inj h
        exact .calm (created_not_critical x)
      · obtain rfl := Option.some.inj h
        exact .calm rfl
    | writeMetadata =>
      have hown : OwnWrite [("metadata", x.metadata.getD .null)] :=
        ⟨rfl, (Option.some_ne_none _).symm⟩
      simp only [step, hx, hpc, Submission.next] at h
      split at h
      all_goals
        rename_i hwrite
        obtain rfl := Option.some.inj h
        exact .describes rfl hwrite (writes_updateTask hown hwrite).sameGeneration
    | transitionRead =>
      simp only [step, hx, hpc, Submission.next] at h
      split at h
      · rename_i from_ hstatus
        obtain rfl := Option.some.inj h
        by_cases hallowed : from_.allowedTransitions.contains .queued = true
        · obtain rfl : from_ = .pending := by
            cases from_ <;> simp [TaskStatus.allowedTransitions] at hallowed ⊢
          exact .enters hpc hstatus
        · simp only [hallowed]
          exact .calm rfl
      · obtain rfl := Option.some.inj h
        exact .calm rfl
    | transitionWrite =>
      have hown : OwnWrite [("status", (Json.str TaskStatus.queued.value : Json ν))] :=
        ⟨rfl, by simp [TaskStatus.value]⟩
      simp only [step, hx, hpc, Submission.next] at h
      split at h
      · rename_i hwrite
        obtain rfl := Option.some.inj h
        exact .queues hpc hwrite (writes_updateTask hown hwrite).sameGeneration (.inl ⟨rfl, rfl⟩)
      · rename_i hwrite
        obtain rfl := Option.some.inj h
        exact .queues hpc hwrite (writes_updateTask hown hwrite).sameGeneration (.inr rfl)
    | initializeTask ifNotExists | ended => simp [step, hx, hpc, Submission.next] at h

theorem single_proceed (hs : Single cfg s) (hapart : apart cfg s (.proceed i) = true)
    (h : step cfg s (.proceed i) = some s') : Single cfg s' := by
  obtain ⟨x, hx, hproceeds⟩ := step_proceed h
  cases hproceeds with
  | calm hcalm =>
    exact hs.keep (.refl cfg s.base.store) (noneEnters_set rfl hcalm) rfl (fun _ hg => hg)
  | describes hcalm _ hsame =>
    exact hs.keep hsame (noneEnters_set rfl hcalm) rfl (fun _ hg => hg)
  | enters hpc hstatus =>
    simp only [apart, hx, hpc, hstatus] at hapart
    exact single_enters hs (status_eq_pending.mp hstatus) (by simpa using hapart)
  | queues hpc hwrite hsame hnext =>
    rcases hnext with ⟨rfl, rfl⟩ | rfl
    · exact single_queues hs hx hpc hwrite hsame
    · exact hs.keep hsame (noneEnters_set rfl rfl) rfl (fun _ hg => hg)
  | starts hpc hbegin => exact single_starts hs hx hpc hbegin

theorem single_step (hs : Single cfg s) {e : Event ν} (hapart : apart cfg s e = true)
    (h : step cfg s e = some s') : Single cfg s' := by
  cases e with
  | submit ifNotExists metadata parent timed =>
    obtain rfl := Option.some.inj h
    refine hs.keep (.refl cfg s.base.store) (noneEnters_append rfl ?_) rfl (fun _ hg => hg)
    cases ifNotExists <;> rfl
  | initializeTask i timestamp eid => exact single_initializeTask hs hapart h
  | proceed i => exact single_proceed hs hapart h
  | fails i =>
    obtain ⟨x, -, rfl⟩ := Option.map_eq_some_iff.mp h
    exact hs.keep (.refl cfg s.base.store) (noneEnters_set rfl rfl) rfl (fun _ hg => hg)
  | other e => exact single_other hs hapart h

end Steps

theorem single_start (cfg : Config) (store : Store ν) : Single cfg (start cfg store) := by
  refine ⟨?_, ?_, ?_, ?_, ?_, ?_, ?_⟩
  · intro g hg
    have hg' : generation cfg store = some g := hg
    simp [start, hg']
  all_goals simp [start]

/-- In every run of submits, executions, cancellations and reopenings that do not overlap
between finding the task pending and starting its execution, no execution id is started
twice. -/
theorem one_start_per_generation [DecidableEq ν] [LuaNumber ν] (cfg : Config) (store : Store ν)
    (es : List (Event ν))
    (hapart : Along (step cfg) (fun s e => apart cfg s e = true) (start cfg store) es) (s : State ν)
    (hrun : run (step cfg) (start cfg store) es = some s) (eid : String) :
    s.starts.count eid ≤ 1 := by
  have hs : Single cfg s := by
    apply run_invariant_along _ (single_start cfg store) hapart hrun
    intro u e u' hu hG hstep
    exact single_step hu hG hstep
  exact List.nodup_iff_count_le_one.mp hs.nodup eid

def pendingTask : Store Int :=
  (TaskStore.taskInit (TaskStore.initialData "2026-01-01T00:00:00+00:00" "pending" none) 604800 "t"
    true "pending" "" "exec-1" ⟨0, fun _ => none, fun _ => none, fun _ => none⟩).2

def scheduled (i : Nat) : List (Event Int) :=
  [.submit false none none false, .proceed i, .proceed i, .proceed i, .proceed i]

def resubmitted : List (Event Int) :=
  scheduled 0 ++ [.other (.proceed 0 .proceed), .other (.proceed 0 .proceed)] ++
    [.submit false none none false, .proceed 1,
      .initializeTask 1 "2026-01-01T00:01:00+00:00" "exec-2", .proceed 1, .proceed 1, .proceed 1]

theorem one_start_per_generation_resubmitted :
    (replay (step plain) (start plain pendingTask) resubmitted).starts.count "exec-2" ≤ 1 :=
  one_start_per_generation plain pendingTask resubmitted (by decide) _ (run_eq_replay (by decide))
    "exec-2"

def bothFindPending : List (Event Int) :=
  [.submit false none none false, .submit false none none false, .proceed 0, .proceed 1,
    .proceed 0, .proceed 1, .proceed 0, .proceed 1, .proceed 0, .proceed 1]

/-- Two executions of one generation. -/
theorem started_twice :
    run (step plain) (start plain pendingTask) bothFindPending =
        some (replay (step plain) (start plain pendingTask) bothFindPending) ∧
      (replay (step plain) (start plain pendingTask) bothFindPending).starts =
        ["exec-1", "exec-1"] ∧
      ((replay (step plain) (start plain pendingTask) bothFindPending).base.executions.map
        fun x => x.birth) = ["exec-1", "exec-1"] :=
  ⟨run_eq_replay (by decide), by decide, by decide⟩

end Orditect.Orchestrator.Proofs
