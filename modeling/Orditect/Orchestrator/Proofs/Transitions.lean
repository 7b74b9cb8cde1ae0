import Orditect.Orchestrator.Proofs.SingleStart
import Orditect.Orchestrator.Proofs.StatusMoves
/-!
# The status changes as the state machine allows

As long as an execution begins on a record that is not pending and does not fail while it is
queued, no two calls of `submit` queue one generation, and no execution outlives its
generation, every change of the status is one of `allowed_transitions`.  Each of the four is
needed.
-/

namespace Orditect.Orchestrator.Lifecycle.Proofs

open Executor Executor.Proofs Orchestrator.Proofs Support.LuaJson Support.Transition
open TaskStore (Store InitReply getTask field)

variable {ν : Type} {st st' : Option TaskStatus}

def quiet (s : State ν) : Bool :=
  s.base.executions.all fun x => !early x.pc && !deciding x.pc

section

variable [DecidableEq ν] [LuaNumber ν]

/-- The condition on a step: an execution begins on a record that is not pending, and does
not fail while it is queued; a call of `submit` finds the task pending only when no other
call is about to queue it; and a new generation begins only when no execution of an old one
can still write into it. -/
def orderly (cfg : Config) (s : State ν) : Event ν → Bool
  | .act (.proceed i) =>
    match s.submissions[i]? with
    | some x =>
      match x.pc with
      | .transitionRead => status cfg s.base.store != some .pending || noneQueueing s
      | .createTask => status cfg s.base.store != some .pending
      | _ => true
    | none => true
  | .act (.initializeTask i _ _) =>
    match s.submissions[i]? with
    | some x =>
      x.pc == .initializeTask true && (getTask cfg.taskId s.base.store).isSome || quiet s
    | none => true
  | .act (.other (.execute _ _)) => status cfg s.base.store != some .pending
  | .act (.other (.proceed i choice)) =>
    match s.base.executions[i]? with
    | some x =>
      !failsEarly cfg s.base.store x.pc choice || status cfg s.base.store != some .queued
    | none => true
  | .act (.other (.control j)) =>
    s.base.controls[j]? != some .rerun || status cfg s.base.store != some .pending
  | .act (.other (.reopenNode j eid)) => !reopens cfg s.base (.reopenNode j eid) || quiet s
  | .startMissing _ => status cfg s.base.store != some .pending
  | _ => true

end

/-! ## The system -/

/-- Every coroutine suits the status of the record, and one call of `submit` at most is about
to queue the task. -/
structure Coherent (cfg : Config) (s : State ν) (st : Option TaskStatus) : Prop where
  tracks : Tracks cfg s.base.store st
  current : ∀ g, generation cfg s.base.store = some g → g ∈ s.issued
  executions : ∀ x ∈ s.base.executions, Suits st x.pc
  queueing : ∀ (i : Nat) (x : Submission ν), s.submissions[i]? = some x → x.pc = .transitionWrite →
    st ≠ some .queued ∧ st ≠ some .running
  unique : ∀ (i j : Nat) (x y : Submission ν), s.submissions[i]? = some x →
    s.submissions[j]? = some y → x.pc = .transitionWrite → y.pc = .transitionWrite → i = j

def Follows (cfg : Config) (s s' : State ν) : Prop :=
  Lawful cfg s.base.store s'.base.store ∧ ∃ st', Coherent cfg s' st'

variable {eid : String} {store : Store ν} {cfg : Config}

section Keep

variable {cfg : Config} {s s' : State ν}

theorem Coherent.keep (hs : Coherent cfg s st) (htracks : Tracks cfg s'.base.store st')
    (hshift : Shift st st')
    (hgen : ∀ g, generation cfg s'.base.store = some g → generation cfg s.base.store = some g)
    (hexecutions : ∀ x ∈ s'.base.executions, x ∈ s.base.executions ∨ Suits st' x.pc)
    (henters : NoneEnters s s') (hissued : ∀ g ∈ s.issued, g ∈ s'.issued) : Follows cfg s s' := by
  have hbefore : ∀ {i : Nat} {y : Submission ν}, s'.submissions[i]? = some y →
      y.pc = .transitionWrite →
      ∃ x : Submission ν, s.submissions[i]? = some x ∧ x.pc = .transitionWrite := by
    intro i y hy hpc
    obtain ⟨x, hx, hsame⟩ := henters i y hy (by rw [hpc]; rfl)
    exact ⟨x, hx, hsame.trans hpc⟩
  refine ⟨hshift.lawful hs.tracks htracks, st', htracks, ?_, ?_, ?_, ?_⟩
  · intro g hg
    exact hissued g (hs.current g (hgen g hg))
  · intro x hx
    rcases hexecutions x hx with hold | hnew
    · exact (hs.executions x hold).shift hshift
    · exact hnew
  · intro i y hy hpc
    obtain ⟨x, hx, hpcx⟩ := hbefore hy hpc
    obtain ⟨hqueued, hrunning⟩ := hs.queueing i x hx hpcx
    exact ⟨hshift.queued hqueued, hshift.running hqueued hrunning⟩
  · intro i j y z hy hz hpcy hpcz
    obtain ⟨x, hx, hpcx⟩ := hbefore hy hpcy
    obtain ⟨x', hx', hpcx'⟩ := hbefore hz hpcz
    exact hs.unique i j x x' hx hx' hpcx hpcx'

theorem Coherent.idle (hs : Coherent cfg s st) (hstore : s'.base.store = s.base.store)
    (hexecutions : ∀ x ∈ s'.base.executions, x ∈ s.base.executions ∨ Suits st x.pc)
    (henters : NoneEnters s s') (hissued : ∀ g ∈ s.issued, g ∈ s'.issued) : Follows cfg s s' :=
  hs.keep (hstore ▸ hs.tracks) (.same st) (fun _ hg => hstore ▸ hg) hexecutions henters hissued

theorem Coherent.opens (hs : Coherent cfg s st) (hnew : eid ∉ s.issued)
    (htracks : Tracks cfg s'.base.store (some .pending))
    (hgen : generation cfg s'.base.store = some eid) (hquiet : quiet s = true)
    (hexecutions : s'.base.executions = s.base.executions) (henters : NoneEnters s s')
    (hissued : s'.issued = eid :: s.issued) : Follows cfg s s' := by
  constructor
  · -- the ids differ: the new one was not issued before
    intro old new _ _ _ hsame
    rw [generation_eq_some.mp hgen] at hsame
    exact absurd (hs.current eid (generation_eq_some.mpr hsame.symm)) hnew
  · refine ⟨some .pending, htracks, ?_, ?_, fun _ _ _ _ => ⟨by simp, by simp⟩, ?_⟩
    · intro g hg
      obtain rfl : eid = g := Option.some.inj (hgen.symm.trans hg)
      rw [hissued]
      exact List.mem_cons_self
    · intro x hx
      rw [hexecutions] at hx
      have hidle := List.all_eq_true.mp hquiet x hx
      rw [Bool.and_eq_true, Bool.not_eq_true', Bool.not_eq_true'] at hidle
      exact suits_idle hidle.1 hidle.2
    · intro i j y z hy hz hpcy hpcz
      obtain ⟨x, hx, hpcx⟩ := henters i y hy (by rw [hpcy]; rfl)
      obtain ⟨x', hx', hpcx'⟩ := henters j z hz (by rw [hpcz]; rfl)
      exact hs.unique i j x x' hx hx' (hpcx.trans hpcy) (hpcx'.trans hpcz)

end Keep

section Steps

variable [DecidableEq ν] [LuaNumber ν] {cfg : Config} {s s' : State ν} {i : Nat}
  {x : Submission ν}

theorem follows_initializeTask (hs : Coherent cfg s st) {timestamp : String}
    (horderly : orderly cfg s (.act (.initializeTask i timestamp eid)) = true)
    (h : Orchestrator.step cfg s (.initializeTask i timestamp eid) = some s') :
    Follows cfg s s' := by
  obtain ⟨x, ifNotExists, hx, hpc, hinit⟩ := step_initializeTask h
  rcases hinit.store with hsame | ⟨hgen, hpending, hopens⟩
  · exact hs.idle hsame (fun _ hy => Or.inl (hinit.executions ▸ hy)) hinit.enters
      (fun g hg => hinit.issued ▸ List.mem_cons_of_mem _ hg)
  · have hquiet : quiet s = true := by
      rcases hopens with rfl | hmissing
      · simpa [orderly, hx, hpc] using horderly
      · simpa [orderly, hx, hpc, hmissing] using horderly
    exact hs.opens hinit.new hpending hgen hquiet hinit.executions hinit.enters hinit.issued

omit [DecidableEq ν] [LuaNumber ν] in
theorem begin_executions {b b' : Executor.State ν} {here timed : Bool}
    (h : begin cfg here timed b = some b') :
    ∀ y ∈ b'.executions, y ∈ b.executions ∨ y.pc = .checkCancel := by
  unfold begin at h
  split at h
  · obtain rfl := Option.some.inj h
    intro y hy
    rcases List.mem_append.mp hy with hold | hnew
    · exact Or.inl hold
    · obtain rfl := List.mem_singleton.mp hnew
      exact Or.inr rfl
  · simp at h

omit [DecidableEq ν] [LuaNumber ν] in
theorem Coherent.begins (hs : Coherent cfg s st) (hst : status cfg s.base.store ≠ some .pending)
    (hstore : s'.base.store = s.base.store)
    (hexecutions : ∀ y ∈ s'.base.executions, y ∈ s.base.executions ∨ y.pc = .checkCancel)
    (henters : NoneEnters s s') (hissued : s'.issued = s.issued) : Follows cfg s s' := by
  rw [status_of_tracks hs.tracks] at hst
  refine hs.idle hstore ?_ henters (fun g hg => hissued ▸ hg)
  intro y hy
  rcases hexecutions y hy with hold | hnew
  · exact Or.inl hold
  · rw [hnew]
    exact Or.inr (suits_early hst rfl)

omit [DecidableEq ν] [LuaNumber ν] in
theorem follows_startMissing (hs : Coherent cfg s st)
    (hst : status cfg s.base.store ≠ some .pending) {starter : Starter}
    (h : startMissing s starter = some s') : Follows cfg s s' := by
  have hnew : ∀ (here timed : Bool) (b : Executor.State ν),
      ∀ y ∈ (register here timed b).executions,
      y ∈ b.executions ∨ y.pc = .checkCancel := by
    intro here timed b y hy
    rcases List.mem_append.mp hy with hold | hlast
    · exact Or.inl hold
    · obtain rfl := List.mem_singleton.mp hlast
      exact Or.inr rfl
  unfold startMissing at h
  split at h
  · obtain rfl := Option.some.inj h
    exact hs.begins hst rfl (hnew _ _ _) (noneEnters_of_eq rfl) rfl
  · split at h
    · split at h
      · obtain rfl := Option.some.inj h
        exact hs.begins hst rfl (hnew _ _ _) (noneEnters_set rfl rfl) rfl
      · simp at h
    · simp at h
  · split at h
    · obtain rfl := Option.some.inj h
      exact hs.begins hst rfl (hnew _ _ _) (noneEnters_of_eq rfl) rfl
    · simp at h

variable {base : Executor.State ν} {j : Nat}

theorem follows_proceed (hv : Vocabulary cfg) (hs : Coherent cfg s st) {k : Nat}
    {choice : Choice ν} (horderly : orderly cfg s (.act (.other (.proceed k choice))) = true)
    (h : Executor.proceed cfg k choice s.base = some base) :
    Follows cfg s { s with base := base } := by
  obtain ⟨y, y', e, hy, hnext, hstore, hexecutions, -⟩ := proceed_eq_some h
  have hearly : failsEarly cfg s.base.store y.pc choice = true → st ≠ some .queued := by
    intro hfails
    rw [← status_of_tracks hs.tracks]
    simpa [orderly, hy, hfails] using horderly
  obtain ⟨hpc, st', htracks, hshift, hsuits⟩ :=
    keeps_execution hv hs.tracks (hs.executions y (List.mem_of_getElem? hy)) hearly hnext
  have hgen : SameGeneration cfg s.base.store base.store := by
    rw [hstore]
    exact (writes_execution hnext).sameGeneration
  refine hs.keep (hstore ▸ htracks) hshift (fun _ hg => generation_of_same hgen hg) ?_
    (noneEnters_of_eq rfl) (fun _ hg => hg)
  intro z hz
  rw [hexecutions] at hz
  rcases List.mem_or_eq_of_mem_set hz with hold | rfl
  · exact Or.inl hold
  · exact Or.inr (hpc ▸ hsuits)

theorem follows_control (hv : Vocabulary cfg) (hs : Coherent cfg s st)
    (horderly : orderly cfg s (.act (.other (.control j))) = true)
    (h : Executor.step cfg s.base (.control j) = some base) :
    Follows cfg s { s with base := base } := by
  dsimp only [Executor.step] at h
  split at h
  · rename_i hrerun
    have hst : status cfg s.base.store ≠ some .pending := by
      simpa [orderly, hrerun] using horderly
    have hstore := begin_store h
    have hexecutions := begin_executions h
    exact hs.begins hst hstore hexecutions (noneEnters_of_eq rfl) rfl
  · obtain ⟨⟨c', store⟩, hnext, rfl⟩ := Option.map_eq_some_iff.mp h
    obtain ⟨st', htracks, hshift⟩ := shift_control hv hs.tracks hnext
    have hgen := (writes_control hnext).sameGeneration
    exact hs.keep htracks hshift (fun _ hg => generation_of_same hgen hg) (fun _ hy => Or.inl hy)
      (noneEnters_of_eq rfl) (fun _ hg => hg)
  · simp at h

theorem follows_reopenNode (hs : Coherent cfg s st)
    (horderly : orderly cfg s (.act (.other (.reopenNode j eid))) = true)
    (h : Executor.step cfg s.base (.reopenNode j eid) = some base)
    (hissue : { s with base := base }.issue eid = some s') : Follows cfg s s' := by
  obtain ⟨hnew, rfl⟩ := issue_eq_some hissue
  have hbase : base.store = (reopenTask cfg eid "pending" none s.base.store).2 ∧
      base.executions = s.base.executions := by
    dsimp only [Executor.step] at h
    split at h
    · split at h
      all_goals
        rename_i hreopen
        obtain rfl := Option.some.inj h
        exact ⟨(congrArg Prod.snd hreopen).symm, rfl⟩
    · simp at h
  rcases reopenTask_spec cfg eid "pending" none s.base.store with hsame | ⟨hgen, htracks, hterm⟩
  · exact hs.idle (hbase.1.trans hsame) (fun y hy => Or.inl (hbase.2 ▸ hy)) (noneEnters_of_eq rfl)
      (fun g hg => List.mem_cons_of_mem _ hg)
  · have hreopens : reopens cfg s.base (.reopenNode j eid) = true := by
      unfold TaskStore.Proofs.terminalNow at hterm
      split at hterm
      · simp at hterm
      · rename_i record hrecord
        simpa [reopens, field, hrecord] using hterm
    have hquiet : quiet s = true := by simpa [orderly, hreopens] using horderly
    rw [← hbase.1] at htracks hgen
    exact hs.opens hnew htracks hgen hquiet hbase.2 (noneEnters_of_eq rfl) rfl

theorem follows_other (hv : Vocabulary cfg) (hs : Coherent cfg s st) {e : Executor.Event ν}
    (horderly : orderly cfg s (.act (.other e)) = true)
    (h : step cfg s (.act (.other e)) = some s') : Follows cfg s s' := by
  have hidle : ∀ {base : Executor.State ν}, base.store = s.base.store →
      base.executions = s.base.executions → Follows cfg s { s with base := base } :=
    fun hstore hexecutions => hs.idle hstore (fun y hy => Or.inl (hexecutions ▸ hy))
      (noneEnters_of_eq rfl) (fun _ hg => hg)
  cases e with
  | reopenTask eid word expiry => exact absurd h.symm (Option.some_ne_none _)
  | reopenNode j eid =>
    obtain ⟨base, hbase, hissue⟩ := Option.bind_eq_some_iff.mp h
    exact follows_reopenNode hs horderly hbase hissue
  | execute here timed =>
    obtain ⟨base, hbase, rfl⟩ := Option.map_eq_some_iff.mp h
    have hst : status cfg s.base.store ≠ some .pending := by simpa [orderly] using horderly
    exact hs.begins hst (begin_store hbase) (begin_executions hbase) (noneEnters_of_eq rfl) rfl
  | proceed k choice =>
    obtain ⟨base, hbase, rfl⟩ := Option.map_eq_some_iff.mp h
    exact follows_proceed hv hs horderly hbase
  | control j =>
    obtain ⟨base, hbase, rfl⟩ := Option.map_eq_some_iff.mp h
    exact follows_control hv hs horderly hbase
  | cancel | terminate | rerun =>
    obtain rfl := Option.some.inj h
    exact hidle rfl rfl
  | controlFails j =>
    obtain ⟨base, hbase, rfl⟩ := Option.map_eq_some_iff.mp h
    obtain ⟨c, -, rfl⟩ := Option.map_eq_some_iff.mp hbase
    exact hidle rfl rfl
  | deadline j =>
    obtain ⟨base, hbase, rfl⟩ := Option.map_eq_some_iff.mp h
    dsimp only [Executor.step] at hbase
    split at hbase
    · obtain rfl := Option.some.inj hbase
      exact hidle rfl rfl
    · simp at hbase

/-! ## The calls of `submit` -/

omit [DecidableEq ν] [LuaNumber ν] in
theorem Coherent.enters (hs : Coherent cfg s st) (hst : st = some .pending)
    (hfree : noneQueueing s = true) : Follows cfg s (s.move i x .transitionWrite) := by
  refine ⟨(Shift.same st).lawful hs.tracks hs.tracks, st, hs.tracks, hs.current, hs.executions,
    ?_, ?_⟩
  · intro j y _ _
    simp [hst]
  · have honly : ∀ {j : Nat} {y : Submission ν},
        (s.move i x .transitionWrite).submissions[j]? = some y → y.pc = .transitionWrite →
        j = i := by
      intro j y hy hpc
      rcases getElem?_move hy with ⟨hj, -⟩ | ⟨-, hold⟩
      · exact hj
      · have hnot := List.all_eq_true.mp hfree y (List.mem_of_getElem? hold)
        simp [hpc] at hnot
    intro j k y z hy hz hpcy hpcz
    exact (honly hy hpcy).trans (honly hz hpcz).symm

section

variable (hv : Vocabulary cfg) (hs : Coherent cfg s st)
include hv hs

theorem Coherent.queues (hx : s.submissions[i]? = some x) (hpc : x.pc = .transitionWrite)
    {reply : TaskStore.UpdateReply}
    (hwrite : updateTask cfg [("status", .str TaskStatus.queued.value)]
      s.base.store = (reply, store)) (hsame : SameGeneration cfg s.base.store store)
    {pc : SubmitPc} (hpc' : pc ≠ .transitionWrite) :
    Follows cfg s ({ s with base := { s.base with store := store } }.move i x pc) := by
  have htracks := tracks_updateTask hv hs.tracks
    [("status", (.str TaskStatus.queued.value : Json ν))] (some .queued) rfl
  rw [hwrite] at htracks
  obtain ⟨hqueued, hrunning⟩ := hs.queueing i x hx hpc
  -- no other call stands where this one did
  have hnone : ∀ {j : Nat} {y : Submission ν},
      (s.submissions.set i { x with pc := pc })[j]? = some y → y.pc ≠ .transitionWrite := by
    intro j y hy hpcy
    rcases getElem?_move hy with ⟨-, rfl⟩ | ⟨hj, hold⟩
    · exact hpc' hpcy
    · exact hj (hs.unique j i y x hold hx hpcy hpc)
  have hcases : st = some .pending ∨ st.map (overwrite (some .queued)) = st := by
    cases st with
    | none => exact Or.inr rfl
    | some w => cases w <;> simp_all [overwrite, TaskStatus.isTerminal]
  refine ⟨?_, st.map (overwrite (some .queued)), htracks,
    fun g hg => hs.current g (generation_of_same hsame hg), ?_,
    fun j y hy hpcy => absurd hpcy (hnone hy),
    fun j k y z hy hz hpcy => absurd hpcy (hnone hy)⟩
  · apply lawful_of_tracks hs.tracks htracks
    intro a b ha hb hne
    rcases hcases with rfl | hsame
    · obtain rfl : b = .queued := (Option.some.inj hb).symm
      obtain rfl : a = .pending := (Option.some.inj ha).symm
      decide
    · rw [hsame, ha] at hb
      exact absurd (Option.some.inj hb).symm hne
  · intro y hy
    have hsuits := hs.executions y hy
    rcases hcases with rfl | hsame
    · exact ⟨fun hearly => absurd rfl (hsuits.early hearly),
        fun hdeciding => absurd rfl (hsuits.deciding hdeciding).1⟩
    · rw [hsame]
      exact hsuits

theorem follows_submission (horderly : orderly cfg s (.act (.proceed i)) = true)
    (h : Orchestrator.step cfg s (.proceed i) = some s') : Follows cfg s s' := by
  obtain ⟨x, hx, hproceeds⟩ := step_proceed h
  cases hproceeds with
  | calm hcalm =>
    exact hs.idle rfl (fun _ hy => Or.inl hy) (noneEnters_set rfl hcalm) (fun _ hg => hg)
  | describes hcalm hwrite hsame =>
    have htracks := tracks_updateTask_other hv hs.tracks
      (show [("metadata", x.metadata.getD .null)].lookup "status" = none from rfl)
    rw [hwrite] at htracks
    exact hs.keep htracks (.same st) (fun _ hg => generation_of_same hsame hg)
      (fun _ hy => Or.inl hy) (noneEnters_set rfl hcalm) (fun _ hg => hg)
  | enters hpc hstatus =>
    simp only [orderly, hx, hpc, hstatus] at horderly
    exact hs.enters ((status_of_tracks hs.tracks).symm.trans hstatus) (by simpa using horderly)
  | queues hpc hwrite hsame hnext =>
    refine hs.queues hv hx hpc hwrite hsame ?_
    rcases hnext with ⟨-, rfl⟩ | rfl <;> simp
  | starts hpc hbegin =>
    have hst : status cfg s.base.store ≠ some .pending := by
      simpa [orderly, hx, hpc] using horderly
    exact hs.begins hst (begin_store hbegin) (begin_executions hbegin) (noneEnters_set rfl rfl) rfl

theorem follows_step {e : Event ν} (horderly : orderly cfg s e = true)
    (h : step cfg s e = some s') : Follows cfg s s' := by
  cases e with
  | startMissing starter =>
    have hst : status cfg s.base.store ≠ some .pending := by simpa [orderly] using horderly
    dsimp only [step] at h
    split at h
    · simp at h
    · exact follows_startMissing hs hst h
  | advance ms =>
    obtain rfl := Option.some.inj h
    obtain ⟨st', htracks, hshift⟩ := shift_tick hs.tracks ms
    refine hs.keep htracks hshift (fun g hg => ?_) (fun _ hy => Or.inl hy) (noneEnters_of_eq rfl)
      (fun _ hg => hg)
    rw [generation_eq_some] at hg ⊢
    exact ((TaskStore.Proofs.shrinks_tick ms s.base.store).field hg _).symm.trans hg
  | act e =>
    cases e with
    | submit ifNotExists metadata parent timed =>
      obtain rfl := Option.some.inj h
      refine hs.idle rfl (fun _ hy => Or.inl hy) (noneEnters_append rfl ?_) (fun _ hg => hg)
      cases ifNotExists <;> rfl
    | initializeTask i timestamp eid => exact follows_initializeTask hs horderly h
    | proceed i => exact follows_submission hv hs horderly h
    | fails i =>
      obtain ⟨x, -, rfl⟩ := Option.map_eq_some_iff.mp h
      exact hs.idle rfl (fun _ hy => Or.inl hy) (noneEnters_set rfl rfl) (fun _ hg => hg)
    | other e => exact follows_other hv hs horderly h

end

end Steps

theorem coherent_start (h : Tracks cfg store st) :
    Coherent cfg (start cfg store) st := by
  refine ⟨h, ?_, ?_, ?_, ?_⟩
  · intro g hg
    have hg' : generation cfg store = some g := hg
    simp [start, hg']
  all_goals simp [start, Executor.start]

/-- In every orderly run on a record that is missing or has one of the six statuses, a step
that changes the status and keeps the execution id is a transition of the state machine. -/
theorem orderly_status_changes [DecidableEq ν] [LuaNumber ν] (cfg : Config)
    (hcfg : cfg.storage = defaultStorage) (store : Store ν) (hstore : ∃ st, Tracks cfg store st)
    (es : List (Event ν)) (e : Event ν)
    (horderly : Along (step cfg) (fun s e => orderly cfg s e = true) (start cfg store) (es ++ [e]))
    (s s' : State ν) (hrun : run (step cfg) (start cfg store) es = some s)
    (hstep : step cfg s e = some s') : Lawful cfg s.base.store s'.base.store := by
  have hv := vocabulary_defaultStorage hcfg
  obtain ⟨st, htracks⟩ := hstore
  obtain ⟨hes, he⟩ := horderly.of_append hrun
  obtain ⟨st', hs⟩ : ∃ st', Coherent cfg s st' := by
    apply run_invariant_along (I := fun u => ∃ st', Coherent cfg u st') _
      ⟨st, coherent_start htracks⟩ hes hrun
    rintro u f u' ⟨st₁, hu⟩ hG hstep'
    exact (follows_step hv hu hG hstep').2
  exact (follows_step hv hs he.1 hstep).1

def noTasks : Store Int := ⟨0, fun _ => none, fun _ => none, fun _ => none⟩

def withGovernor : Config := { plain with governor := true }

def await (choice : Choice Int) : Event Int := .act (.other (.proceed 0 choice))

def submitted : List (Event Int) :=
  [.act (.submit true none none false),
    .act (.initializeTask 0 "2026-01-01T00:00:00+00:00" "exec-1"), .act (.proceed 0),
    .act (.proceed 0), .act (.proceed 0), await .proceed, await .proceed, await (.inherited false)]

def returned : List (Event Int) :=
  submitted ++ [await .proceed, await .proceed, await .proceed, await .proceed, await .proceed,
    await (.returned .null), await .proceed]

theorem orderly_status_changes_succeeded :
    Lawful withGovernor (replay (step withGovernor)
      (start withGovernor noTasks) returned).base.store
      (replay (step withGovernor) (replay (step withGovernor) (start withGovernor noTasks) returned)
        [await .proceed]).base.store :=
  orderly_status_changes withGovernor rfl noTasks ⟨none, rfl⟩ returned (await .proceed) (by decide)
    _ _ (run_eq_replay (by decide)) (step_eq_replay (by decide))

theorem not_lawful {s s' : Store ν} {a b : TaskStatus} {g : String} (ha : status cfg s = some a)
    (hb : status cfg s' = some b) (hne : b ≠ a) (hnot : b ∉ a.allowedTransitions)
    (hg : generation cfg s = some g) (hg' : generation cfg s' = some g) : ¬Lawful cfg s s' := by
  intro h
  have hid : field s' cfg.taskId "execution_id" = field s cfg.taskId "execution_id" :=
    (generation_eq_some.mp hg').trans (generation_eq_some.mp hg).symm
  have hvalue : (Json.str b.value : Json ν) ≠ .str a.value := by
    intro heq
    exact hne (TaskStatus.value_injective (Json.str.inj heq))
  obtain ⟨a', b', ha', hb', hmem⟩ := h _ _ (TaskStatus.eq_of_ofField ha)
    (TaskStatus.eq_of_ofField hb) hvalue hid
  obtain rfl := TaskStatus.value_injective (Json.str.inj ha')
  obtain rfl := TaskStatus.value_injective (Json.str.inj hb')
  exact hnot hmem

def Breaks (cfg : Config) (store : Store Int) (es : List (Event Int)) (e : Event Int) : Prop :=
  ∃ s s', run (step cfg) (start cfg store) es = some s ∧ step cfg s e = some s' ∧
    ¬Lawful cfg s.base.store s'.base.store

def acquireTimesOut : List (Event Int) :=
  submitted ++ [await (.raised "acquire timeout"), await .proceed]

def failedTask : Store Int :=
  (updateTask plain [("status", .str TaskStatus.failed.value)] Executor.Proofs.queued).2

def rerun : List (Event Int) :=
  [.act (.other .rerun), .act (.other (.control 0)), .act (.other (.reopenNode 0 "exec-2")),
    .act (.other (.control 0)), await .proceed]

def queuedTwice : List (Event Int) :=
  [.act (.submit false none none false), .act (.submit false none none false), .act (.proceed 0),
    .act (.proceed 1), .act (.proceed 0), .act (.proceed 1), .act (.proceed 0), .act (.proceed 0),
    await .proceed, await .proceed]

def outlived : List (Event Int) :=
  [.act (.other (.execute false false)), await .proceed, await .proceed, await .proceed,
    await .proceed, .act (.other .cancel), .act (.other (.control 0)), .act (.other (.control 0)),
    .act (.other (.control 0)), .act (.other (.control 0)), .act (.other (.control 0)),
    .act (.other .rerun), .act (.other (.control 1)), .act (.other (.reopenNode 1 "exec-2")),
    await (.returned .null), await .proceed]

/-- A queued task that gets no slot goes to `failed`, a rerun takes a pending task to
`running`, a second `submit` takes a running one back to `queued`, and an execution that
outlives its generation takes a pending one to `succeeded`. -/
theorem status_changes_unlawfully :
    Breaks withGovernor noTasks acquireTimesOut (await .proceed) ∧
      Breaks plain failedTask rerun (await .proceed) ∧
      Breaks plain pendingTask queuedTwice (.act (.proceed 1)) ∧
      Breaks plain Executor.Proofs.queued outlived (await .proceed) := by
  refine ⟨?_, ?_, ?_, ?_⟩
  · refine ⟨_, _, run_eq_replay (by decide), step_eq_replay (by decide), ?_⟩
    exact not_lawful (a := .queued) (b := .failed) (g := "exec-1") (by decide) (by decide)
      (by decide) (by decide) (by decide) (by decide)
  · refine ⟨_, _, run_eq_replay (by decide), step_eq_replay (by decide), ?_⟩
    exact not_lawful (a := .pending) (b := .running) (g := "exec-2") (by decide) (by decide)
      (by decide) (by decide) (by decide) (by decide)
  · refine ⟨_, _, run_eq_replay (by decide), step_eq_replay (by decide), ?_⟩
    exact not_lawful (a := .running) (b := .queued) (g := "exec-1") (by decide) (by decide)
      (by decide) (by decide) (by decide) (by decide)
  · refine ⟨_, _, run_eq_replay (by decide), step_eq_replay (by decide), ?_⟩
    exact not_lawful (a := .pending) (b := .succeeded) (g := "exec-2") (by decide) (by decide)
      (by decide) (by decide) (by decide) (by decide)

end Orditect.Orchestrator.Lifecycle.Proofs
