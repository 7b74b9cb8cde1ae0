import Orditect.Recovery.Proofs.Dispatch
/-!
# When a recovery is exact

A run in which a task is reopened twice, or not at all, whenever the condition fails: the loop
goes on without waiting for what it has started, or waits for one execution to end.
-/

namespace Orditect.Recovery.Proofs

open Support.LuaJson Support.Transition
open Executor (Choice Execution Pc)
open Executor.Proofs (CanEnd Open Vocabulary ended untroubled)
open Snapshot (Memory)
open TaskStore (Store field getTask tick)
open TaskStore.Proofs (terminalNow)

variable {ν : Type}

def quiet : Event ν → Bool
  | .advance _ | .invalidateFails => false
  | .proceed _ choice => untroubled choice
  | _ => true

/-! ## One task -/

variable {s : State ν}

section

variable {service : Service} {plan : String → Option ReuseDecision}

theorem vocabulary_forTask (hv : Vocabulary service.executor) (t : String) :
    Vocabulary (service.forTask t) :=
  ⟨hv.terminal, hv.lifetime⟩

structure Reopened (service : Service) (t : String) (s s' : State ν) : Prop where
  ids : s'.treeIds = s.treeIds.tail
  stage : s'.stage = none
  others : ∀ x, x ≠ t → s'.store.records x = s.store.records x
  outcome : (terminalNow service.executor.storage s.store t = true ∧
      s'.opened = s.opened ++ [t] ∧ s'.background = s.background ++ [⟨t, none⟩] ∧
      Fresh (service.forTask t) s'.store) ∨
    (terminalNow service.executor.storage s.store t = false ∧ s'.store = s.store ∧
      s'.opened = s.opened)

structure Passed (service : Service) (ids : List String) (s s' : State ν) : Prop where
  stage : s'.stage = none
  others : ∀ x, x ∉ ids → s'.store.records x = s.store.records x
  opened : ∀ x, s.opened.count x ≤ s'.opened.count x
  left : ∀ x, terminalNow service.executor.storage s.store x = false →
    terminalNow service.executor.storage s'.store x = false ∧
      s'.opened.count x = s.opened.count x

variable {s' : State ν} {rest : List String} {t : String} {store : Store ν}

theorem Reopened.passed (h : Reopened service t s s') :
    Passed service [t] s s' := by
  refine ⟨h.stage, fun x hx => h.others x (by simpa using hx), ?_, ?_⟩
  · intro x
    rcases h.outcome with ⟨-, hopened, -⟩ | ⟨-, -, hopened⟩
    · rw [hopened, List.count_append]
      exact Nat.le_add_right _ _
    · rw [hopened]
  · intro x hx
    rcases h.outcome with ⟨hterm, hopened, -⟩ | ⟨-, hstore, hopened⟩
    · have hne : x ≠ t := by
        rintro rfl
        simp [hx] at hterm
      rw [TaskStore.Proofs.terminalNow_of_records (h.others x hne), hopened, List.count_append,
        List.count_singleton]
      exact ⟨hx, by simp [hne.symm]⟩
    · rw [hstore, hopened]
      exact ⟨hx, rfl⟩

theorem Passed.append {ids ids' : List String} {s'' : State ν} (h : Passed service ids s s')
    (h' : Passed service ids' s' s'') :
    Passed service (ids ++ ids') s s'' := by
  refine ⟨h'.stage, ?_, fun x => (h.opened x).trans (h'.opened x), ?_⟩
  · intro x hx
    rw [List.mem_append, not_or] at hx
    exact (h'.others x hx.2).trans (h.others x hx.1)
  · intro x hx
    obtain ⟨hopen, hcount⟩ := h.left x hx
    obtain ⟨hopen', hcount'⟩ := h'.left x hopen
    exact ⟨hopen', hcount'.trans hcount⟩

theorem terminalNow_of_ended (hv : Vocabulary service.executor)
    (h : ended (service.forTask t) store = true) :
    terminalNow service.executor.storage store t = true := by
  obtain ⟨w, hw, hterm⟩ := (Option.any_eq_true _ _).mp h
  have hfield : field store t "status" = some (.str w.value) :=
    Executor.Proofs.TaskStatus.eq_of_ofField hw
  obtain ⟨record, hrecord, hstatus⟩ := Option.bind_eq_some_iff.mp hfield
  simp only [terminalNow, hrecord, hstatus]
  exact (hv.isTerminal w).trans hterm

variable [DecidableEq ν] [LuaNumber ν]

def Goes (service : Service) (plan : String → Option ReuseDecision) (s s' : State ν) : Prop :=
  Reaches (step service plan) (fun e => quiet e = true) s s'

theorem Goes.trans {s'' : State ν} (h : Goes service plan s s') (h' : Goes service plan s' s'') :
    Goes service plan s s'' :=
  Reaches.trans h h'

theorem Goes.single {e : Event ν} (he : quiet e = true) (h : step service plan s e = some s') :
    Goes service plan s s' :=
  Reaches.single he h

theorem fresh_invalidate (hv : Vocabulary service.executor) (h : Fresh (service.forTask t) store) :
    Fresh (service.forTask t) (Executor.updateTask (service.forTask t)
      [("exempt_resources_snapshot", .null)] store).2 := by
  have hword : List.lookup "status" [("exempt_resources_snapshot", (.null : Json ν))] =
      Option.map (fun w => .str w.value) (none : Option Executor.TaskStatus) := rfl
  have hown : Executor.Proofs.OwnWrite [("exempt_resources_snapshot", (.null : Json ν))] :=
    ⟨rfl, (Option.some_ne_none _).symm⟩
  obtain ⟨store', heq, hopen⟩ := Executor.Proofs.updateTask_of_open (vocabulary_forTask hv t)
    h.isOpen hword (by simp) rfl
  obtain ⟨eid, hid⟩ := h.id
  have hsame := Executor.Proofs.sameGeneration_updateTask (service.forTask t) hown store
  refine ⟨?_, eid, (hsame.id eid).mpr hid⟩
  rw [heq]
  exact hopen

theorem step_taskFactory (service : Service) (plan : String → Option ReuseDecision)
    (hids : s.treeIds = t :: rest) (hstage : s.stage = some .taskFactory) :
    step service plan s .taskFactory = some { s with
      treeIds := rest
      stage := none
      background := s.background ++ [⟨t, none⟩]
      started := s.started ++ [t] } := by
  rw [step_of_treeIds hids rfl, hstage]
  simp [dispatch, State.done, hids]

theorem step_invalidate (hids : s.treeIds = t :: rest) (hstage : s.stage = some .invalidate) :
    step service plan s .invalidate = some { s with
      store := (Executor.updateTask (service.forTask t)
        [("exempt_resources_snapshot", .null)] s.store).2
      stage := some .taskFactory } := by
  rw [step_of_treeIds hids rfl, hstage]
  rfl

theorem goes_started (service : Service) (plan : String → Option ReuseDecision)
    (hids : s.treeIds = t :: rest) (hpast : isPast s = true) :
    ∃ store, (store = s.store ∨ store = (Executor.updateTask (service.forTask t)
        [("exempt_resources_snapshot", .null)] s.store).2) ∧
      Goes service plan s { s with
        store := store
        treeIds := rest
        stage := none
        background := s.background ++ [⟨t, none⟩]
        started := s.started ++ [t] } := by
  have hstage : s.stage = some .invalidate ∨ s.stage = some .taskFactory := by
    simpa [isPast] using hpast
  rcases hstage with hstage | hstage
  · have hstart := step_taskFactory service plan (s := { s with
      store := (Executor.updateTask (service.forTask t)
        [("exempt_resources_snapshot", .null)] s.store).2
      stage := some .taskFactory }) hids rfl
    exact ⟨_, Or.inr rfl, (Goes.single rfl (step_invalidate hids hstage)).trans
      (.single rfl hstart)⟩
  · exact ⟨s.store, Or.inl rfl, .single rfl (step_taskFactory service plan hids hstage)⟩

theorem goes_reopened (plan : String → Option ReuseDecision) (hv : Vocabulary service.executor)
    (hids : s.treeIds = t :: rest) (hstage : s.stage = some .reopen) :
    ∃ s', Goes service plan s s' ∧ Reopened service t s s' := by
  cases hterm : terminalNow service.executor.storage s.store t with
  | false =>
    exact ⟨s.done, .single rfl (step_reopen_of_open hids hstage hterm ""), rfl, rfl,
      fun x hx => rfl, Or.inr ⟨hterm, rfl, rfl⟩⟩
  | true =>
    obtain ⟨old, store, heq, hfresh, hothers⟩ := reopen_of_terminalNow hv.lifetime "" hterm
    have hreopen : step service plan s (.reopen "") = some { s with
        store := store
        stage := some (if service.executor.dependencyGovernor then .invalidate else .taskFactory)
        opened := s.opened ++ [t] } := by
      rw [step_of_treeIds hids rfl, hstage]
      simp only [dispatch, heq]
    obtain ⟨store', hstore', hstarted⟩ := goes_started service plan (s := { s with
        store := store
        stage := some (if service.executor.dependencyGovernor then .invalidate else .taskFactory)
        opened := s.opened ++ [t] }) hids (by simp only [isPast]; split <;> rfl)
    have hothers' : ∀ x, x ≠ t → store'.records x = store.records x := by
      intro x hx
      rcases hstore' with rfl | rfl
      · rfl
      · exact Executor.Proofs.records_updateTask_ne (service.forTask t) _ hx store
    have hfresh' : Fresh (service.forTask t) store' := by
      rcases hstore' with rfl | rfl
      · exact hfresh
      · exact fresh_invalidate hv hfresh
    refine ⟨_, (Goes.single rfl hreopen).trans hstarted, ?_, rfl, ?_, ?_⟩
    · rw [hids]
      rfl
    · exact fun x hx => (hothers' x hx).trans (hothers x hx)
    · exact Or.inl ⟨hterm, rfl, rfl, hfresh'⟩

theorem goes_drained (plan : String → Option ReuseDecision) (hv : Vocabulary service.executor)
    (hids : s.treeIds = t :: rest) (hstage : s.stage = some .drain) :
    ∃ s', Goes service plan s s' ∧ Reopened service t s s' := by
  have hdeadline : step service plan s .deadline = some { s with stage := some .reopen } := by
    rw [step_of_treeIds hids rfl, hstage]
    rfl
  obtain ⟨s', hgoes, hreopened⟩ := goes_reopened plan hv
    (s := { s with stage := some .reopen }) hids rfl
  exact ⟨s', (Goes.single rfl hdeadline).trans hgoes, hreopened.ids, hreopened.stage,
    hreopened.others, hreopened.outcome⟩

theorem goes_rerun (hv : Vocabulary service.executor) (hids : s.treeIds = t :: rest)
    (hstage : s.stage = none) (hplan : plan t = some .rerun) :
    ∃ s', Goes service plan s s' ∧ Reopened service t s s' := by
  have hnext : step service plan s .next = some { s with stage := some .drain } := by
    rw [step_of_treeIds hids rfl, hstage]
    simp [dispatch, hplan]
  obtain ⟨s', hgoes, hreopened⟩ := goes_drained plan hv
    (s := { s with stage := some .drain }) hids rfl
  exact ⟨s', (Goes.single rfl hnext).trans hgoes, hreopened.ids, hreopened.stage,
    hreopened.others, hreopened.outcome⟩

theorem goes_handled (plan : String → Option ReuseDecision) (hv : Vocabulary service.executor)
    (hids : s.treeIds = t :: rest) (hstage : s.stage = none) :
    ∃ s', Goes service plan s s' ∧ s'.treeIds = rest ∧ Passed service [t] s s' := by
  by_cases hplan : plan t = some .rerun
  · obtain ⟨s', hgoes, hreopened⟩ := goes_rerun hv hids hstage hplan
    refine ⟨s', hgoes, ?_, hreopened.passed⟩
    rw [hreopened.ids, hids]
    rfl
  · have hnext : step service plan s .next = some s.done := by
      rw [step_of_treeIds hids rfl, hstage]
      simp [dispatch, hplan]
    refine ⟨s.done, .single rfl hnext, ?_, rfl, fun x hx => rfl, fun x => le_rfl,
      fun x hx => ⟨hx, rfl⟩⟩
    show s.treeIds.tail = rest
    rw [hids]
    rfl

/-! ## The loop -/

theorem goes_passed (plan : String → Option ReuseDecision) (hv : Vocabulary service.executor)
    (ids : List String) (hids : s.treeIds = ids ++ rest) (hstage : s.stage = none) :
    ∃ s', Goes service plan s s' ∧ s'.treeIds = rest ∧
      Passed service ids s s' := by
  induction ids generalizing s with
  | nil =>
    exact ⟨s, .refl _ _ s, hids, hstage, fun x hx => rfl, fun x => le_rfl,
      fun x hx => ⟨hx, rfl⟩⟩
  | cons t ids ih =>
    obtain ⟨s₁, hgoes₁, hids₁, hpassed₁⟩ := goes_handled plan hv hids hstage
    obtain ⟨s₂, hgoes₂, hids₂, hpassed₂⟩ := ih hids₁ hpassed₁.stage
    exact ⟨s₂, hgoes₁.trans hgoes₂, hids₂, hpassed₁.append hpassed₂⟩

/-! ## One execution -/

theorem goes_ended (plan : String → Option ReuseDecision) {pc : Pc ν}
    (h : CanEnd (service.forTask t) pc store) {i : Nat} {x : Execution ν}
    (hstore : s.store = store) (hx : s.background[i]? = some ⟨t, some x⟩) (hpc : x.pc = pc)
    (htimed : x.timed = false) :
    ∃ s', Goes service plan s s' ∧
      s'.treeIds = s.treeIds ∧ s'.stage = s.stage ∧ s'.opened = s.opened ∧
      ended (service.forTask t) s'.store = true := by
  induction h generalizing s x with
  | ended h => exact ⟨s, .refl _ _ s, rfl, rfl, rfl, by rw [hstore]; exact h⟩
  | @step pc store effect choice hchoice hnext _ ih =>
    subst hstore hpc
    have hlt : i < s.background.length := (List.getElem?_eq_some_iff.mp hx).1
    have hx' : x.next (service.forTask t) s.store choice =
        some ({ x with
          pc := effect.pc
          attached := x.attached && !effect.pc.isFinished }, effect) := by
      unfold Execution.next
      rw [htimed]
      cases choice with
      | interrupt => simp [untroubled] at hchoice
      | _ => simp [hnext]
    have hstep : ∃ s₁, step service plan s (.proceed i choice) = some s₁ ∧
        s₁.store = effect.store ∧ s₁.background = s.background.set i ⟨t, some
          { x with pc := effect.pc, attached := x.attached && !effect.pc.isFinished }⟩ ∧
        s₁.treeIds = s.treeIds ∧ s₁.stage = s.stage ∧ s₁.opened = s.opened := by
      simp only [step, proceed, hx, hx', Option.map_some]
      exact ⟨_, rfl, rfl, rfl, rfl, rfl, rfl⟩
    obtain ⟨s₁, hs₁, hstore₁, hback₁, hids₁, hstage₁, hopened₁⟩ := hstep
    have hx₁ : s₁.background[i]? = some ⟨t, some
        { x with pc := effect.pc, attached := x.attached && !effect.pc.isFinished }⟩ := by
      rw [hback₁, List.getElem?_set_self hlt]
    obtain ⟨s', hreach, hids, hstage, hopened, hended⟩ := ih hstore₁ hx₁ rfl htimed
    have hquiet : quiet (.proceed i choice : Event ν) = true := hchoice
    exact ⟨s', (Goes.single hquiet hs₁).trans hreach, hids.trans hids₁,
      hstage.trans hstage₁, hopened.trans hopened₁, hended⟩

theorem goes_last_ended (plan : String → Option ReuseDecision) (hv : Vocabulary service.executor)
    {background : List (Background ν)} (hback : s.background = background ++ [⟨t, none⟩])
    (hfresh : Fresh (service.forTask t) s.store) :
    ∃ s', Goes service plan s s' ∧
      s'.treeIds = s.treeIds ∧ s'.stage = s.stage ∧ s'.opened = s.opened ∧
      terminalNow service.executor.storage s'.store t = true := by
  obtain ⟨eid, hid⟩ := hfresh.id
  have hlast : s.background[background.length]? = some ⟨t, none⟩ := by simp [hback]
  have hid' : field s.store t "execution_id" = some (.str eid) := hid
  have hlt : background.length < s.background.length := by simp [hback]
  have hbegin : step service plan s (.begin background.length) = some { s with
      background := s.background.set background.length
        ⟨t, some ⟨eid, true, false, true, .checkCancel⟩⟩
      running := Function.update s.running t true } := by
    simp only [step, begin, hlast, hid']
  obtain ⟨s', hreach, hids, hstage, hopened, hended⟩ := goes_ended plan
    (Executor.Proofs.canEnd_checkCancel (vocabulary_forTask hv t) hfresh.isOpen)
    (s := { s with
      background := s.background.set background.length
        ⟨t, some ⟨eid, true, false, true, .checkCancel⟩⟩
      running := Function.update s.running t true })
    rfl (List.getElem?_set_self hlt) rfl rfl
  exact ⟨s', (Goes.single rfl hbegin).trans hreach, hids, hstage, hopened,
    terminalNow_of_ended hv hended⟩

/-! ## The condition -/

theorem goes_returned (plan : String → Option ReuseDecision) (hv : Vocabulary service.executor)
    (hhead : s.stage ≠ none → ∃ t rest, s.treeIds = t :: rest) :
    ∃ s', Goes service plan s s' ∧ s'.returned = true := by
  have hloop : ∀ {u : State ν}, Goes service plan s u → u.stage = none →
      ∃ s', Goes service plan s s' ∧ s'.returned = true := by
    intro u hgoes hu
    obtain ⟨s', hgoes', hids, hpassed⟩ := goes_passed plan hv u.treeIds
      (List.append_nil u.treeIds).symm hu
    exact ⟨s', hgoes.trans hgoes', by simp [State.returned, hids, hpassed.stage]⟩
  cases hstage : s.stage with
  | none => exact hloop (.refl _ _ s) hstage
  | some stage =>
    obtain ⟨t, rest, hids⟩ := hhead (by simp [hstage])
    cases stage with
    | drain =>
      obtain ⟨u, hgoes, hreopened⟩ := goes_drained plan hv hids hstage
      exact hloop hgoes hreopened.stage
    | reopen =>
      obtain ⟨u, hgoes, hreopened⟩ := goes_reopened plan hv hids hstage
      exact hloop hgoes hreopened.stage
    | invalidate | taskFactory =>
      obtain ⟨store, -, hgoes⟩ := goes_started service plan hids (by simp [isPast, hstage])
      exact hloop hgoes rfl

theorem goes_opened_twice (hv : Vocabulary service.executor) {before between after : List String}
    (hids : s.treeIds = before ++ t :: (between ++ t :: after)) (hstage : s.stage = none)
    (hplan : plan t = some .rerun) (hbefore : t ∉ before) (hbetween : t ∉ between)
    (hterm : terminalNow service.executor.storage s.store t = true) :
    ∃ s', Goes service plan s s' ∧ s'.returned = true ∧ 2 ≤ s'.opened.count t := by
  obtain ⟨s₁, hgoes₁, hids₁, hpassed₁⟩ := goes_passed plan hv before hids hstage
  rw [← TaskStore.Proofs.terminalNow_of_records (hpassed₁.others t hbefore)] at hterm
  obtain ⟨s₂, hgoes₂, hreopened₂⟩ := goes_rerun hv hids₁ hpassed₁.stage hplan
  rcases hreopened₂.outcome with ⟨-, hopened₂, hback₂, hfresh₂⟩ | ⟨hopen, -⟩
  · -- the first execution ends before the loop comes to the second entry
    obtain ⟨s₃, hgoes₃, hids₃, hstage₃, hopened₃, hterm₃⟩ := goes_last_ended plan hv hback₂ hfresh₂
    have hids₃' : s₃.treeIds = between ++ t :: after := by
      rw [hids₃, hreopened₂.ids, hids₁]
      rfl
    obtain ⟨s₄, hgoes₄, hids₄, hpassed₄⟩ := goes_passed plan hv between hids₃'
      (hstage₃.trans hreopened₂.stage)
    rw [← TaskStore.Proofs.terminalNow_of_records (hpassed₄.others t hbetween)] at hterm₃
    obtain ⟨s₅, hgoes₅, hreopened₅⟩ := goes_rerun hv hids₄ hpassed₄.stage hplan
    rcases hreopened₅.outcome with ⟨-, hopened₅, -⟩ | ⟨hopen, -⟩
    · have hids₅ : s₅.treeIds = after ++ [] := by
        rw [hreopened₅.ids, hids₄, List.append_nil]
        rfl
      obtain ⟨s₆, hgoes₆, hids₆, hpassed₆⟩ := goes_passed plan hv after hids₅ hreopened₅.stage
      refine ⟨s₆, ((((hgoes₁.trans hgoes₂).trans hgoes₃).trans hgoes₄).trans hgoes₅).trans hgoes₆,
        by simp [State.returned, hids₆, hpassed₆.stage], ?_⟩
      have hfirst : s₃.opened.count t = s₁.opened.count t + 1 := by
        simp [hopened₃, hopened₂]
      have hsecond : s₅.opened.count t = s₄.opened.count t + 1 := by
        simp [hopened₅]
      have hmono₄ := hpassed₄.opened t
      have hmono₆ := hpassed₆.opened t
      omega
    · simp [hopen] at hterm₃
  · simp [hopen] at hterm

/-- However the executions it starts go on, the call can return from wherever it stands, and when
it has returned it was exact. -/
def Completes (service : Service) (plan : String → Option ReuseDecision) (treeIds : List String)
    (store : Store ν) : Prop :=
  ∀ es s, Along (step service plan) (fun s e => present treeIds s e = true)
      (start treeIds store) es →
    run (step service plan) (start treeIds store) es = some s →
    (∃ fs u, run (step service plan) s fs = some u ∧ u.returned = true) ∧
      (s.returned = true → Exact plan s)

theorem not_completes {treeIds : List String} (hgoes : Goes service plan (start treeIds store) s)
    (hreturned : s.returned = true) (hexact : ¬Exact plan s) :
    ¬Completes service plan treeIds store := by
  intro hcompletes
  obtain ⟨es, hquiet, hrun⟩ := hgoes
  apply hexact ((hcompletes es s ?_ hrun).2 hreturned)
  apply along_of_forall_mem
  intro e he u
  have hq := hquiet e he
  cases e <;> first | rfl | simp [quiet] at hq

section

variable (hv : Vocabulary service.executor) {treeIds : List String}

include hv

theorem Completes.terminal (hcompletes : Completes service plan treeIds store)
    (hrerun : plan t = some .rerun) :
    terminalNow service.executor.storage store t = true := by
  by_contra hopen
  obtain ⟨s, hgoes, hids, hpassed⟩ := goes_passed plan hv treeIds
    (s := start treeIds store) (List.append_nil treeIds).symm rfl
  apply not_completes hgoes (by simp [State.returned, hids, hpassed.stage]) _ hcompletes
  intro hexact
  have hone := ((hexact t).1 hrerun).1
  have hnone := (hpassed.left t (Bool.eq_false_of_not_eq_true hopen)).2
  simp [hnone, start] at hone

theorem Completes.count_le_one (hcompletes : Completes service plan treeIds store)
    (ht : t ∈ treeIds) (hrerun : plan t = some .rerun) : treeIds.count t ≤ 1 := by
  by_contra hmany
  obtain ⟨before, rest, hsplit, hbefore⟩ := List.eq_append_cons_of_mem ht
  have htwice : t ∈ rest := by
    apply List.count_pos_iff.mp
    have hcount : treeIds.count t = before.count t + (rest.count t + 1) := by
      rw [hsplit, List.count_append, List.count_cons_self]
    have hzero : before.count t = 0 := List.count_eq_zero.mpr hbefore
    omega
  obtain ⟨between, after, rfl, hbetween⟩ := List.eq_append_cons_of_mem htwice
  obtain ⟨s, hgoes, hreturned, hcount⟩ := goes_opened_twice hv (s := start treeIds store)
    hsplit rfl hrerun hbefore hbetween (hcompletes.terminal hv hrerun)
  apply not_completes hgoes hreturned _ hcompletes
  intro hexact
  have hone := ((hexact t).1 hrerun).1
  omega

theorem completes_of_terminal (hplan : ∀ t, plan t ≠ none → t ∈ treeIds)
    (hnodup : (treeIds.filter (reruns plan)).Nodup)
    (hterm : ∀ t ∈ treeIds, plan t = some .rerun →
      terminalNow service.executor.storage store t = true) :
    Completes service plan treeIds store := by
  intro es s hpresent hrun
  obtain ⟨done, hinv⟩ := inv_run hv.lifetime hnodup hterm hpresent hrun
  have hhead : s.stage ≠ none → ∃ t rest, s.treeIds = t :: rest := by
    intro hstage
    obtain ⟨t, rest, hids, -⟩ := hinv.head hstage
    exact ⟨t, rest, hids⟩
  obtain ⟨u, ⟨fs, -, hfs⟩, hreturned⟩ := goes_returned plan hv hhead
  exact ⟨⟨fs, u, hfs, hreturned⟩, exact_of_inv hnodup hplan hinv⟩

theorem completes_iff (hplan : ∀ t, plan t ≠ none → t ∈ treeIds) :
    Completes service plan treeIds store ↔
      ∀ t ∈ treeIds, plan t = some .rerun →
        treeIds.count t ≤ 1 ∧ terminalNow service.executor.storage store t = true := by
  constructor
  · intro hcompletes t ht hrerun
    exact ⟨hcompletes.count_le_one hv ht hrerun, hcompletes.terminal hv hrerun⟩
  · intro hcond
    apply completes_of_terminal hv hplan _ fun t ht hrerun => (hcond t ht hrerun).2
    rw [List.nodup_iff_count_le_one]
    intro t
    by_cases ht : t ∈ treeIds.filter (reruns plan)
    · obtain ⟨hmem, hrerun⟩ := List.mem_filter.mp ht
      calc (treeIds.filter (reruns plan)).count t
          ≤ treeIds.count t := List.filter_sublist.count_le t
        _ ≤ 1 := (hcond t hmem (reruns_iff.mp hrerun)).1
    · rw [List.count_eq_zero.mpr ht]
      exact Nat.zero_le 1

end

/-- Every task to rerun has live snapshots of one step, and a terminal record. -/
def Recoverable (service : Service) (request : Request) (snapshots : Memory Nat ν) (store : Store ν)
    (root : String) : Prop :=
  ∀ t ∈ treeTaskIds snapshots store.now root,
    request.decide service snapshots store t = .rerun →
      Snapshot.Proofs.OneStep snapshots store.now t ∧
        terminalNow service.executor.storage store t = true

/-- `resume` and `rerun` open one generation and start one execution for each task to rerun, and
none for the others, exactly if each of them is recoverable. -/
theorem recovery_exact_iff (service : Service) (hv : Vocabulary service.executor)
    (request : Request) (snapshots : Memory Nat ν) (store : Store ν) (root : String) :
    Completes service
        (makePlan (request.decide service snapshots store)
          (treeTaskIds snapshots store.now root))
        (treeTaskIds snapshots store.now root) store ↔
      Recoverable service request snapshots store root := by
  rw [completes_iff hv]
  · apply forall₂_congr
    intro t ht
    rw [makePlan_eq, if_pos ht, Option.some.injEq]
    apply imp_congr_right
    intro _
    apply and_congr_left
    intro _
    exact Snapshot.Proofs.count_getTree_le_one_iff snapshots store.now ht
  · intro t hsome
    rw [makePlan_eq] at hsome
    by_contra hnot
    simp [hnot] at hsome

end

/-! ## Two trees -/

def plainService : Service := ⟨Executor.Proofs.plain, ["succeeded"]⟩

def emptyStore : Store Int := ⟨0, fun _ => none, fun _ => none, fun _ => none⟩

def addRecord (taskId word : String) (s : Store Int) : Store Int :=
  (TaskStore.taskInit (TaskStore.initialData "2026-01-01T00:00:00+00:00" word none) 604800 taskId
    true word "" "exec-1" s).2

def snapshotOf (taskId step word : String) (parent : Option String) :
    Snapshot.TaskSnapshot Nat Int :=
  { taskId := taskId
    step := step
    executionId := "exec-1"
    parentTaskId := parent
    status := word
    createdAt := 0
    updatedAt := 0 }

def failedTree : Memory Nat Int :=
  ⟨[snapshotOf "top" "execute" "failed" none,
    snapshotOf "leaf" "execute" "succeeded" (some "top")], []⟩

def failedStore : Store Int :=
  (Executor.updateTask (plainService.forTask "leaf")
    [("status", .str "succeeded"), ("result", .null)]
    (addRecord "leaf" "running" (addRecord "top" "failed" emptyStore))).2

theorem recoverable_failedTree :
    Recoverable plainService .resume failedTree failedStore "top" := by
  have hids : treeTaskIds failedTree failedStore.now "top" = ["top", "leaf"] := by decide
  have hleaf : Request.resume.decide plainService failedTree failedStore "leaf" = .reuse := by
    decide
  intro t ht hrerun
  rw [hids] at ht
  simp only [List.mem_cons, List.not_mem_nil, or_false] at ht
  rcases ht with rfl | rfl
  · refine ⟨?_, by decide⟩
    unfold Snapshot.Proofs.OneStep
    decide
  · simp [hleaf] at hrerun

theorem recovery_exact_iff_failed :
    Completes plainService
      (makePlan (Request.resume.decide plainService failedTree failedStore)
        (treeTaskIds failedTree failedStore.now "top"))
      (treeTaskIds failedTree failedStore.now "top") failedStore :=
  (recovery_exact_iff plainService (Executor.Proofs.vocabulary_defaultStorage rfl) .resume
    failedTree failedStore "top").mpr recoverable_failedTree

def crashedTree : Memory Nat Int := ⟨[snapshotOf "t" "execute" "running" none], []⟩

def steppedTree : Memory Nat Int :=
  ⟨[snapshotOf "t" "execute" "failed" none, snapshotOf "t" "publish" "failed" none], []⟩

def overtaken : List (Event Int) :=
  [.next, .drained, .reopen "exec-2", .taskFactory, .next, .drained, .begin 0,
    .proceed 0 .proceed, .proceed 0 .proceed, .proceed 0 .proceed, .proceed 0 .proceed,
    .proceed 0 (.returned .null), .proceed 0 .proceed, .proceed 0 .proceed, .reopen "exec-3",
    .taskFactory]

def resumePlan (tree : Memory Nat Int) (word : String) : String → Option ReuseDecision :=
  makePlan (Request.resume.decide plainService tree (addRecord "t" word emptyStore))
    (treeTaskIds tree 0 "t")

def resumeStart (tree : Memory Nat Int) (word : String) : State Int :=
  start (treeTaskIds tree 0 "t") (addRecord "t" word emptyStore)

def resumed (tree : Memory Nat Int) (word : String) (es : List (Event Int)) : State Int :=
  replay (step plainService (resumePlan tree word)) (resumeStart tree word) es

/-- A record that is not terminal is not reopened, and one that the tree lists twice is reopened
twice. -/
theorem recovery_inexact :
    (resumePlan crashedTree "running" "t" = some .rerun ∧
      run (step plainService (resumePlan crashedTree "running")) (resumeStart crashedTree "running")
        [.next, .drained, .reopen "exec-2"] =
        some (resumed crashedTree "running" [.next, .drained, .reopen "exec-2"]) ∧
      (resumed crashedTree "running" [.next, .drained, .reopen "exec-2"]).returned = true ∧
      (resumed crashedTree "running" [.next, .drained, .reopen "exec-2"]).opened = [] ∧
      (resumed crashedTree "running" [.next, .drained, .reopen "exec-2"]).started = []) ∧
    (resumePlan steppedTree "failed" "t" = some .rerun ∧
      run (step plainService (resumePlan steppedTree "failed")) (resumeStart steppedTree "failed")
        overtaken = some (resumed steppedTree "failed" overtaken) ∧
      (resumed steppedTree "failed" overtaken).returned = true ∧
      (resumed steppedTree "failed" overtaken).opened = ["t", "t"] ∧
      (resumed steppedTree "failed" overtaken).started = ["t", "t"]) :=
  ⟨⟨by decide, run_eq_replay (by decide), by decide, by decide, by decide⟩,
    ⟨by decide, run_eq_replay (by decide), by decide, by decide, by decide⟩⟩

end Orditect.Recovery.Proofs
