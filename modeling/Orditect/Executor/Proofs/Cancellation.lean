import Orditect.Executor.Proofs.Session
/-!
# What a graceful cancellation promises

`lifecycle.cancel` reads, sets the flag, reads again and writes; when the write is refused it
looks a third time.  A terminal status stays as long as the record is there, and a record that
is gone stays away, so what the call returns fits the record at the moment it returns.
-/

namespace Orditect.Executor.Proofs

open Session Support.LuaJson Support.Transition
open TaskStore (Store getTask field tick)
open TaskStore.Proofs (Shrinks)

variable {ν : Type}

def Rests (cfg : Config) (w : TaskStatus) (s : Store ν) : Prop :=
  getTask cfg.taskId s = none ∨ field s cfg.taskId "status" = some (.str w.value)

theorem Rests.shrinks {cfg : Config} {w : TaskStatus} {s s' : Store ν} (h : Rests cfg w s)
    (hs : Shrinks s s') : Rests cfg w s' := by
  rcases hs cfg.taskId with hkeep | hgone
  · have hsame : getTask cfg.taskId s' = getTask cfg.taskId s := by simp [getTask, hkeep]
    rw [Rests, hsame, TaskStore.Proofs.field_congr hkeep]
    exact h
  · left
    simp [getTask, hgone]

theorem Rests.status {cfg : Config} {w : TaskStatus} {s : Store ν} (h : Rests cfg w s) :
    getTask cfg.taskId s = none ∨ status cfg s = some w := by
  apply h.imp_right
  intro hfield
  rw [Executor.status, hfield, TaskStatus.ofField_value]

section

variable [DecidableEq ν] [LuaNumber ν] {cfg : Config} {w : TaskStatus}

theorem Rests.writes {s s' : Store ν} (hknows : KnowsTerminal cfg) (hw : w.isTerminal = true)
    (h : Rests cfg w s) (hwrites : Writes cfg s s') : Rests cfg w s' := by
  cases hwrites with
  | reads => exact h
  | updates updates hown =>
    obtain ⟨⟨reply, s'⟩, hresult⟩ : ∃ result, updateTask cfg updates s = result := ⟨_, rfl⟩
    rw [hresult]
    cases updates_updateTask hresult with
    | notFound | refused | unexpiring => exact h
    | written reply s' current hcur hkeep hrewrites =>
      right
      rcases h with hnone | hstatus
      · simp [hcur] at hnone
      · rw [hrewrites.field_self]
        apply TaskStore.Proofs.status_merge ((hknows _).mpr ⟨w, hw, rfl⟩) _ hkeep
        simpa [field, hcur] using hstatus

variable {cancels : Bool} {s : Session.State ν} {store : Store ν} {e : Session.Event ν}
  {s' : Session.State ν}

theorem writes_handle {h h' : Handle} (hnext : h.next cfg s = some (h', store, cancels)) :
    Writes cfg s.store store := by
  have hread : ∀ {h₁ : Handle} {c : Bool}, some (h₁, s.store, c) = some (h', store, cancels) →
      Writes cfg s.store store := by
    intro h₁ c heq
    simp only [Option.some.injEq, Prod.mk.injEq] at heq
    rw [← heq.2.1]
    exact .reads
  have hwrite : ∀ {h₁ : Handle} {c : Bool} {s₁ : Store ν} {reply : TaskStore.UpdateReply}
      {updates : List (String × Json ν)}, updateTask cfg updates s.store = (reply, s₁) →
      OwnWrite updates → some (h₁, s₁, c) = some (h', store, cancels) →
      Writes cfg s.store store := by
    intro h₁ c s₁ reply updates hup hown heq
    simp only [Option.some.injEq, Prod.mk.injEq] at heq
    rw [← heq.2.1]
    exact writes_updateTask hown hup
  unfold Handle.next at hnext
  split at hnext
  · split at hnext <;> exact hread hnext
  · split at hnext <;> exact hread hnext
  · split at hnext
    all_goals
      rename_i hup
      exact hwrite hup ⟨rfl, (Option.some_ne_none _).symm⟩ hnext
  · exact hread hnext
  · split at hnext <;> exact hread hnext
  · split at hnext
    all_goals
      rename_i hup
      exact hwrite hup ⟨rfl, by simp [TaskStatus.value]⟩ hnext
  · split at hnext <;> exact hread hnext
  · simp at hnext
  · simp at hnext

inductive Effects (cfg : Config) (s s' : Session.State ν) : Prop
  | coroutine (hstore : Writes cfg s.store s'.store) (hhandles : s'.handles = s.handles)
  | calls (force : Bool) (hstore : s'.store = s.store)
      (hhandles : s'.handles = s.handles ++ [.read force])
  | handle (i : Nat) (before after : Handle) (cancels : Bool) (hi : s.handles[i]? = some before)
      (hnext : before.next cfg s = some (after, s'.store, cancels))
      (hhandles : s'.handles = s.handles.set i after)
  | handleFails (i : Nat) (hstore : s'.store = s.store)
      (hhandles : s'.handles = s.handles.set i .raised)
  | shrinks (hstore : Shrinks s.store s'.store) (hhandles : s'.handles = s.handles)

theorem effects_step (h : Session.step cfg s e = some s') : Effects cfg s s' := by
  cases e with
  | execute here timed | unstarted =>
    simp only [Session.step] at h
    split at h
    · obtain rfl := Option.some.inj h
      exact .coroutine .reads rfl
    · simp at h
  | proceed choice =>
    simp only [Session.step, Session.proceed] at h
    split at h
    · simp at h
    · simp at h
    · split at h
      · simp at h
      · obtain ⟨⟨x', effect⟩, hnext, rfl⟩ := Option.map_eq_some_iff.mp h
        exact .coroutine (writes_execution hnext) rfl
  | cancelCoroutine =>
    simp only [Session.step] at h
    split at h
    · split at h
      · obtain rfl := Option.some.inj h
        exact .coroutine .reads rfl
      · simp at h
    · simp at h
  | interrupt done =>
    simp only [Session.step, Session.interrupt] at h
    split at h
    · simp at h
    · split at h
      · obtain ⟨⟨x', effect⟩, -, rfl⟩ := Option.map_eq_some_iff.mp h
        exact .coroutine .reads rfl
      · simp at h
    · split at h
      · obtain ⟨effect, hnext, hrest⟩ := Option.bind_eq_some_iff.mp h
        split at hrest
        · simp at hrest
        · obtain rfl := Option.some.inj hrest
          exact .coroutine (writes_next hnext) rfl
      · simp at h
  | swallow =>
    simp only [Session.step, Session.swallow] at h
    split at h
    · split at h
      · obtain rfl := Option.some.inj h
        exact .coroutine .reads rfl
      · simp at h
    · simp at h
  | cancel =>
    obtain rfl := Option.some.inj h
    exact .calls false rfl rfl
  | terminate =>
    obtain rfl := Option.some.inj h
    exact .calls true rfl rfl
  | handle i =>
    obtain ⟨⟨after, store, cancels⟩, hbind, rfl⟩ := Option.map_eq_some_iff.mp h
    obtain ⟨before, hi, hnext⟩ := Option.bind_eq_some_iff.mp hbind
    exact .handle i before after cancels hi hnext rfl
  | handleFails i =>
    obtain ⟨after, hbind, rfl⟩ := Option.map_eq_some_iff.mp h
    obtain ⟨before, -, hfails⟩ := Option.bind_eq_some_iff.mp hbind
    obtain rfl : after = .raised := by
      unfold Handle.fails at hfails
      split at hfails <;> simp_all
    exact .handleFails i rfl rfl
  | advance ms =>
    obtain rfl := Option.some.inj h
    exact .shrinks (TaskStore.Proofs.shrinks_tick ms s.store) rfl
  | evict =>
    obtain rfl := Option.some.inj h
    exact .shrinks (TaskStore.Proofs.shrinks_evict s.store cfg.taskId) rfl

theorem rests_step (hknows : KnowsTerminal cfg) (hw : w.isTerminal = true)
    (h : Rests cfg w s.store) (hstep : Session.step cfg s e = some s') :
    Rests cfg w s'.store := by
  cases effects_step hstep with
  | coroutine hstore => exact h.writes hknows hw hstore
  | calls force hstore =>
    rw [hstore]
    exact h
  | handle i before after cancels hi hnext => exact h.writes hknows hw (writes_handle hnext)
  | handleFails i hstore =>
    rw [hstore]
    exact h
  | shrinks hstore => exact h.shrinks hstore

/-! ## The handles -/

theorem handles_step (hstep : Session.step cfg s e = some s') {i : Nat} {after : Handle}
    (hi : s'.handles[i]? = some after) :
    s.handles[i]? = some after ∨ (∃ force, after = .read force) ∨ after = .raised ∨
      ∃ before cancels, s.handles[i]? = some before ∧
        before.next cfg s = some (after, s'.store, cancels) := by
  cases effects_step hstep with
  | coroutine hstore hhandles =>
    rw [hhandles] at hi
    exact Or.inl hi
  | calls force hstore hhandles =>
    rw [hhandles, List.getElem?_append] at hi
    split at hi
    · exact Or.inl hi
    · right; left
      exact ⟨force, (List.mem_singleton.mp (List.mem_of_getElem? hi))⟩
  | handle j before next cancels hj hnext hhandles =>
    rw [hhandles, List.getElem?_set] at hi
    split at hi
    · rename_i hji
      subst hji
      right; right; right
      split at hi
      · obtain rfl := Option.some.inj hi
        exact ⟨before, cancels, hj, hnext⟩
      · simp at hi
    · exact Or.inl hi
  | handleFails j hstore hhandles =>
    rw [hhandles, List.getElem?_set] at hi
    split at hi
    · split at hi
      · exact Or.inr (Or.inr (Or.inl (Option.some.inj hi).symm))
      · simp at hi
    · exact Or.inl hi
  | shrinks hstore hhandles =>
    rw [hhandles] at hi
    exact Or.inl hi

def ConfirmsLate (cfg : Config) (s : Session.State ν) : Prop :=
  ∀ (i : Nat) (force : Bool), s.handles[i]? = some (.confirm force) →
    ∃ w : TaskStatus, w.isTerminal = true ∧ Rests cfg w s.store

theorem rests_of_refused (hknows : KnowsTerminal cfg) {updates : List (String × Json ν)}
    {s s' : Store ν} (h : updateTask cfg updates s = (.invalidTransfer, s')) :
    ∃ w : TaskStatus, w.isTerminal = true ∧ Rests cfg w s' := by
  cases updates_updateTask h with
  | refused current hcur hdiff hterm =>
    unfold TaskStore.isTerminal at hterm
    split at hterm
    · rename_i word hword
      obtain ⟨w, hw, rfl⟩ := (hknows word).mp (by simpa using hterm)
      refine ⟨w, hw, Or.inr ?_⟩
      rw [field, hcur]
      exact Json.eq_of_orEmpty hword (by cases w <;> simp [TaskStatus.value])
    · simp at hterm
  | written reply s' current hcur hkeep hrewrites hreply => simp at hreply

theorem rests_of_confirm (hknows : KnowsTerminal cfg) {before : Handle} {force : Bool}
    (hnext : before.next cfg s = some (.confirm force, store, cancels)) :
    ∃ w : TaskStatus, w.isTerminal = true ∧ Rests cfg w store := by
  unfold Handle.next at hnext
  split at hnext
  · split at hnext <;> simp [ite_eq_iff] at hnext
  · split at hnext <;> simp at hnext
  · split at hnext <;> simp [ite_eq_iff] at hnext
  · simp [ite_eq_iff] at hnext
  · split at hnext
    · simp at hnext
    · simp at hnext
    · rename_i w hrecord hstatus
      rw [TaskStatus.cancelled_allowed] at hnext
      cases hw : w.isTerminal with
      | true =>
        have hstore := (Prod.mk.inj (Prod.mk.inj (Option.some.inj hnext)).2).1
        rw [← hstore]
        exact ⟨w, hw, Or.inr (TaskStatus.eq_of_ofField hstatus)⟩
      | false => simp [hw] at hnext
  · split at hnext
    · simp at hnext
    · rename_i hrefused
      have hstore := (Prod.mk.inj (Prod.mk.inj (Option.some.inj hnext)).2).1
      rw [← hstore]
      exact rests_of_refused hknows hrefused
    · simp at hnext
  · split at hnext <;> simp at hnext
  · simp at hnext
  · simp at hnext

theorem confirmsLate_step (hknows : KnowsTerminal cfg) (h : ConfirmsLate cfg s)
    (hstep : Session.step cfg s e = some s') : ConfirmsLate cfg s' := by
  intro i force hi
  rcases handles_step hstep hi with hold | ⟨f, hread⟩ | hraised | ⟨before, cancels, hbefore, hnext⟩
  · obtain ⟨w, hw, hrests⟩ := h i force hold
    exact ⟨w, hw, rests_step hknows hw hrests hstep⟩
  · simp at hread
  · simp at hraised
  · exact rests_of_confirm hknows hnext

theorem returned_spec (hconfirms : ConfirmsLate cfg s) {i : Nat} {before : Handle} {ok : Bool}
    (hi : s.handles[i]? = some before)
    (hnext : before.next cfg s = some (.returned false ok, store, cancels)) :
    (ok = true ∧ status cfg store = some .cancelled) ∨
      (ok = false ∧ (getTask cfg.taskId s.store = none ∨
        ∃ w, status cfg s.store = some w ∧ w.isTerminal = true)) := by
  have habsent : ∀ {force : Bool}, getTask cfg.taskId s.store = none →
      some (Handle.returned force false, s.store, false) =
        some (.returned false ok, store, cancels) →
      ok = false ∧ (getTask cfg.taskId s.store = none ∨
        ∃ w, status cfg s.store = some w ∧ w.isTerminal = true) := by
    intro force hnone heq
    simp only [Option.some.injEq, Prod.mk.injEq, Handle.returned.injEq] at heq
    exact ⟨heq.1.2.symm, Or.inl hnone⟩
  unfold Handle.next at hnext
  split at hnext
  · split at hnext
    · exact Or.inr (habsent ‹_› hnext)
    · simp at hnext
    · rename_i w hrecord hstatus
      cases hw : w.isTerminal with
      | true =>
        simp only [hw, if_true, Option.some.injEq, Prod.mk.injEq, Handle.returned.injEq] at hnext
        exact Or.inr ⟨hnext.1.2.symm, Or.inr ⟨w, hstatus, hw⟩⟩
      | false => simp [hw] at hnext
  · split at hnext
    · exact Or.inr (habsent ‹_› hnext)
    · simp at hnext
  · split at hnext <;> simp [ite_eq_iff] at hnext
  · simp [ite_eq_iff] at hnext
  · split at hnext
    · exact Or.inr (habsent ‹_› hnext)
    · simp at hnext
    · simp [ite_eq_iff] at hnext
  · split at hnext
    · rename_i hok
      simp only [Option.some.injEq, Prod.mk.injEq, Handle.returned.injEq] at hnext
      rw [← hnext.2.1]
      refine Or.inl ⟨hnext.1.2.symm, ?_⟩
      rw [status, status_of_ok hok, TaskStatus.ofField_value]
    · simp at hnext
    · simp at hnext
  · rename_i force
    split at hnext
    · exact Or.inr (habsent ‹_› hnext)
    · simp at hnext
    · rename_i w hrecord hstatus
      simp only [Option.some.injEq, Prod.mk.injEq, Handle.returned.injEq] at hnext
      by_cases hw : w = .cancelled
      · rw [hw] at hstatus
        rw [← hnext.2.1]
        exact Or.inl ⟨by simp [← hnext.1.2, hw], hstatus⟩
      · -- the status the third look finds is the one that was in the way
        obtain ⟨v, hv, hrests⟩ := hconfirms i force hi
        rcases hrests.status with hnone | hsame
        · exact Or.inr ⟨by simp [← hnext.1.2, hw], Or.inl hnone⟩
        · exact Or.inr ⟨by simp [← hnext.1.2, hw], Or.inr ⟨v, hsame, hv⟩⟩
  · simp at hnext
  · simp at hnext

/-- A call of `lifecycle.cancel` that returns: with `True`, the record is cancelled from then
on for as long as it is there; with `False`, it is gone or terminal while the call lasts. -/
theorem cancel_decisive (hknows : KnowsTerminal cfg) {store : Store ν}
    {snapshots : Snapshot.Memory Nat ν} {es : List (Session.Event ν)} {s s' : Session.State ν}
    {e : Session.Event ν}
    (hrun : run (Session.step cfg) (Session.start store snapshots) es = some s)
    (hstep : Session.step cfg s e = some s') {i : Nat} {before : Handle} {ok : Bool}
    (hcall : s.handles[i]? = some before) (hopen : before ≠ .returned false ok)
    (hreturned : s'.handles[i]? = some (.returned false ok)) :
    (ok = true → status cfg s'.store = some .cancelled ∧
      ∀ fs u, run (Session.step cfg) s' fs = some u →
        getTask cfg.taskId u.store = none ∨ status cfg u.store = some .cancelled) ∧
    (ok = false → getTask cfg.taskId s.store = none ∨
      ∃ w, status cfg s.store = some w ∧ w.isTerminal = true) := by
  have hstart : ConfirmsLate cfg (Session.start store snapshots) := by
    intro j force hj
    simp [Session.start] at hj
  have hconfirms : ConfirmsLate cfg s :=
    run_invariant (fun s e s' h hstep => confirmsLate_step hknows h hstep) hstart hrun
  obtain ⟨cancels, hnext⟩ : ∃ cancels,
      before.next cfg s = some (.returned false ok, s'.store, cancels) := by
    rcases handles_step hstep hreturned with hold | ⟨f, hread⟩ | hraised | ⟨b, c, hb, hnext⟩
    · exact absurd (Option.some.inj (hcall.symm.trans hold)) hopen
    · simp at hread
    · simp at hraised
    · obtain rfl : before = b := Option.some.inj (hcall.symm.trans hb)
      exact ⟨c, hnext⟩
  rcases returned_spec hconfirms hcall hnext with ⟨rfl, hcancelled⟩ | ⟨rfl, hgone⟩
  · refine ⟨fun _ => ⟨hcancelled, fun fs u hfs => ?_⟩, fun h => absurd h (by simp)⟩
    have hnow : Rests cfg .cancelled s'.store := Or.inr (TaskStatus.eq_of_ofField hcancelled)
    have hlater : Rests cfg .cancelled u.store :=
      run_invariant (I := fun s => Rests cfg .cancelled s.store)
        (fun s e s' h hstep => rests_step hknows rfl h hstep) hnow hfs
    exact hlater.status
  · exact ⟨fun h => absurd h (by simp), fun _ => hgone⟩

end

def cancelledTwice : List (Session.Event Int) :=
  [.cancel, .cancel, .handle 0, .handle 1, .handle 0, .handle 1, .handle 0, .handle 1, .handle 0,
    .handle 1, .handle 0]

theorem cancel_decisive_twice :
    (replay (Session.step plain) (Session.start queued .empty) cancelledTwice).handles =
        [.returned false true, .transitionWrite false] ∧
      status plain (replay (Session.step plain)
        (replay (Session.step plain) (Session.start queued .empty)
        cancelledTwice) [.handle 1]).store = some .cancelled := by
  have hcalls : (replay (Session.step plain) (Session.start queued .empty) cancelledTwice).handles =
      [.returned false true, .transitionWrite false] := by decide
  have hrun : run (Session.step plain) (Session.start queued .empty) cancelledTwice =
      some (replay (Session.step plain) (Session.start queued .empty) cancelledTwice) :=
    run_eq_replay (by decide)
  have hstep : Session.step plain (replay (Session.step plain) (Session.start queued .empty)
      cancelledTwice) (.handle 1) = some (replay (Session.step plain) (replay (Session.step plain)
        (Session.start queued .empty) cancelledTwice) [.handle 1]) :=
    step_eq_replay (by decide)
  have hreturned : (replay (Session.step plain)
      (replay (Session.step plain) (Session.start queued .empty)
      cancelledTwice) [.handle 1]).handles[1]? = some (.returned false true) := by decide
  have hdecisive := cancel_decisive (vocabulary_defaultStorage rfl).terminal hrun hstep
    (congrArg (fun handles => handles[1]?) hcalls) (by decide) hreturned
  exact ⟨hcalls, (hdecisive.1 rfl).1⟩

end Orditect.Executor.Proofs
