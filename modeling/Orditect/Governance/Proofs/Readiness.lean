import Orditect.Governance.Proofs.Countdown
/-!
# When a ready child has all its parents behind it

The counter of one registration is exact as long as every decrement belongs to a parent
the recheck had found non-terminal: then the recheck compensates nothing for it and its
notification decrements once.  A notification that counts the child down earlier meets a
counter that is not written yet, or is compensated for on top.
-/

namespace Orditect.Governance.Proofs

open Support.Transition

variable {cfg : Config} {s s' : State} {e : Event}

def AllEnded (cfg : Config) (s : Store) : Prop := ∀ p ∈ cfg.parents, Ended cfg s p

def Once (s : State) (e : Event) : Prop :=
  match e with
  | .register _ => s.registration = .idle
  | _ => True

/-- A notification decrements the counter of the child only for a parent that the recheck
has found non-terminal, or after every parent has ended. -/
def Timely (cfg : Config) (s : State) (e : Event) : Prop :=
  match e with
  | .notification t =>
    countsDown (s.notifications t) = some cfg.child → t ∈ s.awaited ∨ AllEnded cfg s.store
  | _ => True

def owing (cfg : Config) (s : State) : Finset String :=
  s.awaited.toFinset.filter fun p => Owes cfg.child (s.notifications p)

theorem mem_owing {p : String} : p ∈ owing cfg s ↔
    p ∈ s.awaited ∧ Owes cfg.child (s.notifications p) := by
  simp [owing]

/-- There is no counter before the registration writes it; afterwards it is at least what
is still to be rechecked or counted down, and every other parent has ended. -/
structure Exact (cfg : Config) (s : State) : Prop where
  fresh : counterWritten s.registration = false → counter cfg s.store = none
  enough : counterWritten s.registration = true → ∃ v : Int, counter cfg s.store = some v ∧
    (unchecked s.registration).length + (owing cfg s).card ≤ v
  settled : counterWritten s.registration = true → ∀ p ∈ cfg.parents,
    Ended cfg s.store p ∨ p ∈ unchecked s.registration ∨ p ∈ s.awaited
  once : ∀ p ∈ s.awaited, p ∉ unchecked s.registration
  later : counterWritten s.registration = false → s.awaited = []

theorem Exact.of_quiet (h : Exact cfg s) (hg : Grows cfg s.store s'.store)
    (hwritten : counterWritten s'.registration = counterWritten s.registration)
    (htodo : unchecked s'.registration = unchecked s.registration)
    (hawaited : s'.awaited = s.awaited)
    (hcounter : counter cfg s'.store = counter cfg s.store)
    (howes : ∀ p, Owes cfg.child (s'.notifications p) → Owes cfg.child (s.notifications p)) :
    Exact cfg s' where
  fresh hr := hcounter.trans (h.fresh (hwritten ▸ hr))
  enough hr := by
    obtain ⟨v, hv, hle⟩ := h.enough (hwritten ▸ hr)
    have hsub : owing cfg s' ⊆ owing cfg s := by
      intro p hp
      obtain ⟨hp, howe⟩ := mem_owing.mp hp
      exact mem_owing.mpr ⟨hawaited ▸ hp, howes p howe⟩
    have hcard := Finset.card_le_card hsub
    exact ⟨v, hcounter.trans hv, by rw [htodo]; omega⟩
  settled hr p hp := by
    rw [htodo, hawaited]
    exact (h.settled (hwritten ▸ hr) p hp).imp_left hg.isEnded
  once := by rw [hawaited, htodo]; exact h.once
  later hr := hawaited.trans (h.later (hwritten ▸ hr))

theorem Exact.of_before (h : Exact cfg s) (hr : counterWritten s.registration = false)
    (hr' : counterWritten s'.registration = false)
    (hcounter : counter cfg s'.store = counter cfg s.store) (hawaited : s'.awaited = s.awaited) :
    Exact cfg s' := by
  have hnone : s'.awaited = [] := hawaited.trans (h.later hr)
  exact ⟨fun _ => hcounter.trans (h.fresh hr), by simp [hr'], by simp [hr'], by simp [hnone],
    fun _ => hnone⟩

theorem exact_registration (hsound : Sound cfg s) (hg : Grows cfg s.store s'.store)
    (h : Exact cfg s)
    (hcounts : RegistrationCounts cfg s.store s'.store s.awaited s'.awaited s.registration
      s'.registration)
    (hnotifications : s'.notifications = s.notifications) : Exact cfg s' := by
  have howing : ∀ p ∈ owing cfg s', p ∈ s'.awaited ∧ Owes cfg.child (s.notifications p) := by
    intro p hp
    rw [← hnotifications]
    exact mem_owing.mp hp
  cases hcounts with
  | before hr hr' hcounter hawaited => exact h.of_before hr hr' hcounter hawaited
  | written plan triggered hr hr' hcounter hawaited =>
    have hplan : PlanSound cfg s.store plan := by
      have hsound := hsound.registration
      rw [hr] at hsound
      exact hsound.1
    refine ⟨by simp [hr', counterWritten], fun _ => ?_, fun _ p hp => ?_, by simp [hawaited],
      fun _ => hawaited⟩
    · refine ⟨plan.counted.length, hcounter, ?_⟩
      simp [hr', unchecked, owing, hawaited]
    · rw [hr']
      rcases hplan.covered p hp with hcounted | hended
      · exact .inr (.inl hcounted)
      · exact .inl (hg.isEnded hended.1)
  | found p hr hr' htodo hopen hcounter hawaited =>
    have hnodup := (hsound.registration.placed hr).nodup
    rw [htodo, List.nodup_cons] at hnodup
    refine ⟨by simp [hr'], fun _ => ?_, fun _ q hq => ?_, ?_, by simp [hr']⟩
    · obtain ⟨v, hv, hle⟩ := h.enough hr
      refine ⟨v, hcounter.trans hv, ?_⟩
      have hsub : owing cfg s' ⊆ insert p (owing cfg s) := by
        intro q hq
        obtain ⟨hq, howe⟩ := howing q hq
        rw [hawaited, List.mem_cons] at hq
        exact Finset.mem_insert.mpr (hq.imp_right fun hq => mem_owing.mpr ⟨hq, howe⟩)
      have hcard := (Finset.card_le_card hsub).trans (Finset.card_insert_le p _)
      rw [htodo, List.length_cons] at hle
      omega
    · rw [hawaited, List.mem_cons]
      rcases h.settled hr q hq with hended | hq | hq
      · exact .inl (hg.isEnded hended)
      · rw [htodo, List.mem_cons] at hq
        exact .inr (hq.elim (fun h => .inr (.inl h)) .inl)
      · exact .inr (.inr (.inr hq))
    · intro q hq hq'
      rw [hawaited, List.mem_cons] at hq
      rcases hq with rfl | hq
      · exact hnodup.1 hq'
      · exact h.once q hq (by simp [htodo, hq'])
  | compensated p hr hr' htodo hended hcounter hawaited =>
    refine ⟨by simp [hr'], fun _ => ?_, fun _ q hq => ?_, fun q hq hq' => ?_, by simp [hr']⟩
    · obtain ⟨v, hv, hle⟩ := h.enough hr
      refine ⟨v - 1, by simpa [hv] using hcounter, ?_⟩
      have hsub : owing cfg s' ⊆ owing cfg s := fun q hq =>
        mem_owing.mpr ⟨hawaited ▸ (howing q hq).1, (howing q hq).2⟩
      have hcard := Finset.card_le_card hsub
      rw [htodo, List.length_cons] at hle
      omega
    · rw [hawaited]
      rcases h.settled hr q hq with hq | hq | hq
      · exact .inl (hg.isEnded hq)
      · rw [htodo, List.mem_cons] at hq
        rcases hq with rfl | hq
        · exact .inl (hg.isEnded hended)
        · exact .inr (.inl hq)
      · exact .inr (.inr hq)
    · exact h.once q (hawaited ▸ hq) (by simp [htodo, hq'])
  | after hr hr' htodo hcounter hawaited =>
    refine h.of_quiet hg (hr'.trans hr.symm) htodo hawaited hcounter ?_
    rw [hnotifications]
    exact fun _ => id

theorem exact_notification {t : String} (hsound : Sound cfg s) (hg : Grows cfg s.store s'.store)
    (h : Exact cfg s)
    (htimely : countsDown (s.notifications t) = some cfg.child → t ∈ s.awaited)
    (hcounts : NotificationCounts cfg t s.store s'.store (s.notifications t) (s'.notifications t))
    (hothers : ∀ u, u ≠ t → s'.notifications u = s.notifications u)
    (hregistration : s'.registration = s.registration) (hawaited : s'.awaited = s.awaited) :
    Exact cfg s' := by
  cases hcounts with
  | counted hcounts howes hread hwalk hcounter =>
    have ht := htimely hcounts
    have hwritten : counterWritten s.registration = true := by
      by_contra hr
      simp [h.later (eq_false_of_ne_true hr)] at ht
    have hidle : s.notifications t ≠ .idle := by
      intro hidle
      simp [hidle, countsDown] at hcounts
    refine ⟨by simp [hregistration, hwritten], fun _ => ?_, fun _ p hp => ?_, ?_,
      by simp [hregistration, hwritten]⟩
    · obtain ⟨v, hv, hle⟩ := h.enough hwritten
      refine ⟨v - 1, by simpa [hv] using hcounter, ?_⟩
      -- `t` owed the child, has counted it down, and visits it only once
      have hpaid := not_owes_of_counted hread hwalk (hsound.notifications t hidle).walk
      have hsub : owing cfg s' ⊆ (owing cfg s).erase t := by
        intro p hp
        obtain ⟨hp, howe⟩ := mem_owing.mp hp
        have hpt : p ≠ t := fun hpt => hpaid (hpt ▸ howe)
        exact Finset.mem_erase.mpr ⟨hpt, mem_owing.mpr ⟨hawaited ▸ hp, hothers p hpt ▸ howe⟩⟩
      have hcard := Finset.card_le_card hsub
      have herase := Finset.card_erase_add_one (mem_owing.mpr ⟨ht, howes⟩)
      rw [hregistration]
      omega
    · rw [hregistration, hawaited]
      exact (h.settled hwritten p hp).imp_left hg.isEnded
    · rw [hregistration, hawaited]
      exact h.once
  | passed hcounter hless hkept =>
    refine h.of_quiet hg (by rw [hregistration]) (by rw [hregistration]) hawaited hcounter ?_
    intro p howe
    by_cases hpt : p = t
    · subst hpt
      exact hless howe
    · exact hothers p hpt ▸ howe

def Ready (cfg : Config) (s : State) : Prop := AllEnded cfg s.store ∨ Exact cfg s

theorem ready_step (hsound : Sound cfg s) (h : Ready cfg s) (honce : Once s e)
    (htimely : Timely cfg s e) (hs' : step cfg s e = some s') : Ready cfg s' := by
  have hg := grows_step hsound hs'
  rcases h with hended | h
  · exact .inl fun p hp => hg.isEnded (hended p hp)
  cases stepCounts hsound hs' with
  | restarted req hover hr' hcounter hawaited =>
    have hr : counterWritten s.registration = false := by
      rw [show s.registration = .idle from honce]
      rfl
    exact .inr (h.of_before hr hr' hcounter hawaited)
  | registration hcounts hnotifications =>
    exact .inr (exact_registration hsound hg h hcounts hnotifications)
  | notification t hcounts hothers hregistration hawaited =>
    by_cases hended : AllEnded cfg s.store
    · exact .inl fun p hp => hg.isEnded (hended p hp)
    · exact .inr (exact_notification hsound hg h (fun hc => (htimely hc).resolve_right hended)
        hcounts hothers hregistration hawaited)
  | quiet hcounter howes hregistration hawaited =>
    exact .inr (h.of_quiet hg (by rw [hregistration]) (by rw [hregistration]) hawaited hcounter
      fun p => (howes p).mp)

theorem ready_start (cfg : Config) (store : Store) (due : String → Bool) :
    Ready cfg (start cfg store due) := by
  refine .inr ⟨fun _ => ?_, ?_, ?_, ?_, fun _ => rfl⟩
  · exact AList.lookup_erase _ _
  · simp [start, counterWritten]
  · simp [start, counterWritten]
  · simp [start]

theorem counter_of_mem_getReadyTasks {s : Store} (h : cfg.child ∈ getReadyTasks cfg s) :
    ∃ v : Int, counter cfg s = some v ∧ v ≤ 0 := by
  simp only [getReadyTasks, Store.listReadyDepTasks, List.mem_insertionSort, List.mem_filter,
    List.mem_map] at h
  obtain ⟨⟨⟨c, v⟩, ⟨hentry, hle⟩, rfl⟩, -⟩ := h
  exact ⟨v, AList.mem_lookup_iff.mpr hentry, by simpa using hle⟩

/-- In a run that registers the child once, and in which the notifications count it down
in time, `get_ready_tasks` reports it only after every parent has ended. -/
theorem ready_after_parents (cfg : Config) (store : Store) (due : String → Bool)
    {events : List Event} {s : State}
    (honce : Along (step cfg) Once (start cfg store due) events)
    (htimely : Along (step cfg) (Timely cfg) (start cfg store due) events)
    (hrun : run (step cfg) (start cfg store due) events = some s)
    (hready : cfg.child ∈ getReadyTasks cfg s.store) :
    ∀ p ∈ cfg.parents, Ended cfg s.store p := by
  obtain ⟨hsound, hended | h⟩ : Sound cfg s ∧ Ready cfg s :=
    run_invariant_along (I := fun s => Sound cfg s ∧ Ready cfg s)
      (fun _ _ _ h hguard hstep =>
        ⟨sound_step h.1 hstep, ready_step h.1 h.2 hguard.1 hguard.2 hstep⟩)
      ⟨sound_start cfg store due, ready_start cfg store due⟩ (honce.and htimely) hrun
  · exact hended
  obtain ⟨v, hv, hle⟩ := counter_of_mem_getReadyTasks hready
  have hwritten : counterWritten s.registration = true := by
    by_contra hr
    simp [h.fresh (eq_false_of_ne_true hr)] at hv
  obtain ⟨v', hv', henough⟩ := h.enough hwritten
  obtain rfl : v = v' := Option.some_injective _ (hv.symm.trans hv')
  -- nothing is left to recheck and no awaited parent owes a decrement
  have hunchecked : unchecked s.registration = [] := List.length_eq_zero_iff.mp (by omega)
  have howing : owing cfg s = ∅ := Finset.card_eq_zero.mp (by omega)
  intro p hp
  rcases h.settled hwritten p hp with hended | hp | hp
  · exact hended
  · simp [hunchecked] at hp
  · by_contra hopen
    have hidle := hsound.idle_of_not_ended hopen
    have howes : p ∈ owing cfg s := mem_owing.mpr ⟨hp, .inl (by rw [hidle]; rfl)⟩
    simp [howing] at howes

section Instances

instance (s : State) (e : Event) : Decidable (Once s e) :=
  match e with
  | .register _ => inferInstanceAs (Decidable (s.registration = .idle))
  | .registration | .write _ _ | .notification _ | .voteCancel _ _ | .vote _ => isTrue trivial

instance (cfg : Config) (s : Store) : Decidable (AllEnded cfg s) :=
  inferInstanceAs (Decidable (∀ p ∈ cfg.parents, Ended cfg s p))

instance (cfg : Config) (s : State) (e : Event) : Decidable (Timely cfg s e) :=
  match e with
  | .notification t => inferInstanceAs (Decidable
      (countsDown (s.notifications t) = some cfg.child → t ∈ s.awaited ∨ AllEnded cfg s.store))
  | .registration | .write _ _ | .register _ | .voteCancel _ _ | .vote _ => isTrue trivial

end Instances

section TwoParents

private def twoParents : Config := .flow "c" ["a", "b"]

private def allPending : Store := .created ["a", "b", "c"]

private def registering (calls : Nat) : List Event :=
  .register { exemptResources := some [] } :: List.replicate calls .registration

private def inTime : List Event :=
  registering 17 ++ [.write "a" "succeeded", .write "b" "succeeded"] ++
    List.replicate 2 (.notification "a") ++ List.replicate 2 (.notification "b")

/-- The child is ready in a run that meets both conditions. -/
theorem ready_after_parents_in_time :
    Ended twoParents
      (replay (step twoParents) (start twoParents allPending fun _ => false) inTime).store "b" :=
  ready_after_parents twoParents allPending (fun _ => false) (by decide) (by decide)
    (run_eq_replay (by decide)) (by decide) "b" (by decide)

private def countedTwice : List Event :=
  registering 13 ++ [.write "a" "succeeded", .notification "a", .notification "a"] ++
    List.replicate 2 .registration

/-- The counter of a child of two parents is 0 while one of them is still pending. -/
theorem ready_while_parent_open :
    ∃ s, run (step twoParents) (start twoParents allPending fun _ => false) countedTwice = some s ∧
      Along (step twoParents) Once (start twoParents allPending fun _ => false) countedTwice ∧
      twoParents.child ∈ getReadyTasks twoParents s.store ∧
      "b" ∈ twoParents.parents ∧ ¬ Ended twoParents s.store "b" :=
  ⟨replay (step twoParents) (start twoParents allPending fun _ => false) countedTwice,
    run_eq_replay (by decide), by decide, by decide, by decide, by decide⟩

end TwoParents

end Orditect.Governance.Proofs
