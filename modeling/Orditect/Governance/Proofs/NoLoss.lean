import Orditect.Governance.Proofs.Countdown
/-!
# No lost readiness

However the notifications miss the child, decrement before the counter is written or
race with the recheck: the counter never exceeds the parents still to be rechecked plus
those whose notification is still going to count the child down.  Both are gone once the
registration has returned and every notification has completed.
-/

namespace Orditect.Governance.Proofs

open Support.Transition

variable {cfg : Config} {s s' : State} {e : Event}

/-- The parents, rechecked or never counted, whose notification will find the child among
its active children or is about to count it down. -/
def outstanding (cfg : Config) (s : State) : Finset String :=
  cfg.parents.toFinset.filter fun p => p ∉ unchecked s.registration ∧
    cfg.child ∈ s.store.activeChildren p ∧ Owes cfg.child (s.notifications p)

theorem mem_outstanding {p : String} : p ∈ outstanding cfg s ↔
    p ∈ cfg.parents ∧ p ∉ unchecked s.registration ∧
      cfg.child ∈ s.store.activeChildren p ∧ Owes cfg.child (s.notifications p) := by
  simp [outstanding]

section

variable (hg : Grows cfg s.store s'.store)
  (htodo : ∀ p ∈ unchecked s'.registration, p ∈ unchecked s.registration)
include hg htodo

theorem still_outstanding {p : String} (hp : p ∈ outstanding cfg s)
    (howes : cfg.child ∈ s.store.activeChildren p →
      Owes cfg.child (s.notifications p) → Owes cfg.child (s'.notifications p)) :
    p ∈ outstanding cfg s' := by
  obtain ⟨hparent, hdone, hlisted, howe⟩ := mem_outstanding.mp hp
  exact mem_outstanding.mpr
    ⟨hparent, fun h => hdone (htodo p h), hg.listed hlisted, howes hlisted howe⟩

theorem outstanding_subset
    (howes : ∀ p, cfg.child ∈ s.store.activeChildren p →
      Owes cfg.child (s.notifications p) → Owes cfg.child (s'.notifications p)) :
    outstanding cfg s ⊆ outstanding cfg s' :=
  fun p hp => still_outstanding hg htodo hp (howes p)

end

def CountsDown (cfg : Config) (s : State) : Prop :=
  counterWritten s.registration = true → ∃ v : Int, counter cfg s.store = some v ∧
    v ≤ (unchecked s.registration).length + (outstanding cfg s).card

theorem CountsDown.of_quiet (h : CountsDown cfg s) (hg : Grows cfg s.store s'.store)
    (hwritten : counterWritten s'.registration = counterWritten s.registration)
    (htodo : unchecked s'.registration = unchecked s.registration)
    (hcounter : counter cfg s'.store = counter cfg s.store)
    (howes : ∀ p, cfg.child ∈ s.store.activeChildren p →
      Owes cfg.child (s.notifications p) → Owes cfg.child (s'.notifications p)) :
    CountsDown cfg s' := by
  intro hr
  obtain ⟨v, hv, hle⟩ := h (hwritten ▸ hr)
  have hcard := Finset.card_le_card (outstanding_subset hg (fun p hp => htodo ▸ hp) howes)
  exact ⟨v, hcounter.trans hv, by rw [htodo]; omega⟩

theorem countsDown_registration (hsound : Sound cfg s) (hg : Grows cfg s.store s'.store)
    (h : CountsDown cfg s)
    (hcounts : RegistrationCounts cfg s.store s'.store s.awaited s'.awaited s.registration
      s'.registration)
    (hnotifications : s'.notifications = s.notifications) : CountsDown cfg s' := by
  have howes : ∀ p, cfg.child ∈ s.store.activeChildren p →
      Owes cfg.child (s.notifications p) → Owes cfg.child (s'.notifications p) := by
    rw [hnotifications]
    exact fun _ _ => id
  cases hcounts with
  | before hr hr' => exact fun hwritten => by simp [hr'] at hwritten
  | written plan triggered hr hr' hcounter =>
    intro _
    refine ⟨plan.counted.length, hcounter, ?_⟩
    simp only [hr', unchecked]
    omega
  | found p hr hr' htodo hopen hcounter =>
    intro _
    obtain ⟨v, hv, hle⟩ := h hr
    refine ⟨v, hcounter.trans hv, ?_⟩
    have hplaced := hsound.registration.placed hr
    obtain ⟨hparent, hlisted⟩ := hplaced.todo p (by simp [htodo])
    have hnodup := hplaced.nodup
    rw [htodo, List.nodup_cons] at hnodup
    -- the parent passes from the recheck to the notifications: it has not been
    -- notified yet, and its notification will find the child
    have howe : Owes cfg.child (s'.notifications p) :=
      .inl (by rw [hnotifications, hsound.idle_of_not_ended hopen]; rfl)
    have hold : p ∉ outstanding cfg s := fun hp =>
      (mem_outstanding.mp hp).2.1 (by simp [htodo])
    have hnew : insert p (outstanding cfg s) ⊆ outstanding cfg s' := by
      apply Finset.insert_subset
      · exact mem_outstanding.mpr ⟨hparent, hnodup.1, hg.listed hlisted, howe⟩
      · exact outstanding_subset hg (fun q hq => by simp [htodo, hq]) howes
    have hcard := Finset.card_le_card hnew
    rw [Finset.card_insert_of_notMem hold] at hcard
    rw [htodo, List.length_cons] at hle
    omega
  | compensated p hr hr' htodo hended hcounter =>
    intro _
    obtain ⟨v, hv, hle⟩ := h hr
    refine ⟨v - 1, by simpa [hv] using hcounter, ?_⟩
    have hcard := Finset.card_le_card
      (outstanding_subset hg (fun q hq => by simp [htodo, hq]) howes)
    rw [htodo, List.length_cons] at hle
    omega
  | after hr hr' htodo hcounter => exact h.of_quiet hg (hr'.trans hr.symm) htodo hcounter howes

theorem countsDown_notification {t : String} (hg : Grows cfg s.store s'.store)
    (h : CountsDown cfg s)
    (hcounts : NotificationCounts cfg t s.store s'.store (s.notifications t) (s'.notifications t))
    (hothers : ∀ u, u ≠ t → s'.notifications u = s.notifications u)
    (hregistration : s'.registration = s.registration) : CountsDown cfg s' := by
  cases hcounts with
  | counted hcounts howes hread hwalk hcounter =>
    intro hr
    obtain ⟨v, hv, hle⟩ := h (hregistration ▸ hr)
    refine ⟨v - 1, by simpa [hv] using hcounter, ?_⟩
    -- `t` alone may owe nothing any more, and it has just counted the child down
    have hsub : (outstanding cfg s).erase t ⊆ outstanding cfg s' := by
      intro p hp
      obtain ⟨hpt, hp⟩ := Finset.mem_erase.mp hp
      exact still_outstanding hg (fun p hp => hregistration ▸ hp) hp fun _ howe =>
        hothers p hpt ▸ howe
    have hcard := Finset.card_le_card hsub
    have hpred := Finset.pred_card_le_card_erase (s := outstanding cfg s) (a := t)
    rw [hregistration]
    omega
  | passed hcounter hless hkept =>
    refine h.of_quiet hg (by rw [hregistration]) (by rw [hregistration]) hcounter ?_
    intro p hlisted howe
    by_cases hpt : p = t
    · subst hpt
      exact hkept hlisted howe
    · exact hothers p hpt ▸ howe

theorem countsDown_step (hsound : Sound cfg s) (h : CountsDown cfg s)
    (hs' : step cfg s e = some s') : CountsDown cfg s' := by
  have hg := grows_step hsound hs'
  cases stepCounts hsound hs' with
  | restarted req hover hr' => exact fun hwritten => by simp [hr'] at hwritten
  | registration hcounts hnotifications =>
    exact countsDown_registration hsound hg h hcounts hnotifications
  | notification t hcounts hothers hregistration =>
    exact countsDown_notification hg h hcounts hothers hregistration
  | quiet hcounter howes hregistration =>
    exact h.of_quiet hg (by rw [hregistration]) (by rw [hregistration]) hcounter
      fun p _ howe => (howes p).mpr howe

/-- Whatever the registrations and the notifications did to each other: once the last
registration has returned and the notifications of all parents have completed (each of
them has ended then), the counter of the child is there and at most 0. -/
theorem readiness_not_lost (cfg : Config) (store : Store) (due : String → Bool)
    {events : List Event} {s : State}
    (hrun : run (step cfg) (start cfg store due) events = some s)
    (hreturned : s.registration = .returned)
    (hnotified : ∀ p ∈ cfg.parents, s.notifications p = .completed) :
    ∃ v : Int, s.store.remainingDeps.lookup cfg.child = some v ∧ v ≤ 0 := by
  have hinv : Sound cfg s ∧ CountsDown cfg s :=
    run_invariant (I := fun s => Sound cfg s ∧ CountsDown cfg s)
      (fun _ _ _ h hstep => ⟨sound_step h.1 hstep, countsDown_step h.1 h.2 hstep⟩)
      ⟨sound_start cfg store due, fun hwritten => by simp [start, counterWritten] at hwritten⟩ hrun
  obtain ⟨v, hv, hle⟩ := hinv.2 (by rw [hreturned]; rfl)
  have hnone : outstanding cfg s = ∅ := by
    apply Finset.eq_empty_of_forall_notMem
    intro p hp
    obtain ⟨hparent, -, -, howe⟩ := mem_outstanding.mp hp
    simp [hnotified p hparent, Owes, unread, unvisited] at howe
  refine ⟨v, hv, ?_⟩
  simpa [hreturned, unchecked, hnone] using hle

section Racing

private def racing : Config := .flow "c" ["a", "b", "a"]

private def racingStore : Store := .created ["a", "b", "c"]

private def request : Request := { exemptResources := some [] }

private def race : List Event :=
  Event.register request :: List.replicate 7 Event.registration ++ [Event.write "a" "failed"] ++
    List.replicate 3 (Event.notification "a") ++ List.replicate 12 Event.registration ++
    Event.register request :: List.replicate 7 Event.registration ++
    [Event.write "b" "succeeded", Event.notification "b", Event.notification "b"] ++
    List.replicate 10 Event.registration ++ List.replicate 2 (Event.notification "b")

/-- Both registrations of a race return, and the child is ready. -/
theorem readiness_not_lost_racing :
    ∃ v : Int, (replay (step racing) (start racing racingStore fun _ => true)
      race).store.remainingDeps.lookup racing.child = some v ∧ v ≤ 0 :=
  readiness_not_lost racing racingStore (fun _ => true)
    (run_eq_replay (by decide +kernel)) (by decide +kernel) (by decide +kernel)

end Racing

end Orditect.Governance.Proofs
