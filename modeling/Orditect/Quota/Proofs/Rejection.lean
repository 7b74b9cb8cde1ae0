import Orditect.Quota.Proofs.Admission
/-!
# Rejections and the life of the counter

The counter key is re-armed on its own by a release (with a rounded reading of
its TTL, or the fallback) and by a reaping pass, while the lease keys keep the
deadline of the last reservation.  As long as no counter survives the lease
keys it is exact and a rejection is justified; one that does survive keeps
rejecting against leases that no longer exist.
-/

namespace Orditect.Quota.Proofs

open Support.Expiring Support.SortedSet Support.Totals Support.Transition

/-- A clock advance that leaves no lease leaves no counted unit either. -/
def LapseTogether (s : State) : Event → Prop
  | .advance ms => (tick ms s.store).leases = none → pendingUnits (tick ms s.store) = 0
  | _ => True

instance (s : State) : ∀ e, Decidable (LapseTogether s e)
  | .advance _ => inferInstanceAs (Decidable (_ → _))
  | .reserve .. => isTrue trivial
  | .release _ => isTrue trivial

theorem counter_tick_exact {taskTtl : Nat} {s : Store} (h : Sound taskTtl s)
    (hc : CounterIn (· = 0) s) {ms : Nat}
    (hlapse : (tick ms s).leases = none → pendingUnits (tick ms s) = 0) :
    CounterIn (· = 0) (tick ms s) := by
  intro p hp
  obtain ⟨-, ⟨-, hu⟩ | ⟨hl, hu, -⟩⟩ := tick_spec h ms
  · have hexact := hc p (pending_tick hp)
    simp only [heldUnits, hu] at hexact ⊢
    exact hexact
  · have hzero : p = 0 := by
      have hpend := hlapse hl
      rwa [pendingUnits, hp] at hpend
    simp [heldUnits, hu, hzero]

theorem inv_run_exact {cfg : Config} {now : Nat} {es : List Event} {s : State}
    (hlapse : Along (step cfg) LapseTogether (start now) es)
    (hrun : run (step cfg) (start now) es = some s) : Inv (· = 0) cfg s := by
  have hD : ∀ d : Int, d = 0 → 0 ≤ d := fun d h => h.ge
  refine run_invariant_along ?_ (inv_start _ cfg now) hlapse hrun
  intro s e s' h hG hstep
  cases e with
  | reserve t units maxUnits => exact inv_reserve (D := (· = 0)) rfl hD h hstep
  | release t => exact inv_release hD h hstep
  | advance ms => exact inv_advance h (counter_tick_exact h.sound h.counter hG) hstep

/-- The quota over-rejects only through a counter that outlived its leases: in
every run without one, `limit_exceeded` means that the young leases and the
requested units exceed the limit. -/
theorem rejection_justified (cfg : Config) (now : Nat) (es : List Event) (s : State)
    (taskId : String) (units maxUnits : Int)
    (hlapse : Along (step cfg) LapseTogether (start now) es)
    (hrun : run (step cfg) (start now) es = some s)
    (hrej : (quotaReserve units maxUnits cfg.taskTtl taskId s.store).1.reason = .limitExceeded) :
    maxUnits < youngUnits cfg s + units := by
  have hD : ∀ d : Int, d = 0 → 0 ≤ d := fun d h => h.ge
  have h := inv_run_exact hlapse hrun
  have hcases := reserved_quotaReserve (D := (· = 0)) rfl hD h.sound h.counter taskId units maxUnits
  rw [youngUnits_eq_reap hD h]
  generalize quotaReserve units maxUnits cfg.taskTtl taskId s.store = result at hcases hrej
  cases hcases with
  | invalid reply hfalse hreason =>
    rcases hreason with hreason | hreason <;> simp [hreason] at hrej
  | renewed reply store score hold hreason hren => simp [hreason] at hrej
  | rejected current pending hnone hcurrent hover hcounter hdead =>
    have hexact : current - heldUnits (reap cfg.taskTtl s.store) = 0 := hcurrent
    omega
  | admitted current store hnone hcurrent hunits hfits hadm => simp at hrej

def hourFallback : Config := ⟨1, 3600, Nat.one_pos⟩

def lateRelease : List Event :=
  [.reserve "a" 5 10, .reserve "b" 5 10, .advance 1600, .release "b", .advance 500]

/-- No lease is left, and six of ten units are refused: the release re-armed the
counter with the fallback because its TTL read zero. -/
theorem rejected_by_stale_counter :
    run (step hourFallback) (start 0) lateRelease =
        some (replay (step hourFallback) (start 0) lateRelease) ∧
      (quotaReserve 6 10 1 "c" (replay (step hourFallback) (start 0) lateRelease).store).1 =
        ⟨false, .limitExceeded, 5, 0⟩ ∧
      youngUnits hourFallback (replay (step hourFallback) (start 0) lateRelease) + 6 ≤ 10 :=
  ⟨run_eq_replay (by decide), by decide, by decide⟩

def timelyRelease : List Event :=
  [.reserve "a" 5 10, .reserve "b" 5 10, .advance 900, .release "b", .advance 1100,
    .reserve "d" 5 10]

/-- Here a refusal has a lease to show for it. -/
theorem rejection_justified_timely :
    (quotaReserve 6 10 1 "c" (replay (step hourFallback) (start 0) timelyRelease).store).1 =
        ⟨false, .limitExceeded, 5, 0⟩ ∧
      10 < youngUnits hourFallback (replay (step hourFallback) (start 0) timelyRelease) + 6 :=
  ⟨by decide, rejection_justified hourFallback 0 timelyRelease _ "c" 6 10 (by decide)
    (run_eq_replay (by decide)) (by decide)⟩

/-- The condition is exact: once a counter has outlived the lease keys, nothing is
leased and a task asking for the whole limit is still refused. -/
theorem refused_after_lapse {cfg : Config} {now ms : Nat} {es : List Event} {s s' : State}
    (hrun : run (step cfg) (start now) es = some s)
    (hstep : step cfg s (.advance ms) = some s') (hbad : ¬ LapseTogether s (.advance ms))
    (taskId : String) {maxUnits : Int} (hmax : 0 < maxUnits) :
    youngUnits cfg s' = 0 ∧
      (quotaReserve maxUnits maxUnits cfg.taskTtl taskId s'.store).1.reason = .limitExceeded := by
  have h : Inv (0 ≤ ·) cfg s' :=
    inv_advance (inv_run hrun) (counter_tick_nonneg (inv_run hrun).sound (inv_run hrun).counter ms)
      hstep
  obtain ⟨hleases, hcounted⟩ : s'.store.leases = none ∧ pendingUnits s'.store ≠ 0 := by
    obtain rfl := Option.some.inj hstep
    simpa [LapseTogether] using hbad
  have hheld : heldUnits s'.store = 0 := by
    have hnone : ∀ t, find t s'.store.units = none := fun t =>
      find_units_eq_none h.sound (by rw [hleases]; rfl)
    exact (total_congr fun t => by rw [show (content s'.store.units).lookup t = none from hnone t]
                                   simp).trans (total_empty id)
  refine ⟨(youngUnits_eq h (by simp [hleases])).trans hheld, ?_⟩
  cases hpend : s'.store.pending.get with
  | none => simp [pendingUnits, hpend] at hcounted
  | some p =>
    have hpos : 0 < p := by
      have hge : 0 ≤ p - heldUnits s'.store := h.counter p hpend
      have hne : p ≠ 0 := by simpa [pendingUnits, hpend] using hcounted
      omega
    have hreap : reap cfg.taskTtl s'.store = s'.store := by
      simp [reap, hleases, rangeByScore]
    have hover : maxUnits < p + maxUnits := by omega
    simp [quotaReserve, hreap, hleases, admitTask, currentUnits, hpend, hover,
      not_lt.mpr hmax.le, not_le.mpr hmax]

theorem refused_after_lapse_late :
    (quotaReserve 10 10 1 "c" (replay (step hourFallback) (start 0) lateRelease).store).1.reason =
      .limitExceeded :=
  (refused_after_lapse (run_eq_replay (by decide : (run (step hourFallback) (start 0)
    (lateRelease.take 4)).isSome = true)) rfl (by decide) "c" (by decide)).2

end Orditect.Quota.Proofs
