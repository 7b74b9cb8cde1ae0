import Orditect.Quota.Proofs.Counter
/-!
# Admissions stay within the limit

The history records what was admitted; the store records what is left of it.
Every lease of the store is one of the history, and every lease of the history
that is younger than the task time to live is still in the store, so after a
reaping pass the two hold the same units.
-/

namespace Orditect.Quota.Proofs

open Support.Expiring Support.SortedSet Support.Totals Support.Transition

/-- The store and the history agree on every lease that is still young. -/
structure Inv (D : Int → Prop) (cfg : Config) (s : State) : Prop where
  sound : Sound cfg.taskTtl s.store
  counter : CounterIn D s.store
  recorded : ∀ t score, find t s.store.leases = some score →
    ∃ u, find t s.store.units = some u ∧ s.ledger.lookup t = some ⟨u, score⟩
  kept : ∀ t lease, s.ledger.lookup t = some lease → Young cfg s.store.now lease →
    find t s.store.leases = some lease.since

theorem inv_start (D : Int → Prop) (cfg : Config) (now : Nat) : Inv D cfg (start now) where
  sound := ⟨by simp [start], rfl, by simp [start], by simp [start]⟩
  counter := by
    intro p hp
    simp [start] at hp
  recorded := by
    intro t score ht
    simp [start] at ht
  kept := by
    intro t lease ht
    simp [start] at ht

variable {now : Nat}

section Steps

variable {D : Int → Prop} {cfg : Config} {s : State}

theorem inv_reap (hD : ∀ d, D d → 0 ≤ d) (h : Inv D cfg s) :
    Inv D cfg { s with store := reap cfg.taskTtl s.store } := by
  have hr := reaped_reap hD h.sound h.counter
  refine ⟨hr.sound, hr.counter, ?_, ?_⟩
  · intro t score ht
    obtain ⟨u, hu, hlook⟩ := h.recorded t score ((find_leases_reap hD h.sound h.counter).mp ht).1
    exact ⟨u, (find_units_reap hD h.sound h.counter ht).trans hu, hlook⟩
  · intro t lease hlook hyoung
    have hnow : s.store.now < lease.since + cfg.taskTtl * 1000 := hr.now_eq ▸ hyoung
    exact (find_leases_reap hD h.sound h.counter).mpr ⟨h.kept t lease hlook hnow, hnow⟩

variable {t : String} {units : Int} {s' : State}

theorem inv_stamp (h : Inv D cfg s) {store : Store} {u : Int} (hnow : store.now = s.store.now)
    (hsound : Sound cfg.taskTtl store) (hcounter : CounterIn D store)
    (hleases : ∀ x, find x store.leases = if x = t then some s.store.now else find x s.store.leases)
    (hunits : ∀ x, find x store.units = if x = t then some u else find x s.store.units) :
    Inv D cfg ⟨store, s.ledger.insert t ⟨u, s.store.now⟩⟩ := by
  refine ⟨hsound, hcounter, ?_, ?_⟩
  · intro x score hx
    change find x store.leases = some score at hx
    change ∃ v, find x store.units = some v ∧ (s.ledger.insert t _).lookup x = some ⟨v, score⟩
    rw [hleases x] at hx
    rw [hunits x]
    by_cases hxt : x = t
    · subst hxt
      rw [if_pos rfl] at hx ⊢
      obtain rfl := Option.some.inj hx
      exact ⟨u, rfl, AList.lookup_insert _⟩
    · rw [if_neg hxt] at hx ⊢
      rw [AList.lookup_insert_ne hxt]
      exact h.recorded x score hx
  · intro x lease hlook hyoung
    change find x store.leases = some lease.since
    rw [hleases x]
    by_cases hxt : x = t
    · subst hxt
      obtain rfl : (⟨u, s.store.now⟩ : Lease) = lease :=
        Option.some.inj ((AList.lookup_insert _).symm.trans hlook)
      rw [if_pos rfl]
    · rw [if_neg hxt]
      exact h.kept x lease ((AList.lookup_insert_ne hxt).symm.trans hlook) (hnow ▸ hyoung)

theorem lookup_record_ne {x : String} (hne : x ≠ t) {reason : Reason} {ledger : Hash String Lease} :
    (record t units now reason ledger).lookup x = ledger.lookup x := by
  unfold record
  split
  · exact AList.lookup_insert_ne hne
  · split
    · exact AList.lookup_insert_ne hne
    · rfl
  · rfl

theorem units_record {u : Int} {reason : Reason} {ledger : Hash String Lease}
    (hold : ∀ lease, ledger.lookup t = some lease → lease.units = u) (hu : units = u)
    {lease : Lease} (hlease : (record t units now reason ledger).lookup t = some lease) :
    lease.units = u := by
  unfold record at hlease
  split at hlease
  · rw [AList.lookup_insert] at hlease
    exact (congrArg Lease.units (Option.some.inj hlease)).symm.trans hu
  · split at hlease
    · rename_i old hlook
      rw [AList.lookup_insert] at hlease
      exact (congrArg Lease.units (Option.some.inj hlease)).symm.trans (hold old hlook)
    · exact hold lease hlease
  · exact hold lease hlease

theorem inv_reserve (h0 : D 0) (hD : ∀ d, D d → 0 ≤ d) (h : Inv D cfg s) {maxUnits : Int}
    (hstep : step cfg s (.reserve t units maxUnits) = some s') :
    Inv D cfg s' := by
  have hr := inv_reap hD h
  have hnow := (reaped_reap hD h.sound h.counter).now_eq
  have hcases := reserved_quotaReserve h0 hD h.sound h.counter t units maxUnits
  simp only [step, Option.some.injEq] at hstep
  subst hstep
  generalize quotaReserve units maxUnits cfg.taskTtl t s.store = result at hcases
  cases hcases with
  | invalid reply hok hreason =>
    have hledger : record t units s.store.now reply.reason s.ledger = s.ledger := by
      rcases hreason with hreason | hreason <;> simp [record, hreason]
    simp only [hledger]
    exact h
  | renewed reply store score hold hreason hren =>
    obtain ⟨u, hu, hlook⟩ := hr.recorded t score hold
    have hledger : record t units s.store.now reply.reason s.ledger =
        s.ledger.insert t ⟨u, s.store.now⟩ := by
      simp only [record, hreason]
      rw [show s.ledger.lookup t = some ⟨u, score⟩ from hlook]
    dsimp only
    rw [hledger, ← hnow]
    refine inv_stamp hr hren.now_eq hren.sound hren.counter hren.leases fun x => ?_
    rw [hren.units x]
    split
    · rename_i hx
      rw [hx]
      exact hu
    · rfl
  | rejected current pending hnew hcurrent hover hcounter hdead =>
    exact ⟨sound_pending hr.sound pending, hcounter, hr.recorded, hr.kept⟩
  | admitted current store hnew hcurrent hunits hfits hadm =>
    simp only [record, ← hnow]
    exact inv_stamp hr hadm.now_eq hadm.sound hadm.counter hadm.leases hadm.units

theorem inv_release (hD : ∀ d, D d → 0 ≤ d) (h : Inv D cfg s)
    (hstep : step cfg s (.release t) = some s') : Inv D cfg s' := by
  have hrel := released_quotaRelease hD h.sound h.counter t cfg.fallbackTtl
  obtain rfl := Option.some.inj hstep
  refine ⟨hrel.sound, hrel.counter, ?_, ?_⟩
  · intro x score hx
    change find x (quotaRelease t cfg.fallbackTtl s.store).2.leases = some score at hx
    change ∃ v, find x (quotaRelease t cfg.fallbackTtl s.store).2.units = some v ∧
      (s.ledger.erase t).lookup x = some ⟨v, score⟩
    rw [hrel.leases x] at hx
    rw [hrel.units x]
    by_cases hxt : x = t
    · simp [hxt] at hx
    · rw [if_neg hxt] at hx ⊢
      rw [AList.lookup_erase_ne hxt]
      exact h.recorded x score hx
  · intro x lease hlook hyoung
    change find x (quotaRelease t cfg.fallbackTtl s.store).2.leases = some lease.since
    change (s.ledger.erase t).lookup x = some lease at hlook
    have hxt : x ≠ t := by
      rintro rfl
      simp at hlook
    rw [hrel.leases x, if_neg hxt]
    exact h.kept x lease ((AList.lookup_erase_ne hxt).symm.trans hlook) (hrel.now_eq ▸ hyoung)

theorem inv_advance (h : Inv D cfg s) {ms : Nat} (hcounter : CounterIn D (tick ms s.store))
    (hstep : step cfg s (.advance ms) = some s') :
    Inv D cfg s' := by
  obtain ⟨hsound, hcase⟩ := tick_spec h.sound ms
  obtain rfl := Option.some.inj hstep
  have hyounger : ∀ lease, Young cfg (tick ms s.store).now lease → Young cfg s.store.now lease := by
    intro lease hyoung
    simp only [Young, tick] at hyoung ⊢
    omega
  refine ⟨hsound, hcounter, ?_, ?_⟩
  · intro t score ht
    change find t (tick ms s.store).leases = some score at ht
    change ∃ u, find t (tick ms s.store).units = some u ∧ _
    rcases hcase with ⟨hl, hu⟩ | ⟨hl, -⟩
    · rw [hl] at ht
      rw [hu]
      exact h.recorded t score ht
    · simp [hl] at ht
  · intro t lease hlook hyoung
    have hold := h.kept t lease hlook (hyounger lease hyoung)
    change find t (tick ms s.store).leases = some lease.since
    rcases hcase with ⟨hl, -⟩ | ⟨-, -, e, he, hle⟩
    · rw [hl]
      exact hold
    · obtain ⟨-, e', he', hcov⟩ := h.sound.covered t lease.since hold
      obtain rfl : e = e' := Option.some.inj (he.symm.trans he')
      simp only [Young, tick] at hyoung
      omega

theorem youngUnits_eq (h : Inv D cfg s)
    (hyoung : ∀ t score, find t s.store.leases = some score →
      s.store.now < score + cfg.taskTtl * 1000) :
    youngUnits cfg s = heldUnits s.store := by
  refine total_congr fun t => ?_
  change ((youngLeases cfg s).lookup t).map Lease.units = (find t s.store.units).map id
  rw [Option.map_id, id_eq]
  cases hunits : find t s.store.units with
  | some u =>
    obtain ⟨score, hscore⟩ := (h.sound.members t).mpr ⟨u, hunits⟩
    obtain ⟨v, hv, hlook⟩ := h.recorded t score hscore
    obtain rfl : v = u := Option.some.inj (hv.symm.trans hunits)
    have hfilter : (youngLeases cfg s).lookup t = some ⟨v, score⟩ :=
      lookup_filterEntries.mpr ⟨hlook, decide_eq_true (hyoung t score hscore)⟩
    rw [hfilter]
    rfl
  | none =>
    have hgone : (youngLeases cfg s).lookup t = none := by
      refine Option.eq_none_iff_forall_ne_some.mpr fun lease hlease => ?_
      obtain ⟨hlook, hyng⟩ := lookup_filterEntries.mp hlease
      have hfind := h.kept t lease hlook (of_decide_eq_true hyng)
      obtain ⟨u, hu⟩ := (h.sound.members t).mp ⟨_, hfind⟩
      rw [hunits] at hu
      simp at hu
    rw [hgone]
    rfl

theorem youngUnits_eq_reap (hD : ∀ d, D d → 0 ≤ d) (h : Inv D cfg s) :
    youngUnits cfg s = heldUnits (reap cfg.taskTtl s.store) := by
  have hr := reaped_reap hD h.sound h.counter
  have hreap := youngUnits_eq (inv_reap hD h) fun t score ht => by
    change (reap cfg.taskTtl s.store).now < _
    rw [hr.now_eq]
    exact ((find_leases_reap hD h.sound h.counter).mp ht).2
  simp only [youngUnits, youngLeases, hr.now_eq] at hreap
  exact hreap

end Steps

theorem counter_tick_nonneg {taskTtl : Nat} {s : Store} (h : Sound taskTtl s)
    (hc : CounterIn (0 ≤ ·) s) (ms : Nat) : CounterIn (0 ≤ ·) (tick ms s) := by
  intro p hp
  have hle : 0 ≤ p - heldUnits s := hc p (pending_tick hp)
  have hheld := heldUnits_nonneg h
  obtain ⟨-, ⟨-, hu⟩ | ⟨-, hu, -⟩⟩ := tick_spec h ms
  · simp only [heldUnits, hu] at hle ⊢
    exact hle
  · have hnone : heldUnits (tick ms s) = 0 := by
      simp [heldUnits, hu]
    rw [hnone]
    omega

theorem inv_run {cfg : Config} {es : List Event} {s : State}
    (hrun : run (step cfg) (start now) es = some s) : Inv (0 ≤ ·) cfg s := by
  refine run_invariant ?_ (inv_start _ cfg now) hrun
  intro s e s' h hstep
  cases e with
  | reserve t units maxUnits => exact inv_reserve le_rfl (fun _ h => h) h hstep
  | release t => exact inv_release (fun _ h => h) h hstep
  | advance ms => exact inv_advance h (counter_tick_nonneg h.sound h.counter ms) hstep

/-- The quota never over-admits: whenever a task without a young lease is
admitted, the young leases, its own included, fit into the limit it was
admitted with. -/
theorem admission_within_limit (cfg : Config) (now : Nat) (es : List Event) (s s' : State)
    (taskId : String) (units maxUnits : Int)
    (hrun : run (step cfg) (start now) es = some s)
    (hnew : ∀ lease, s.ledger.lookup taskId = some lease → ¬ Young cfg s.store.now lease)
    (hok : (quotaReserve units maxUnits cfg.taskTtl taskId s.store).1.ok = true)
    (hstep : step cfg s (.reserve taskId units maxUnits) = some s') :
    s'.ledger.lookup taskId = some ⟨units, s.store.now⟩ ∧ youngUnits cfg s' ≤ maxUnits := by
  have hD : ∀ d : Int, 0 ≤ d → 0 ≤ d := fun _ h => h
  have h := inv_run hrun
  have hr := inv_reap hD h
  have hr' := reaped_reap hD h.sound h.counter
  have hinv' := inv_reserve le_rfl hD h hstep
  have hcases := reserved_quotaReserve le_rfl hD h.sound h.counter taskId units maxUnits
  simp only [step, Option.some.injEq] at hstep
  subst hstep
  generalize quotaReserve units maxUnits cfg.taskTtl taskId s.store = result at hcases hok hinv' ⊢
  cases hcases with
  | invalid reply hfalse hreason =>
    rw [hfalse] at hok
    simp at hok
  | renewed reply store score hold hreason hren =>
    -- a lease that survives the reaping pass is young
    obtain ⟨hfind, hyoung⟩ := (find_leases_reap hD h.sound h.counter).mp hold
    obtain ⟨u, -, hlook⟩ := h.recorded taskId score hfind
    exact absurd hyoung (hnew _ hlook)
  | rejected current pending hnone hcurrent hover hcounter hdead => simp at hok
  | admitted current store hnone hcurrent hunits hfits hadm =>
    refine ⟨AList.lookup_insert _, ?_⟩
    have hyoung : ∀ t score, find t store.leases = some score →
        store.now < score + cfg.taskTtl * 1000 := by
      intro t score ht
      have httl := cfg.ttl_pos
      rw [hadm.leases t] at ht
      rw [hadm.now_eq, hr'.now_eq]
      split at ht
      · have hscore : s.store.now = score := hr'.now_eq ▸ Option.some.inj ht
        omega
      · exact ((find_leases_reap hD h.sound h.counter).mp ht).2
    rw [youngUnits_eq hinv' hyoung, hadm.held]
    have hle : 0 ≤ current - heldUnits (reap cfg.taskTtl s.store) := hcurrent
    omega

def oneSecond : Config := ⟨1, 5, Nat.one_pos⟩

def turnover : List Event :=
  [.reserve "a" 5 10, .reserve "b" 4 10, .advance 900, .reserve "b" 4 10, .advance 200]

/-- `c` fits exactly beside the renewed `b`. -/
theorem admission_within_limit_turnover :
    youngUnits oneSecond (replay (step oneSecond) (start 0) turnover) = 4 ∧
      youngUnits oneSecond (replay (step oneSecond) (replay (step oneSecond) (start 0) turnover)
        [.reserve "c" 6 10]) ≤ 10 := by
  have hnone : (replay (step oneSecond) (start 0) turnover).ledger.lookup "c" = none := by decide
  refine ⟨by decide, (admission_within_limit oneSecond 0 turnover
    (replay (step oneSecond) (start 0) turnover) _ "c" 6 10 (run_eq_replay (by decide)) ?_
    (by decide) (step_eq_replay (by decide))).2⟩
  intro lease hlook
  rw [hnone] at hlook
  simp at hlook

end Orditect.Quota.Proofs
