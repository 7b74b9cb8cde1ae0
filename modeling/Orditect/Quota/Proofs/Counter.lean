import Orditect.Quota.Scripts
/-!
# The counter against the leases it counts

The leases key and the units key are written together, so they keep the same
members and the same deadline.  The counter is a third key with a life of its
own; `CounterIn D` says by how much it may exceed the recorded units.  With
`D` the non-negative numbers it is never too small, with `D` only zero it is
exact.  Both are kept by both scripts; only the clock can separate them.
-/

namespace Orditect.Quota.Proofs

open Support.Expiring Support.SortedSet Support.Totals

def heldUnits (s : Store) : Int := total id (content s.units)

/-- The lease keys belong together and outlive every lease by a full lifetime. -/
structure Sound (taskTtl : Nat) (s : Store) : Prop where
  members : ∀ t, (∃ score, find t s.leases = some score) ↔ ∃ u, find t s.units = some u
  deadline : s.leases.deadline = s.units.deadline
  nonneg : ∀ t u, find t s.units = some u → 0 ≤ u
  covered : ∀ t score, find t s.leases = some score → score ≤ s.now ∧
    ∃ e, s.leases.deadline = some e ∧ score + taskTtl * 2 * 1000 ≤ e

/-- The counter, while it exists, exceeds the recorded units by some `d` in `D`. -/
def CounterIn (D : Int → Prop) (s : Store) : Prop :=
  ∀ p, s.pending.get = some p → D (p - heldUnits s)

theorem leasesTtl_pos (taskTtl : Nat) : 0 < leasesTtl taskTtl := by
  unfold leasesTtl
  omega

theorem le_leasesTtl (taskTtl : Nat) : taskTtl * 2 ≤ leasesTtl taskTtl := by
  unfold leasesTtl
  omega

variable {s : Store} {t : String} {u : Int} {score : Nat}

theorem heldUnits_nonneg {taskTtl : Nat} (h : Sound taskTtl s) : 0 ≤ heldUnits s :=
  total_nonneg fun t u hu => h.nonneg t u hu

theorem find_units_eq_none {taskTtl : Nat} (h : Sound taskTtl s) (ht : find t s.leases = none) :
    find t s.units = none := by
  refine Option.eq_none_iff_forall_ne_some.mpr fun u hu => ?_
  obtain ⟨score, hscore⟩ := (h.members t).mpr ⟨u, hu⟩
  rw [ht] at hscore
  simp at hscore

theorem leasedUnits_eq {taskTtl : Nat} (h : Sound taskTtl s) :
    leasedUnits s = heldUnits s := by
  have hmem : ∀ t, t ∈ range s.leases ↔ t ∈ content s.units := fun t => by
    rw [mem_range, mem_content]
    exact h.members t
  have hsum := foldl_lookup_eq_total id (nodup_range s.leases) hmem
  simp only [Option.map_id, id_eq] at hsum
  exact hsum

/-! ## Reaping -/

section Reaping

variable {D : Int → Prop} {taskTtl : Nat}

theorem find_leases_reapOne (s : Store) (t x : String) :
    find x (reapOne taskTtl s t).leases = if x = t then none else find x s.leases := by
  unfold reapOne
  split <;> exact find_del t x s.leases

theorem find_units_reapOne (s : Store) (t x : String) :
    find x (reapOne taskTtl s t).units = if x = t then none else find x s.units := by
  unfold reapOne
  split
  · exact find_del t x s.units
  · rename_i hnone
    change find x s.units = _
    split
    · rename_i hx
      rw [hx, hnone]
    · rfl

theorem now_reapOne (s : Store) (t : String) : (reapOne taskTtl s t).now = s.now := by
  unfold reapOne
  split <;> rfl

theorem sound_reapOne (h : Sound taskTtl s) (hu : find t s.units = some u) :
    Sound taskTtl (reapOne taskTtl s t) where
  members := by
    intro x
    rw [find_leases_reapOne, find_units_reapOne]
    split
    · simp
    · exact h.members x
  deadline := by
    simp only [reapOne, hu]
    exact deadline_del_congr t h.members h.deadline
  nonneg := by
    intro x v hv
    rw [find_units_reapOne] at hv
    split at hv
    · simp at hv
    · exact h.nonneg x v hv
  covered := by
    intro x score hx
    have hold : find x s.leases = some score := by
      rw [find_leases_reapOne] at hx
      split at hx
      · simp at hx
      · exact hx
    obtain ⟨hle, e, he, hcov⟩ := h.covered x score hold
    refine ⟨by rw [now_reapOne]; exact hle, e, ?_, hcov⟩
    simp only [reapOne, hu] at hx ⊢
    exact (deadline_store_of_find hx).trans he

theorem counter_reapOne (h : Sound taskTtl s) (hD : ∀ d, D d → 0 ≤ d) (hc : CounterIn D s)
    (hu : find t s.units = some u) :
    CounterIn D (reapOne taskTtl s t) := by
  intro p hp
  have hheld : heldUnits (reapOne taskTtl s t) = heldUnits s - u := by
    simp only [heldUnits, reapOne, hu, del, content_store]
    exact total_erase id hu
  have hle : u ≤ heldUnits s := le_total id h.nonneg hu
  simp only [reapOne, hu] at hp
  cases hpend : s.pending with
  | none => simp [hpend] at hp
  | some counter =>
    simp only [hpend, Option.bind_some, bump_set (leasesTtl_pos taskTtl), get_setEx,
      Option.some.injEq] at hp
    have hd := hc counter.value (by simp [hpend])
    have hnonneg := hD _ hd
    have hexact : p - (heldUnits s - u) = counter.value - heldUnits s := by omega
    rw [hheld, hexact]
    exact hd

theorem pending_reapOne (s : Store) (t : String) :
    (reapOne taskTtl s t).pending.get = none ↔ s.pending.get = none := by
  unfold reapOne
  split
  · cases hpend : s.pending with
    | none => simp
    | some counter => simp [bump_set (leasesTtl_pos taskTtl)]
  · rfl

structure Reaped (D : Int → Prop) (taskTtl : Nat) (s s' : Store) (ts : List String) : Prop where
  now_eq : s'.now = s.now
  sound : Sound taskTtl s'
  counter : CounterIn D s'
  leases : ∀ x, find x s'.leases = if x ∈ ts then none else find x s.leases
  units : ∀ x, find x s'.units = if x ∈ ts then none else find x s.units
  pending : s'.pending.get = none ↔ s.pending.get = none

section

variable (hD : ∀ d, D d → 0 ≤ d)
include hD

theorem reaped_foldl (ts : List String) :
    ∀ s : Store, Sound taskTtl s → CounterIn D s → ts.Nodup →
      (∀ t ∈ ts, ∃ score, find t s.leases = some score) →
      Reaped D taskTtl s (ts.foldl (reapOne taskTtl) s) ts := by
  induction ts with
  | nil =>
    intro s h hc _ _
    exact ⟨rfl, h, hc, by simp, by simp, Iff.rfl⟩
  | cons t ts ih =>
    intro s h hc hnodup hmem
    obtain ⟨hnot, hnodup⟩ := List.nodup_cons.mp hnodup
    obtain ⟨u, hu⟩ := (h.members t).mp (hmem t (by simp))
    have hrest : ∀ x ∈ ts, ∃ score, find x (reapOne taskTtl s t).leases = some score := by
      intro x hx
      have hne : x ≠ t := fun heq => hnot (heq ▸ hx)
      rw [find_leases_reapOne, if_neg hne]
      exact hmem x (by simp [hx])
    have hnext := ih (reapOne taskTtl s t) (sound_reapOne h hu) (counter_reapOne h hD hc hu)
      hnodup hrest
    refine ⟨hnext.now_eq.trans (now_reapOne s t), hnext.sound, hnext.counter, ?_, ?_,
      hnext.pending.trans (pending_reapOne s t)⟩
    · intro x
      rw [List.foldl_cons, hnext.leases x, find_leases_reapOne]
      by_cases hx : x = t <;> by_cases hxs : x ∈ ts <;> simp [hx, hxs]
    · intro x
      rw [List.foldl_cons, hnext.units x, find_units_reapOne]
      by_cases hx : x = t <;> by_cases hxs : x ∈ ts <;> simp [hx, hxs]

theorem reaped_reap (h : Sound taskTtl s) (hc : CounterIn D s) :
    Reaped D taskTtl s (reap taskTtl s)
      (rangeByScore ((s.now : Int) - taskTtl * 1000) s.leases) := by
  refine reaped_foldl hD _ s h hc (nodup_rangeByScore _ _) fun t ht => ?_
  obtain ⟨score, hscore, -⟩ := mem_rangeByScore.mp ht
  exact ⟨score, hscore⟩

theorem find_leases_reap (h : Sound taskTtl s) (hc : CounterIn D s) :
    find t (reap taskTtl s).leases = some score ↔
      find t s.leases = some score ∧ s.now < score + taskTtl * 1000 := by
  rw [(reaped_reap hD h hc).leases t]
  by_cases ht : t ∈ rangeByScore ((s.now : Int) - taskTtl * 1000) s.leases
  · rw [if_pos ht]
    obtain ⟨old, hold, hle⟩ := mem_rangeByScore.mp ht
    constructor
    · intro hfalse
      simp at hfalse
    · rintro ⟨hscore, hlt⟩
      obtain rfl : old = score := Option.some.inj (hold.symm.trans hscore)
      omega
  · rw [if_neg ht]
    refine ⟨fun hscore => ⟨hscore, ?_⟩, fun hscore => hscore.1⟩
    by_contra hge
    exact ht (mem_rangeByScore.mpr ⟨score, hscore, by omega⟩)

theorem find_units_reap (h : Sound taskTtl s) (hc : CounterIn D s)
    (ht : find t (reap taskTtl s).leases = some score) :
    find t (reap taskTtl s).units = find t s.units := by
  have hr := reaped_reap hD h hc
  rw [hr.leases t] at ht
  rw [hr.units t]
  split at ht
  · simp at ht
  · rename_i hnot
    rw [if_neg hnot]

end

end Reaping

/-! ## Writing a lease -/

section Writing

variable {D : Int → Prop} {taskTtl : Nat}

/-- Stamping the lease of `t` and re-arming both keys: either `t` is renewed
with the units it has, or it is recorded with new ones. -/
theorem sound_stamp (h : Sound taskTtl s) {pending : Cell Int} {units : Cell (Hash String Int)}
    (hget : units.get ≠ none) (hfind : ∀ x, x ≠ t → find x units = find x s.units)
    (ht : ∃ u, find t units = some u ∧ 0 ≤ u) :
    Sound taskTtl { s with
      pending := pending
      leases := (put t s.now s.leases).expire s.now (leasesTtl taskTtl)
      units := units.expire s.now (leasesTtl taskTtl) } := by
  have hpos := leasesTtl_pos taskTtl
  have hleases : ∀ x, find x ((put t s.now s.leases).expire s.now (leasesTtl taskTtl)) =
      if x = t then some s.now else find x s.leases := fun x =>
    (find_congr (get_expire hpos _) x).trans (find_put t x s.now s.leases)
  have hunits : ∀ x, find x (units.expire s.now (leasesTtl taskTtl)) = find x units := fun x =>
    find_congr (get_expire hpos _) x
  have hdead : ((put t s.now s.leases).expire s.now (leasesTtl taskTtl)).deadline =
      some (s.now + leasesTtl taskTtl * 1000) := deadline_expire hpos (by simp)
  obtain ⟨u, hu, hu0⟩ := ht
  refine ⟨?_, ?_, ?_, ?_⟩
  · intro x
    change (∃ score, find x (Cell.expire _ _ _) = some score) ↔
      ∃ v, find x (Cell.expire _ _ _) = some v
    rw [hleases x, hunits x]
    by_cases hx : x = t
    · subst hx
      simp [hu]
    · rw [if_neg hx, hfind x hx]
      exact h.members x
  · exact hdead.trans (deadline_expire hpos hget).symm
  · intro x v hv
    change find x (Cell.expire _ _ _) = some v at hv
    rw [hunits x] at hv
    by_cases hx : x = t
    · subst hx
      obtain rfl : u = v := Option.some.inj (hu.symm.trans hv)
      exact hu0
    · exact h.nonneg x v (by rw [← hfind x hx]; exact hv)
  · intro x score hx
    change find x (Cell.expire _ _ _) = some score at hx
    rw [hleases x] at hx
    have hle : score ≤ s.now := by
      split at hx
      · exact (Option.some.inj hx).ge
      · exact (h.covered x score hx).1
    have httl := le_leasesTtl taskTtl
    exact ⟨hle, _, hdead, by omega⟩

theorem sound_pending (h : Sound taskTtl s) (pending : Cell Int) :
    Sound taskTtl { s with pending := pending } :=
  ⟨h.members, h.deadline, h.nonneg, h.covered⟩

structure Renewed (D : Int → Prop) (taskTtl : Nat) (s s' : Store) (t : String) : Prop where
  now_eq : s'.now = s.now
  sound : Sound taskTtl s'
  counter : CounterIn D s'
  alive : s'.pending.get ≠ none
  leases : ∀ x, find x s'.leases = if x = t then some s.now else find x s.leases
  units : ∀ x, find x s'.units = find x s.units

theorem renewed_renew (h : Sound taskTtl s) (h0 : D 0) (hc : CounterIn D s)
    (ht : find t s.leases = some score) :
    (renew taskTtl t s).1.reason = .alreadyReserved ∧
      Renewed D taskTtl s (renew taskTtl t s).2 t := by
  have hpos := leasesTtl_pos taskTtl
  obtain ⟨u, hu⟩ := (h.members t).mp ⟨score, ht⟩
  have hleases : ∀ x, find x ((put t s.now s.leases).expire s.now (leasesTtl taskTtl)) =
      if x = t then some s.now else find x s.leases := fun x =>
    (find_congr (get_expire hpos _) x).trans (find_put t x s.now s.leases)
  have hunits : ∀ x, find x (s.units.expire s.now (leasesTtl taskTtl)) = find x s.units :=
    fun x => find_congr (get_expire hpos _) x
  have hheld : total id (content (s.units.expire s.now (leasesTtl taskTtl))) = heldUnits s :=
    congrArg (total id) (content_congr (get_expire hpos _))
  have hsound : ∀ pending, Sound taskTtl { s with
      pending := pending
      leases := (put t s.now s.leases).expire s.now (leasesTtl taskTtl)
      units := s.units.expire s.now (leasesTtl taskTtl) } := fun pending =>
    sound_stamp h (get_ne_none_of_find hu) (fun _ _ => rfl) ⟨u, hu, h.nonneg t u hu⟩
  refine ⟨rfl, ?_⟩
  unfold renew
  dsimp only
  split
  · rename_i counter hpend
    refine ⟨rfl, hsound _, ?_, by simp [hpend, get_bump hpos], hleases, hunits⟩
    intro p hp
    change D (p - total id (content (s.units.expire s.now (leasesTtl taskTtl))))
    rw [hheld]
    exact hc p (by rw [← get_bump hpos s.pending]; exact hp)
  · refine ⟨rfl, hsound _, ?_, by simp, hleases, hunits⟩
    intro p hp
    have hrebuilt := leasedUnits_eq (hsound s.pending)
    change some (leasedUnits _) = some p at hp
    rw [hrebuilt] at hp
    obtain rfl := Option.some.inj hp
    change D (total id (content (s.units.expire s.now (leasesTtl taskTtl))) -
      total id (content (s.units.expire s.now (leasesTtl taskTtl))))
    rw [sub_self]
    exact h0

theorem currentUnits_spec (h : Sound taskTtl s) (h0 : D 0) (hc : CounterIn D s) :
    ∃ pending, (currentUnits taskTtl s).2 = { s with pending := pending } ∧
      CounterIn D { s with pending := pending } ∧ (pending.get = none → heldUnits s = 0) ∧
      D ((currentUnits taskTtl s).1 - heldUnits s) := by
  unfold currentUnits
  cases hpend : s.pending.get with
  | some current => exact ⟨s.pending, rfl, hc, by simp [hpend], hc current hpend⟩
  | none =>
    have hheld := leasedUnits_eq h
    have hzero : D (leasedUnits s - heldUnits s) := by
      rw [hheld, sub_self]
      exact h0
    dsimp only
    split
    · refine ⟨_, rfl, ?_, by simp, hzero⟩
      intro p hp
      obtain rfl : leasedUnits s = p := by simpa using hp
      exact hzero
    · rename_i hnot
      refine ⟨s.pending, rfl, hc, fun _ => ?_, hzero⟩
      have hnonneg := heldUnits_nonneg h
      omega

structure Admitted (D : Int → Prop) (taskTtl : Nat) (units : Int) (s s' : Store) (t : String) :
    Prop where
  now_eq : s'.now = s.now
  sound : Sound taskTtl s'
  counter : CounterIn D s'
  alive : s'.pending.get ≠ none
  leases : ∀ x, find x s'.leases = if x = t then some s.now else find x s.leases
  held : heldUnits s' = heldUnits s + units
  units : ∀ x, find x s'.units = if x = t then some units else find x s.units

theorem admitTask_spec (h : Sound taskTtl s) (h0 : D 0) (hc : CounterIn D s) (maxUnits : Int)
    {units : Int} (hunits : 0 ≤ units) (ht : find t s.leases = none) :
    ∃ current, D (current - heldUnits s) ∧
      ((maxUnits < current + units ∧
          (admitTask units maxUnits taskTtl t s).1 = ⟨false, .limitExceeded, current, 0⟩ ∧
          ∃ pending, (admitTask units maxUnits taskTtl t s).2 = { s with pending := pending } ∧
            CounterIn D { s with pending := pending } ∧ (pending.get = none → heldUnits s = 0)) ∨
        (current + units ≤ maxUnits ∧
          (admitTask units maxUnits taskTtl t s).1 = ⟨true, .reserved, current + units, units⟩ ∧
          Admitted D taskTtl units s (admitTask units maxUnits taskTtl t s).2 t)) := by
  have hpos := leasesTtl_pos taskTtl
  obtain ⟨pending, hs1, hc1, hdead, hD1⟩ := currentUnits_spec h h0 hc
  refine ⟨(currentUnits taskTtl s).1, hD1, ?_⟩
  have hnone := find_units_eq_none h ht
  by_cases hover : maxUnits < (currentUnits taskTtl s).1 + units
  · refine Or.inl ⟨hover, ?_, pending, ?_, hc1, hdead⟩
    · simp [admitTask, hover]
    · simp only [admitTask, if_pos hover]
      exact hs1
  · refine Or.inr ⟨not_lt.mp hover, by simp [admitTask, hover], ?_⟩
    simp only [admitTask, if_neg hover, hs1]
    have hfind : ∀ x, find x ((put t units s.units).expire s.now (leasesTtl taskTtl)) =
        if x = t then some units else find x s.units := fun x =>
      (find_congr (get_expire hpos _) x).trans (find_put t x units s.units)
    have hheld : total id (content ((put t units s.units).expire s.now (leasesTtl taskTtl))) =
        heldUnits s + units := by
      rw [content_congr (get_expire hpos _)]
      exact total_insert id units hnone
    refine ⟨rfl, ?_, ?_, by simp [bump_set hpos], ?_, hheld, hfind⟩
    · refine sound_stamp h (by simp) (fun x hx => ?_) ⟨units, ?_, hunits⟩
      · rw [find_put, if_neg hx]
      · rw [find_put, if_pos rfl]
    · intro p hp
      rw [bump_set hpos] at hp
      obtain rfl : (currentUnits taskTtl s).1 + units = p := by simpa using hp
      change D (_ - total id _)
      rw [hheld, add_sub_add_right_eq_sub]
      exact hD1
    · intro x
      exact (find_congr (get_expire hpos _) x).trans (find_put t x s.now s.leases)

/-- Everything `quota_reserve.lua` can do to a sound store. -/
inductive Reserved (D : Int → Prop) (taskTtl : Nat) (t : String) (units maxUnits : Int)
    (s : Store) : Reply × Store → Prop
  | invalid (reply : Reply) (hok : reply.ok = false)
      (hreason : reply.reason = .invalidUnits ∨ reply.reason = .invalidMaxUnits) :
      Reserved D taskTtl t units maxUnits s (reply, s)
  | renewed (reply : Reply) (s' : Store) (score : Nat)
      (hold : find t (reap taskTtl s).leases = some score)
      (hreason : reply.reason = .alreadyReserved)
      (h : Renewed D taskTtl (reap taskTtl s) s' t) :
      Reserved D taskTtl t units maxUnits s (reply, s')
  | rejected (current : Int) (pending : Cell Int)
      (hnew : find t (reap taskTtl s).leases = none)
      (hcurrent : D (current - heldUnits (reap taskTtl s)))
      (hover : maxUnits < current + units)
      (hcounter : CounterIn D { reap taskTtl s with pending := pending })
      (hdead : pending.get = none → heldUnits (reap taskTtl s) = 0) :
      Reserved D taskTtl t units maxUnits s
        (⟨false, .limitExceeded, current, 0⟩, { reap taskTtl s with pending := pending })
  | admitted (current : Int) (s' : Store)
      (hnew : find t (reap taskTtl s).leases = none)
      (hcurrent : D (current - heldUnits (reap taskTtl s)))
      (hunits : 0 ≤ units) (hfits : current + units ≤ maxUnits)
      (h : Admitted D taskTtl units (reap taskTtl s) s' t) :
      Reserved D taskTtl t units maxUnits s (⟨true, .reserved, current + units, units⟩, s')

theorem reserved_quotaReserve (h0 : D 0) (hD : ∀ d, D d → 0 ≤ d) (h : Sound taskTtl s)
    (hc : CounterIn D s) (t : String) (units maxUnits : Int) :
    Reserved D taskTtl t units maxUnits s (quotaReserve units maxUnits taskTtl t s) := by
  have hr := reaped_reap hD h hc
  unfold quotaReserve
  split
  · exact .invalid _ rfl (Or.inl rfl)
  · rename_i hunits
    split
    · exact .invalid _ rfl (Or.inr rfl)
    · dsimp only
      cases hfind : find t (reap taskTtl s).leases with
      | some score =>
        obtain ⟨hreason, hren⟩ := renewed_renew hr.sound h0 hr.counter hfind
        exact .renewed _ _ score hfind hreason hren
      | none =>
        obtain ⟨current, hcur, hcase⟩ := admitTask_spec hr.sound h0 hr.counter maxUnits
          (not_lt.mp hunits) hfind
        rcases hcase with ⟨hover, hreply, pending, hstore, hcounter, hdead⟩ | ⟨hfits, hreply, hadm⟩
        · rw [← Prod.mk.eta (p := admitTask units maxUnits taskTtl t (reap taskTtl s)), hreply,
            hstore]
          exact .rejected current pending hfind hcur hover hcounter hdead
        · rw [← Prod.mk.eta (p := admitTask units maxUnits taskTtl t (reap taskTtl s)), hreply]
          exact .admitted current _ hfind hcur (not_lt.mp hunits) hfits hadm

theorem now_quotaReserve (h0 : D 0) (hD : ∀ d, D d → 0 ≤ d) (h : Sound taskTtl s)
    (hc : CounterIn D s) (t : String) (units maxUnits : Int) :
    (quotaReserve units maxUnits taskTtl t s).2.now = s.now := by
  have hreap := (reaped_reap hD h hc).now_eq
  have hcases := reserved_quotaReserve h0 hD h hc t units maxUnits
  generalize quotaReserve units maxUnits taskTtl t s = result at hcases ⊢
  cases hcases with
  | invalid => rfl
  | renewed _ _ _ _ _ hren => exact hren.now_eq.trans hreap
  | rejected => exact hreap
  | admitted _ _ _ _ _ _ hadm => exact hadm.now_eq.trans hreap

theorem pendingUnits_quotaReserve (h : Sound taskTtl s) (hexact : pendingUnits s = heldUnits s)
    (t : String) (units maxUnits : Int) :
    pendingUnits (quotaReserve units maxUnits taskTtl t s).2 =
      heldUnits (quotaReserve units maxUnits taskTtl t s).2 := by
  have hc : CounterIn (· = 0) s := by
    intro p hp
    rw [pendingUnits, hp] at hexact
    exact sub_eq_zero.mpr hexact
  have halive : ∀ {s' : Store}, CounterIn (· = 0) s' → (s'.pending.get = none → heldUnits s' = 0) →
      pendingUnits s' = heldUnits s' := by
    intro s' hc' hdead
    cases hpend : s'.pending.get with
    | none => rw [pendingUnits, hpend, hdead hpend, Option.getD_none]
    | some p =>
      rw [pendingUnits, hpend]
      exact sub_eq_zero.mp (hc' p hpend)
  have hcases := reserved_quotaReserve (D := (· = 0)) rfl (fun d hd => hd.ge) h hc t units maxUnits
  generalize quotaReserve units maxUnits taskTtl t s = result at hcases ⊢
  cases hcases with
  | invalid => exact hexact
  | renewed _ _ _ _ _ hren => exact halive hren.counter fun hnone => absurd hnone hren.alive
  | rejected _ _ _ _ _ hcounter hdead => exact halive hcounter hdead
  | admitted _ _ _ _ _ _ hadm => exact halive hadm.counter fun hnone => absurd hnone hadm.alive

/-! ## Releasing a lease and letting the clock run -/

structure Released (D : Int → Prop) (taskTtl : Nat) (s s' : Store) (t : String) : Prop where
  now_eq : s'.now = s.now
  sound : Sound taskTtl s'
  counter : CounterIn D s'
  leases : ∀ x, find x s'.leases = if x = t then none else find x s.leases
  units : ∀ x, find x s'.units = if x = t then none else find x s.units

theorem pending_quotaRelease {p : Int} (hfind : find t s.leases = some score)
    (hu : find t s.units = some u) (hnonneg : 0 ≤ u) {fallbackTtl : Nat}
    (hp : (quotaRelease t fallbackTtl s).2.pending.get = some p) :
    ∃ q, s.pending.get = some q ∧ p = max 0 (q - u) := by
  simp only [quotaRelease, hfind, hu, Option.getD_some] at hp
  cases hpend : s.pending.get with
  | none =>
    have hdead := get_eq_none.mp hpend
    have hmax : max 0 (pendingUnits s - u) = 0 := by
      simp only [pendingUnits, hpend, Option.getD_none]
      omega
    simp [hmax, hdead, Cell.ttl] at hp
  | some q =>
    refine ⟨q, rfl, ?_⟩
    simp only [pendingUnits, hpend, Option.getD_some] at hp
    split at hp
    · simp at hp
    · split at hp
      · rename_i hpos
        rw [get_expire (by omega), get_set] at hp
        exact (Option.some.inj hp).symm
      · by_cases hzero : fallbackTtl = 0
        · simp [Cell.expire, hzero] at hp
        · rw [get_expire (Nat.pos_of_ne_zero hzero), get_set] at hp
          exact (Option.some.inj hp).symm

theorem sound_del (h : Sound taskTtl s) (t : String) (pending : Cell Int) :
    Sound taskTtl { s with
      pending := pending, leases := del t s.leases, units := del t s.units } := by
  refine ⟨?_, deadline_del_congr t h.members h.deadline, ?_, ?_⟩
  · intro x
    change (∃ score, find x (del t s.leases) = some score) ↔
      ∃ v, find x (del t s.units) = some v
    rw [find_del, find_del]
    split
    · simp
    · exact h.members x
  · intro x v hv
    change find x (del t s.units) = some v at hv
    rw [find_del] at hv
    split at hv
    · simp at hv
    · exact h.nonneg x v hv
  · intro x sc hx
    change find x (del t s.leases) = some sc at hx
    have hold : find x s.leases = some sc := by
      rw [find_del] at hx
      split at hx
      · simp at hx
      · exact hx
    obtain ⟨hle, e, he, hcov⟩ := h.covered x sc hold
    exact ⟨hle, e, (deadline_store_of_find hx).trans he, hcov⟩

theorem released_quotaRelease (hD : ∀ d, D d → 0 ≤ d) (h : Sound taskTtl s) (hc : CounterIn D s)
    (t : String) (fallbackTtl : Nat) :
    Released D taskTtl s (quotaRelease t fallbackTtl s).2 t := by
  cases hfind : find t s.leases with
  | none =>
    have hnone := find_units_eq_none h hfind
    simp only [quotaRelease, hfind]
    refine ⟨rfl, h, hc, fun x => ?_, fun x => ?_⟩
    · split
      · rename_i hx
        rw [hx, hfind]
      · rfl
    · split
      · rename_i hx
        rw [hx, hnone]
      · rfl
  | some score =>
    obtain ⟨u, hu⟩ := (h.members t).mp ⟨score, hfind⟩
    have hcounter : CounterIn D (quotaRelease t fallbackTtl s).2 := by
      intro p hp
      obtain ⟨q, hq, rfl⟩ := pending_quotaRelease hfind hu (h.nonneg t u hu) hp
      have hheld : heldUnits (quotaRelease t fallbackTtl s).2 = heldUnits s - u := by
        simp only [quotaRelease, hfind, heldUnits, del, content_store]
        exact total_erase id hu
      have hle : u ≤ heldUnits s := le_total id h.nonneg hu
      have hd := hc q hq
      have hnonneg := hD _ hd
      -- the counter is not below the recorded units, so nothing is cut off
      have hexact : max 0 (q - u) - (heldUnits s - u) = q - heldUnits s := by omega
      rw [hheld, hexact]
      exact hd
    simp only [quotaRelease, hfind, hu, Option.getD_some] at hcounter ⊢
    exact ⟨rfl, sound_del h t _, hcounter, fun x => find_del t x _, fun x => find_del t x _⟩

/-- The two lease keys lapse at the same instant; a lapse leaves no lease. -/
theorem tick_spec (h : Sound taskTtl s) (ms : Nat) :
    Sound taskTtl (tick ms s) ∧
      (((tick ms s).leases = s.leases ∧ (tick ms s).units = s.units) ∨
        ((tick ms s).leases = none ∧ (tick ms s).units = none ∧
          ∃ e, s.leases.deadline = some e ∧ e ≤ s.now + ms)) := by
  have hempty : ∀ pending : Cell Int,
      Sound taskTtl ⟨s.now + ms, pending, none, none⟩ := fun pending =>
    ⟨by simp, rfl, by simp, by simp⟩
  rcases purge_eq_or (s.now + ms) s.leases with ⟨hkeep, hlive⟩ | ⟨hdrop, e, he, hle⟩
  · have hkeep' : s.units.purge (s.now + ms) = s.units :=
      purge_of_live fun e he => hlive e (h.deadline.trans he)
    dsimp only [tick]
    rw [hkeep, hkeep']
    refine ⟨⟨h.members, h.deadline, h.nonneg, ?_⟩, Or.inl ⟨rfl, rfl⟩⟩
    intro t score ht
    obtain ⟨hs, hcov⟩ := h.covered t score ht
    exact ⟨hs.trans (Nat.le_add_right _ _), hcov⟩
  · have hdrop' : s.units.purge (s.now + ms) = none :=
      purge_of_lapsed (h.deadline.symm.trans he) hle
    dsimp only [tick]
    rw [hdrop, hdrop']
    exact ⟨hempty _, Or.inr ⟨rfl, rfl, e, he, hle⟩⟩

theorem pending_tick {ms : Nat} {p : Int} (hp : (tick ms s).pending.get = some p) :
    s.pending.get = some p := by
  simp only [tick] at hp
  rcases purge_eq_or (s.now + ms) s.pending with ⟨hkeep, -⟩ | ⟨hdrop, -⟩
  · rwa [hkeep] at hp
  · rw [hdrop] at hp
    simp at hp

end Writing

end Orditect.Quota.Proofs
