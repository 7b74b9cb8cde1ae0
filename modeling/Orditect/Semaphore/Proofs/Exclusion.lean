import Orditect.Semaphore.Scripts
/-!
# At most `limit` leases at a time

The sorted set never exceeds the limit, so it is enough that every running
lease is still in it: neither the lazy reaping, nor a clean-up against a stale
clock reading, nor the expiry of the whole key may drop one.
-/

namespace Orditect.Semaphore.Proofs

open Support.Expiring Support.SortedSet Support.Transition

theorem lease_le_keyTtl (leaseMs : Nat) : leaseMs ≤ keyTtl leaseMs * 1000 := by
  unfold keyTtl
  omega

theorem keyTtl_pos (leaseMs : Nat) : 0 < keyTtl leaseMs := by
  unfold keyTtl
  omega

/-- What every reachable state satisfies. -/
structure Inv (cfg : Config) (s : State) : Prop where
  card_le : card s.store.key ≤ cfg.limit
  live : s.store.key.Live s.store.now
  held_mem : ∀ t since, s.held t = some since → s.store.now < since + cfg.leaseMs →
    find t s.store.key = some since
  covered : ∀ t score, find t s.store.key = some score → score ≤ s.store.now ∧
    ∃ e, s.store.key.deadline = some e ∧ score + cfg.leaseMs ≤ e
  readings_le : ∀ r ∈ s.readings, r ≤ s.store.now

theorem inv_start (cfg : Config) (now : Nat) : Inv cfg (start now) where
  card_le := by simp [start, card]
  live := live_none now
  held_mem := by simp [start]
  covered := by simp [start]
  readings_le := by simp [start]

variable {cfg : Config} {s : State} {token : String} {s' : State}

theorem inv_reap (h : Inv cfg s) {r : Nat} (hr : r ≤ s.store.now) :
    Inv cfg { s with
      store := { s.store with key := remRangeByScore ((r : Int) - cfg.leaseMs) s.store.key } } where
  card_le := (card_remRangeByScore_le _ _).trans h.card_le
  live := fun e he => h.live e (deadline_store he)
  held_mem := by
    intro t since hheld hlt
    refine find_remRangeByScore.mpr ⟨h.held_mem t since hheld hlt, ?_⟩
    change s.store.now < since + cfg.leaseMs at hlt
    omega
  covered := by
    intro t score hfind
    obtain ⟨hle, e, he, hcov⟩ := h.covered t score (find_remRangeByScore.mp hfind).1
    refine ⟨hle, e, ?_, hcov⟩
    rw [← he]
    exact deadline_store_of_find hfind
  readings_le := h.readings_le

theorem inv_stamp (h : Inv cfg s) (hcard : card (put token s.store.now s.store.key) ≤ cfg.limit) :
    Inv cfg { s with
      store := { s.store with
        key := (put token s.store.now s.store.key).expire s.store.now (keyTtl cfg.leaseMs) }
      held := note s.held token (some s.store.now) } := by
  have hpos := keyTtl_pos cfg.leaseMs
  have hget : ((put token s.store.now s.store.key).expire s.store.now (keyTtl cfg.leaseMs)).get =
      (put token s.store.now s.store.key).get := get_expire hpos _
  have hdead : ((put token s.store.now s.store.key).expire s.store.now
      (keyTtl cfg.leaseMs)).deadline = some (s.store.now + keyTtl cfg.leaseMs * 1000) :=
    deadline_expire hpos (by simp)
  have hfind := fun t => (find_congr hget t).trans (find_put token t s.store.now s.store.key)
  refine ⟨?_, ?_, ?_, ?_, h.readings_le⟩
  · rw [card, content_congr hget]
    exact hcard
  · intro e he
    obtain rfl : s.store.now + keyTtl cfg.leaseMs * 1000 = e := by simpa [hdead] using he
    change s.store.now < s.store.now + keyTtl cfg.leaseMs * 1000
    omega
  · intro t since hheld hlt
    change find t (Cell.expire _ _ _) = some since
    rw [hfind t]
    change note s.held token (some s.store.now) t = some since at hheld
    unfold note at hheld
    split at hheld
    · rw [if_pos ‹_›]
      exact hheld
    · rw [if_neg ‹_›]
      exact h.held_mem t since hheld hlt
  · intro t score hmem
    change find t (Cell.expire _ _ _) = some score at hmem
    rw [hfind t] at hmem
    have hle : score ≤ s.store.now := by
      split at hmem
      · exact (Option.some.inj hmem).ge
      · exact (h.covered t score hmem).1
    have hlease := lease_le_keyTtl cfg.leaseMs
    exact ⟨hle, _, hdead, by omega⟩

theorem inv_release (h : Inv cfg s) (token : String) :
    Inv cfg { s with store := semRelease token s.store, held := note s.held token none } where
  card_le := (card_del_le _ _).trans h.card_le
  live := fun e he => h.live e (deadline_store he)
  held_mem := by
    intro t since hheld hlt
    change note s.held token none t = some since at hheld
    unfold note at hheld
    split at hheld
    · simp at hheld
    · rw [semRelease, find_del, if_neg ‹_›]
      exact h.held_mem t since hheld hlt
  covered := by
    intro t score hmem
    have hfind : find t s.store.key = some score := by
      rw [semRelease, find_del] at hmem
      split at hmem
      · simp at hmem
      · exact hmem
    obtain ⟨hle, e, he, hcov⟩ := h.covered t score hfind
    exact ⟨hle, e, (deadline_store_of_find hmem).trans he, hcov⟩
  readings_le := h.readings_le

theorem inv_advance (h : Inv cfg s) (ms : Nat) :
    Inv cfg { s with
      store := ⟨s.store.now + ms, s.store.key.purge (s.store.now + ms)⟩ } := by
  have hreadings : ∀ r ∈ s.readings, r ≤ s.store.now + ms :=
    fun r hr => (h.readings_le r hr).trans (Nat.le_add_right _ _)
  rcases purge_eq_or (s.store.now + ms) s.store.key with ⟨hkeep, hlive⟩ | ⟨hdrop, e, he, hle⟩
  · rw [hkeep]
    refine ⟨h.card_le, hlive, ?_, ?_, hreadings⟩
    · intro t since hheld hlt
      change s.store.now + ms < since + cfg.leaseMs at hlt
      exact h.held_mem t since hheld (by omega)
    · intro t score hfind
      obtain ⟨hs, hcov⟩ := h.covered t score hfind
      exact ⟨hs.trans (Nat.le_add_right _ _), hcov⟩
  · rw [hdrop]
    refine ⟨by simp [card], live_none _, ?_, by simp, hreadings⟩
    intro t since hheld hlt
    change s.store.now + ms < since + cfg.leaseMs at hlt
    obtain ⟨-, d, hd, hcov⟩ := h.covered t since (h.held_mem t since hheld (by omega))
    obtain rfl : d = e := Option.some.inj (hd.symm.trans he)
    omega

theorem inv_acquire (h : Inv cfg s) (hstep : step cfg s (.acquire token) = some s') :
    Inv cfg s' := by
  have hreap := inv_reap h (Nat.le_refl s.store.now)
  simp only [step, semAcquire] at hstep
  split at hstep
  · rename_i hgrant
    split at hgrant
    · rename_i hlt
      obtain ⟨-, rfl⟩ := Prod.mk.inj hgrant
      obtain rfl := Option.some.inj hstep
      exact inv_stamp hreap ((card_put_le _ _ _).trans hlt)
    · simp at hgrant
  · rename_i hfull
    split at hfull
    · simp at hfull
    · obtain ⟨-, rfl⟩ := Prod.mk.inj hfull
      obtain rfl := Option.some.inj hstep
      exact hreap

theorem inv_refresh (h : Inv cfg s) (hstep : step cfg s (.refresh token) = some s') :
    Inv cfg s' := by
  simp only [step, semRefresh] at hstep
  cases hfind : find token s.store.key with
  | none =>
    obtain rfl : s = s' := by simpa [hfind] using hstep
    exact h
  | some score =>
    simp only [hfind, Option.some.injEq] at hstep
    subst hstep
    exact inv_stamp h ((card_put_of_find hfind).le.trans h.card_le)

theorem inv_step {e : Event} (h : Inv cfg s) (hstep : step cfg s e = some s') : Inv cfg s' := by
  cases e with
  | acquire token => exact inv_acquire h hstep
  | refresh token => exact inv_refresh h hstep
  | release token =>
    obtain rfl := Option.some.inj hstep
    exact inv_release h token
  | readClock =>
    obtain rfl := Option.some.inj hstep
    refine ⟨h.card_le, h.live, h.held_mem, h.covered, ?_⟩
    intro r hr
    rcases List.mem_cons.mp hr with rfl | hr
    · exact Nat.le_refl _
    · exact h.readings_le r hr
  | cleanUp nowMs =>
    simp only [step] at hstep
    split at hstep
    · rename_i hmem
      obtain rfl := Option.some.inj hstep
      have hreap := inv_reap h (h.readings_le nowMs hmem)
      exact ⟨hreap.card_le, hreap.live, hreap.held_mem, hreap.covered,
        fun r hr => h.readings_le r (List.mem_of_mem_erase hr)⟩
    · simp at hstep
  | advance ms =>
    obtain rfl := Option.some.inj hstep
    exact inv_advance h ms

theorem inv_run {now : Nat} {es : List Event} (hrun : run (step cfg) (start now) es = some s) :
    Inv cfg s :=
  run_invariant (fun _ _ _ => inv_step) (inv_start cfg now) hrun

/-! ## A token that left the set stays out -/

theorem not_inSet_release (s : State) (token : String) :
    find token (semRelease token s.store).key = none := by
  rw [semRelease, find_del, if_pos rfl]

theorem find_of_reap {bound : Int} {c : Cell (ZSet String)} (h : find token c = none) :
    find token (remRangeByScore bound c) = none := by
  refine Option.eq_none_iff_forall_ne_some.mpr fun score hscore => ?_
  rw [(find_remRangeByScore.mp hscore).1] at h
  simp at h

theorem find_none_step {e : Event} (hout : find token s.store.key = none)
    (hno : ¬ Grants cfg token s e) (hstep : step cfg s e = some s') :
    find token s'.store.key = none := by
  cases e with
  | acquire other =>
    simp only [step, semAcquire] at hstep
    split at hstep
    · rename_i hgrant
      split at hgrant
      · rename_i hlt
        obtain ⟨-, rfl⟩ := Prod.mk.inj hgrant
        obtain rfl := Option.some.inj hstep
        have hne : token ≠ other := by
          rintro rfl
          exact hno ⟨rfl, by simp [semAcquire, hlt]⟩
        change find token (Cell.expire _ _ _) = none
        rw [find_congr (get_expire (keyTtl_pos _) _), find_put, if_neg hne]
        exact find_of_reap hout
      · simp at hgrant
    · rename_i hfull
      split at hfull
      · simp at hfull
      · obtain ⟨-, rfl⟩ := Prod.mk.inj hfull
        obtain rfl := Option.some.inj hstep
        exact find_of_reap hout
  | refresh other =>
    simp only [step, semRefresh] at hstep
    cases hfind : find other s.store.key with
    | none =>
      obtain rfl : s = s' := by simpa [hfind] using hstep
      exact hout
    | some score =>
      simp only [hfind, Option.some.injEq] at hstep
      subst hstep
      have hne : token ≠ other := by
        rintro rfl
        rw [hout] at hfind
        simp at hfind
      change find token (Cell.expire _ _ _) = none
      rw [find_congr (get_expire (keyTtl_pos _) _), find_put, if_neg hne]
      exact hout
  | release other =>
    obtain rfl := Option.some.inj hstep
    change find token (semRelease other s.store).key = none
    rw [semRelease, find_del]
    split
    · rfl
    · exact hout
  | readClock =>
    obtain rfl := Option.some.inj hstep
    exact hout
  | cleanUp nowMs =>
    simp only [step] at hstep
    split at hstep
    · obtain rfl := Option.some.inj hstep
      exact find_of_reap hout
    · simp at hstep
  | advance ms =>
    obtain rfl := Option.some.inj hstep
    rcases purge_eq_or (s.store.now + ms) s.store.key with ⟨hkeep, -⟩ | ⟨hdrop, -⟩
    · change find token (s.store.key.purge _) = none
      rw [hkeep]
      exact hout
    · change find token (s.store.key.purge _) = none
      rw [hdrop]
      rfl

/-- Mutual exclusion of the lease semaphore over every run: at most `limit`
tokens are granted, unreleased and inside their lease, and a token that a step
released or reaped is in the set again only after `acquire` granted it again. -/
theorem leases_within_limit (cfg : Config) (now : Nat) (es : List Event) (s : State)
    (hrun : run (step cfg) (start now) es = some s) :
    (∀ tokens : Finset String, (∀ t ∈ tokens, Holds cfg s t) → tokens.card ≤ cfg.limit) ∧
      ∀ (e : Event) (s' : State) (token : String), step cfg s e = some s' →
        (e = .release token ∨ (InSet s token ∧ ¬ InSet s' token)) →
        ∀ (fs : List Event) (u : State),
          Along (step cfg) (fun v f => ¬ Grants cfg token v f) s' fs →
          run (step cfg) s' fs = some u → ¬ InSet u token := by
  have hinv := inv_run hrun
  refine ⟨?_, ?_⟩
  · intro tokens hholds
    refine (card_le_card fun t ht => ?_).trans hinv.card_le
    obtain ⟨since, hheld, hlt⟩ := hholds t ht
    exact ⟨since, hinv.held_mem t since hheld hlt⟩
  · intro e s' token hstep hleft fs u hno hrest
    have hout : find token s'.store.key = none := by
      rcases hleft with rfl | ⟨-, hgone⟩
      · obtain rfl := Option.some.inj hstep
        exact not_inSet_release s token
      · exact Option.eq_none_iff_forall_ne_some.mpr fun score h => hgone ⟨score, h⟩
    have hend := run_invariant_along (I := fun v : State => find token v.store.key = none)
      (fun _ _ _ hI hG => find_none_step hI hG) hout hno hrest
    rintro ⟨score, hscore⟩
    rw [hend] at hscore
    simp at hscore

def subSecond : Config := ⟨1, 300, Nat.one_pos, by decide⟩

def contended : List Event :=
  [.acquire "a", .readClock, .advance 200, .refresh "a", .acquire "b", .advance 200, .cleanUp 5000]

/-- Only `a` holds the slot; once it has released, its watchdog comes too late. -/
theorem leases_within_limit_contended :
    Holds subSecond (replay (step subSecond) (start 5000) contended) "a" ∧
      (∀ tokens : Finset String,
        (∀ t ∈ tokens, Holds subSecond (replay (step subSecond) (start 5000) contended) t) →
          tokens.card ≤ 1) ∧
      ¬ InSet (replay (step subSecond) (replay (step subSecond)
        (replay (step subSecond) (start 5000) contended) [.release "a"])
        [.refresh "a", .advance 50]) "a" := by
  obtain ⟨hlimit, hout⟩ := leases_within_limit subSecond 5000 contended
    (replay (step subSecond) (start 5000) contended) (run_eq_replay (by decide))
  refine ⟨⟨5200, by decide, by decide⟩, hlimit, ?_⟩
  refine hout (.release "a") _ "a" (step_eq_replay (by decide)) (Or.inl rfl)
    [.refresh "a", .advance 50] _ ?_ (run_eq_replay (by decide))
  exact ⟨fun h => absurd h.1 (by decide),
    fun _ _ => ⟨fun h => absurd h.1 (by decide), fun _ _ => trivial⟩⟩

end Orditect.Semaphore.Proofs
