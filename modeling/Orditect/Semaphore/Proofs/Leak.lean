import Orditect.Semaphore.Client
import Orditect.Semaphore.Proofs.Exclusion
/-!
# A call that fails leaves nothing behind

Until the watchdog exists nothing renews the token, so its score is the time of its grant.
From then on the call either returns the token or, in the clean-up handler, takes it out of
the set; the one way out that does neither is a cancelled hook.
-/

namespace Orditect.Semaphore.Client.Proofs

open Support.Expiring Support.SortedSet Support.Transition
open Semaphore.Proofs (keyTtl_pos subSecond)

variable {cfg : Config} {s s' : State} {score : Nat}

/-! ## The token under the scripts -/

theorem find_expire (token : String) (now : Nat) (key : Cell (ZSet String)) :
    find token (key.expire now (keyTtl cfg.leaseMs)) = find token key :=
  find_congr (get_expire (keyTtl_pos cfg.leaseMs) key) token

variable {store : Store} {pc : Pc}

theorem find_semAcquire {token : String} (hne : token ≠ cfg.token)
    (h : find cfg.token (semAcquire cfg.toConfig token store).2.key = some score) :
    find cfg.token store.key = some score := by
  simp only [semAcquire] at h
  split at h
  · rw [find_expire, find_put, if_neg hne.symm] at h
    exact (find_remRangeByScore.mp h).1
  · exact (find_remRangeByScore.mp h).1

theorem semAcquire_self (cfg : Config) (store : Store) :
    (∃ store', semAcquire cfg.toConfig cfg.token store = (some cfg.token, store') ∧
      find cfg.token store'.key = some store.now) ∨
    ∃ store', semAcquire cfg.toConfig cfg.token store = (none, store') ∧
      ∀ score, find cfg.token store'.key = some score → find cfg.token store.key = some score := by
  simp only [semAcquire]
  split
  · refine Or.inl ⟨_, rfl, ?_⟩
    rw [find_expire, find_put, if_pos rfl]
  · exact Or.inr ⟨_, rfl, fun score h => (find_remRangeByScore.mp h).1⟩

theorem find_semRefresh {token : String} (hne : token ≠ cfg.token) :
    find cfg.token (semRefresh cfg.toConfig token store).2.key = find cfg.token store.key := by
  unfold semRefresh
  split
  · rw [find_expire, find_put, if_neg hne.symm]
  · rfl

theorem find_inUse {nowMs : Nat}
    (h : find cfg.token (inUse cfg.toConfig nowMs store).2.key = some score) :
    find cfg.token store.key = some score :=
  (find_remRangeByScore.mp h).1

theorem find_purge {now : Nat} {key : Cell (ZSet String)}
    (h : find cfg.token (key.purge now) = some score) : find cfg.token key = some score := by
  rcases purge_eq_or now key with ⟨hkeep, _⟩ | ⟨hdrop, _⟩
  · rwa [hkeep] at h
  · rw [hdrop] at h
    simp at h

theorem find_other {store' : Store} {e : Semaphore.Event}
    (hother : other cfg store e = some store') (h : find cfg.token store'.key = some score) :
    find cfg.token store.key = some score := by
  cases e with
  | acquire token =>
    simp only [other, Option.ite_none_left_eq_some, Option.some.injEq] at hother
    rw [← hother.2] at h
    exact find_semAcquire hother.1 h
  | refresh token =>
    simp only [other, Option.ite_none_left_eq_some, Option.some.injEq] at hother
    rw [← hother.2, find_semRefresh hother.1] at h
    exact h
  | release token =>
    simp only [other, Option.ite_none_left_eq_some, Option.some.injEq] at hother
    rw [← hother.2, semRelease, find_del, if_neg (Ne.symm hother.1)] at h
    exact h
  | readClock =>
    simp only [other, Option.some.injEq] at hother
    rwa [hother]
  | cleanUp nowMs =>
    simp only [other, Option.ite_none_right_eq_some, Option.some.injEq] at hother
    rw [← hother.2] at h
    exact find_inUse h
  | advance ms =>
    simp only [other, Option.some.injEq] at hother
    rw [← hother] at h
    exact find_purge h

theorem semRefresh_of_not_mem (h : find cfg.token store.key = none) :
    semRefresh cfg.toConfig cfg.token store = (0, store) := by
  simp [semRefresh, h]

/-! ## The invariant -/

def Pc.unguarded : Pc → Bool
  | .script _ | .sleeping _ _ | .clock _ | .cleanUp _ _ | .count _ | .guardStart _ _ => true
  | .hook (.acquired _ _) _ => false
  | .hook _ _ => true
  | .releasing _ | .ended _ => false

def Pc.calling : Pc → Bool
  | .script _ | .ended _ => true
  | _ => false

/-- What every state satisfies that is reached without a cancelled hook. -/
structure Inv (cfg : Config) (s : State) : Prop where
  granted : s.watchdog = .absent →
    s.strays = 0 ∧ ∀ score, find cfg.token s.store.key = some score → s.grantedAt = some score
  sent : s.sent = true → s.watchdog = .absent ∧ Pc.calling s.pc = true ∧ s.reply = none
  unguarded : Pc.unguarded s.pc = true → s.watchdog = .absent
  cleared : s.pc.failed = true →
    s.watchdog = .absent ∨ s.sent = false ∧ find cfg.token s.store.key = none

theorem inv_start (hfresh : find cfg.token store.key = none) :
    Inv cfg (start store) where
  granted := by
    intro _
    refine ⟨rfl, fun score h => ?_⟩
    change find cfg.token store.key = some score at h
    rw [hfresh] at h
    simp at h
  sent := by simp [start, Pc.calling]
  unguarded := by simp [start]
  cleared := by simp [start, Pc.failed]

theorem Inv.not_sent (h : Inv cfg s) (hpc : Pc.calling s.pc = false) : s.sent = false := by
  by_contra hsent
  have hcalling := (h.sent (by simpa using hsent)).2.1
  simp [hpc] at hcalling

theorem Inv.move (h : Inv cfg s) {reply : Option (Option String)}
    (hfind : ∀ score, find cfg.token store.key = some score →
      find cfg.token s.store.key = some score)
    (hsent : s.sent = true → Pc.calling pc = true ∧ reply = none)
    (hunguarded : Pc.unguarded pc = true → s.watchdog = .absent)
    (hcleared : pc.failed = true →
      s.watchdog = .absent ∨ s.sent = false ∧ find cfg.token store.key = none) :
    Inv cfg { s with store := store, pc := pc, reply := reply } where
  granted habsent :=
    ⟨(h.granted habsent).1, fun score hscore => (h.granted habsent).2 score (hfind score hscore)⟩
  sent hs := ⟨(h.sent hs).1, hsent hs⟩
  unguarded := hunguarded
  cleared := hcleared

theorem inv_serve (h : Inv cfg s) (hstep : serve cfg s = some s') : Inv cfg s' := by
  unfold serve at hstep
  split at hstep
  · rename_i hsent
    obtain ⟨habsent, hcalling, -⟩ := h.sent hsent
    obtain ⟨hstrays, hgranted⟩ := h.granted habsent
    rcases semAcquire_self cfg s.store with ⟨store, heq, hfind⟩ | ⟨store, heq, hfind⟩
    · obtain rfl : { s with
          store := store, sent := false, reply := some (some cfg.token)
          grantedAt := some s.store.now } = s' := by simpa [heq] using hstep
      refine ⟨fun _ => ⟨hstrays, fun score hscore => ?_⟩, by simp, fun _ => habsent,
        fun _ => Or.inl habsent⟩
      rw [← hfind]
      exact hscore
    · obtain rfl : { s with store := store, sent := false, reply := some none } = s' := by
        simpa [heq] using hstep
      exact ⟨fun _ => ⟨hstrays, fun score hscore => hgranted score (hfind score hscore)⟩, by simp,
        fun _ => habsent, fun _ => Or.inl habsent⟩
  · simp at hstep

/-! ## The call -/

theorem Inv.proceed (h : Inv cfg s) (hunguarded : Pc.unguarded s.pc = true)
    (hsent : s.sent = false)
    (hfind : ∀ score, find cfg.token store.key = some score →
      find cfg.token s.store.key = some score) (pc : Pc) (reply : Option (Option String)) :
    Inv cfg { s with store := store, pc := pc, reply := reply } :=
  have habsent := h.unguarded hunguarded
  h.move hfind (by simp [hsent]) (fun _ => habsent) (fun _ => Or.inl habsent)

theorem Inv.goesOn (h : Inv cfg s) {pc' : Pc} (hstep : some { s with pc := pc' } = some s')
    (hpc : s.pc = pc) (hunguarded : Pc.unguarded pc = true) (hcalling : Pc.calling pc = false) :
    Inv cfg s' := by
  obtain rfl := Option.some.inj hstep
  exact h.proceed (hpc ▸ hunguarded) (h.not_sent (hpc ▸ hcalling)) (fun _ hs => hs) pc' s.reply

theorem inv_guarded (hsent : s.sent = false) (registered : Bool) (hpc : Pc.unguarded pc = false)
    (hfailed : pc.failed = false) :
    Inv cfg { guarded s with pc := pc, registered := registered } where
  granted := by simp [Client.guarded]
  sent := by simp [Client.guarded, hsent]
  unguarded := by simp [hpc]
  cleared := by simp [hfailed]

theorem unguarded_callHooks_acquired (waited inUse n : Nat) :
    Pc.unguarded (callHooks (.acquired waited inUse) n) = false := by
  cases n <;> rfl

theorem failed_callHooks_acquired (waited inUse n : Nat) :
    (callHooks (.acquired waited inUse) n).failed = false := by
  cases n <;> rfl

theorem Inv.callHooks (h : Inv cfg s) {notice : Notice} {left : Nat}
    (hpc : s.pc = .hook notice left)
    (hstep : some { s with pc := callHooks notice left } = some s') :
    Inv cfg s' := by
  cases notice with
  | acquired waited inUse =>
    have hsent : s.sent = false := h.not_sent (by simp [hpc, Pc.calling])
    obtain rfl := Option.some.inj hstep
    exact h.move (fun _ hs => hs) (by simp [hsent])
      (by simp [unguarded_callHooks_acquired]) (by simp [failed_callHooks_acquired])
  | timeout waited | rejected => exact h.goesOn hstep hpc rfl rfl

theorem inv_resume (h : Inv cfg s) (hstep : resume cfg s = some s') : Inv cfg s' := by
  unfold resume at hstep
  split at hstep
  next delay hpc =>
    obtain ⟨reply, hreply, rfl⟩ := Option.map_eq_some_iff.mp hstep
    have hsent : s.sent = false := by
      by_contra hsent
      have hnone := (h.sent (by simpa using hsent)).2.2
      simp [hnone] at hreply
    exact h.proceed (by simp [hpc, Pc.unguarded]) hsent (fun _ hs => hs) _ _
  next wakeAt delay hpc =>
    have habsent := h.unguarded (by simp [hpc, Pc.unguarded])
    split_ifs at hstep
    obtain rfl := Option.some.inj hstep
    exact ⟨h.granted, fun _ => ⟨habsent, rfl, rfl⟩, fun _ => habsent, fun _ => Or.inl habsent⟩
  next hpc => exact h.goesOn hstep hpc rfl rfl
  next waited nowMs hpc =>
    obtain rfl := Option.some.inj hstep
    exact h.proceed (by simp [hpc, Pc.unguarded]) (h.not_sent (by simp [hpc, Pc.calling]))
      (fun _ hs => find_inUse hs) _ _
  next hpc => exact h.goesOn hstep hpc rfl rfl
  next waited inUse hpc =>
    obtain rfl := Option.some.inj hstep
    exact inv_guarded (h.not_sent (by simp [hpc, Pc.calling])) true
      (unguarded_callHooks_acquired ..) (failed_callHooks_acquired ..)
  next fault hpc =>
    obtain rfl := Option.some.inj hstep
    have hsent : s.sent = false := h.not_sent (by simp [hpc, Pc.calling])
    have hgone : find cfg.token (semRelease cfg.token s.store).key = none := by
      rw [semRelease, find_del, if_pos rfl]
    exact h.move (by simp [hgone]) (by simp [hsent]) (by simp [Pc.unguarded])
      (fun _ => Or.inr ⟨hsent, hgone⟩)
  next notice left hpc => exact h.callHooks hpc hstep
  next => simp at hstep

theorem inv_throw (h : Inv cfg s) {fault : Fault} {served : Bool}
    (hhook : HooksUncancelled s (.throw fault served))
    (hstep : throw cfg fault served s = some s') : Inv cfg s' := by
  unfold throw at hstep
  split at hstep
  next delay hpc =>
    have habsent := h.unguarded (by simp [hpc, Pc.unguarded])
    obtain rfl := Option.some.inj hstep
    -- the script call may still reach the server
    exact h.move (fun _ hs => hs) (fun hsent => ⟨rfl, (h.sent hsent).2.2⟩) (fun _ => habsent)
      (fun _ => Or.inl habsent)
  next hpc => exact h.goesOn hstep hpc rfl rfl
  next hpc => exact h.goesOn hstep hpc rfl rfl
  next hpc => exact h.goesOn hstep hpc rfl rfl
  next waited nowMs hpc =>
    obtain rfl := Option.some.inj hstep
    have hsent : s.sent = false := h.not_sent (by simp [hpc, Pc.calling])
    have hunguarded : Pc.unguarded s.pc = true := by simp [hpc, Pc.unguarded]
    cases served with
    | false => exact h.proceed hunguarded hsent (fun _ hs => hs) _ _
    | true => exact h.proceed hunguarded hsent (fun _ hs => find_inUse hs) _ _
  next waited inUse hpc =>
    have hsent : s.sent = false := h.not_sent (by simp [hpc, Pc.calling])
    cases served with
    | false => exact h.goesOn hstep hpc rfl rfl
    | true =>
      obtain rfl := Option.some.inj hstep
      exact inv_guarded hsent s.registered rfl rfl
  next notice left hpc =>
    split at hstep
    · exact h.callHooks hpc hstep
    · have hunguarded : Pc.unguarded (.hook notice left) = true := by
        cases notice <;> simp_all [HooksUncancelled, cancelsHook, Pc.unguarded]
      exact h.goesOn hstep hpc hunguarded rfl
  next => simp at hstep
  next => simp at hstep

/-! ## The watchdog -/

theorem Inv.watched (h : Inv cfg s) {watchdog : Watchdog} (hexists : s.watchdog ≠ .absent)
    (hexists' : watchdog ≠ .absent)
    (hstore : find cfg.token s.store.key = none → find cfg.token store.key = none)
    (stopEvent registered : Bool) (strays : Nat) :
    Inv cfg { s with
      store := store, watchdog := watchdog, stopEvent := stopEvent
      registered := registered, strays := strays } where
  granted habsent := absurd habsent hexists'
  sent hsent := absurd (h.sent hsent).1 hexists
  unguarded hpc := absurd (h.unguarded hpc) hexists
  cleared hfailed := by
    rcases h.cleared hfailed with habsent | ⟨hsent, hnone⟩
    · exact absurd habsent hexists
    · exact Or.inr ⟨hsent, hstore hnone⟩

theorem find_refreshed (h : find cfg.token s.store.key = none) :
    find cfg.token (refreshed cfg s).store.key = none := by
  rw [refreshed, semRefresh_of_not_mem h]
  exact h

section

variable (h : Inv cfg s)
include h

theorem Inv.leave (hexists : s.watchdog ≠ .absent) : Inv cfg (leave s) :=
  h.watched hexists (by simp) id _ _ _

theorem Inv.loop (hexists : s.watchdog ≠ .absent) : Inv cfg (loop cfg s) := by
  unfold Client.loop
  split
  · exact h.leave hexists
  · exact h.watched hexists (by simp) id _ _ _

theorem Inv.refreshed (hexists : s.watchdog ≠ .absent) :
    Inv cfg (refreshed cfg s) :=
  h.watched hexists hexists find_refreshed _ _ _

theorem inv_wake (hstep : wake cfg s = some s') : Inv cfg s' := by
  unfold wake at hstep
  split at hstep
  next hw =>
    obtain rfl := Option.some.inj hstep
    exact h.loop (by simp [hw])
  next expiresAt hw =>
    split_ifs at hstep
    · obtain rfl := Option.some.inj hstep
      exact h.leave (by simp [hw])
    · obtain rfl := Option.some.inj hstep
      exact h.watched (by simp [hw]) (by simp) id _ _ _
  next => simp at hstep

theorem inv_renew (hstep : renew cfg s = some s') : Inv cfg s' := by
  unfold renew at hstep
  split at hstep
  next hw =>
    have hrefreshed := h.refreshed (by simp [hw])
    have hexists : (refreshed cfg s).watchdog ≠ .absent := by simp [Client.refreshed, hw]
    split_ifs at hstep
    · obtain rfl := Option.some.inj hstep
      exact hrefreshed.leave hexists
    · obtain rfl := Option.some.inj hstep
      exact hrefreshed.loop hexists
  next => simp at hstep

theorem Inv.attempted (hexists : s.watchdog ≠ .absent) (served : Bool) :
    (attempted cfg served s).watchdog ≠ .absent ∧ Inv cfg (attempted cfg served s) := by
  cases served with
  | false => exact ⟨hexists, h.watched hexists hexists id _ _ _⟩
  | true => exact ⟨hexists, h.refreshed hexists⟩

theorem inv_renewFails {fault : Fault} {served : Bool}
    (hstep : renewFails cfg fault served s = some s') : Inv cfg s' := by
  unfold renewFails at hstep
  split at hstep
  next hw =>
    obtain ⟨hexists, hattempted⟩ := h.attempted (by simp [hw]) served
    obtain rfl := Option.some.inj hstep
    exact hattempted.loop hexists
  next hw =>
    obtain ⟨hexists, hattempted⟩ := h.attempted (by simp [hw]) served
    obtain rfl := Option.some.inj hstep
    exact hattempted.leave hexists
  next => simp at hstep

theorem inv_stray (hstep : stray cfg s = some s') : Inv cfg s' := by
  simp only [stray, Option.ite_none_right_eq_some, Option.some.injEq] at hstep
  obtain ⟨hstrays, rfl⟩ := hstep
  have hexists : s.watchdog ≠ .absent := by
    intro habsent
    have hnone := (h.granted habsent).1
    omega
  exact h.watched hexists hexists find_refreshed _ _ _

theorem inv_cancelWatchdog (hstep : cancelWatchdog s = some s') : Inv cfg s' := by
  unfold cancelWatchdog at hstep
  split at hstep
  next hw =>
    obtain rfl := Option.some.inj hstep
    exact h.watched (by simp [hw]) (by simp) id _ _ _
  next hw =>
    obtain rfl := Option.some.inj hstep
    exact h.leave (by simp [hw])
  next => simp at hstep

/-! ## The rest of the world -/

theorem inv_stop (hstep : stop s = some s') : Inv cfg s' := by
  simp only [stop, Option.ite_none_right_eq_some, Option.some.injEq] at hstep
  obtain ⟨-, rfl⟩ := hstep
  split
  · exact ⟨h.granted, h.sent, h.unguarded, h.cleared⟩
  · exact h

theorem Inv.fewer
    (hfind : ∀ score, find cfg.token store.key = some score →
      find cfg.token s.store.key = some score) : Inv cfg { s with store := store } := by
  refine h.move hfind (fun hsent => (h.sent hsent).2) h.unguarded (fun hfailed => ?_)
  rcases h.cleared hfailed with habsent | ⟨hsent, hnone⟩
  · exact Or.inl habsent
  · refine Or.inr ⟨hsent, Option.eq_none_iff_forall_ne_some.mpr fun score hscore => ?_⟩
    simpa [hnone] using hfind score hscore

theorem inv_handBack (hstep : handBack cfg s = some s') : Inv cfg s' := by
  simp only [handBack, Option.ite_none_right_eq_some, Option.some.injEq] at hstep
  obtain ⟨-, rfl⟩ := hstep
  refine h.fewer fun score hscore => ?_
  rw [semRelease, find_del, if_pos rfl] at hscore
  simp at hscore

theorem inv_step {e : Event} (hhook : HooksUncancelled s e) (hstep : step cfg s e = some s') :
    Inv cfg s' := by
  cases e with
  | serve => exact inv_serve h hstep
  | resume => exact inv_resume h hstep
  | throw fault served => exact inv_throw h hhook hstep
  | wake => exact inv_wake h hstep
  | renew => exact inv_renew h hstep
  | renewFails fault served => exact inv_renewFails h hstep
  | stray => exact inv_stray h hstep
  | cancelWatchdog => exact inv_cancelWatchdog h hstep
  | stop => exact inv_stop h hstep
  | handBack => exact inv_handBack h hstep
  | other event =>
    obtain ⟨store, hother, rfl⟩ := Option.map_eq_some_iff.mp hstep
    exact h.fewer fun score hscore => find_other hother hscore

/-! ## What is left -/

theorem Inv.nothingLeft (hfailed : s.pc.failed = true) : NothingLeft cfg s where
  unrenewed := by
    rcases h.cleared hfailed with habsent | ⟨-, hnone⟩
    · exact Or.inl habsent
    · rw [semRefresh_of_not_mem hnone]
      exact Or.inr rfl
  lapses := by
    rintro ⟨score, hscore⟩
    obtain ⟨hfind, hlt⟩ := find_remRangeByScore.mp hscore
    rcases h.cleared hfailed with habsent | ⟨-, hnone⟩
    · exact ⟨score, (h.granted habsent).2 score hfind, by omega⟩
    · simp [hnone] at hfind

end

/-- A call of `acquire` or `try_acquire` that ends without returning a token leaves nothing
behind, in every run in which no `on_acquired` hook is cancelled. -/
theorem failed_call_leaves_nothing (cfg : Config) (store : Store) (es : List Event) {s : State}
    (hfresh : find cfg.token store.key = none)
    (hhooks : Along (step cfg) HooksUncancelled (start store) es)
    (hrun : run (step cfg) (start store) es = some s) (hfailed : s.pc.failed = true) :
    NothingLeft cfg s :=
  (run_invariant_along (fun _ _ _ h hhook hstep => inv_step h hhook hstep) (inv_start hfresh)
    hhooks hrun).nothingLeft hfailed

/-! ## A cancelled hook -/

def single : Config where
  toConfig := subSecond
  mode := .tryAcquire
  token := "t"
  renewInterval := 100
  hooks := 1

def counted : List Event := [.serve, .resume, .resume, .resume, .resume]

def startFails : List Event :=
  counted ++ [.throw .exception true, .resume, .wake, .other (.advance 100), .wake]

theorem failed_call_leaves_nothing_guarded :
    (replay (step single) (start ⟨0, none⟩) startFails).watchdog = .refreshing ∧
      NothingLeft single (replay (step single) (start ⟨0, none⟩) startFails) :=
  ⟨by decide, failed_call_leaves_nothing single ⟨0, none⟩ startFails rfl (by decide)
    (run_eq_replay (by decide)) (by decide)⟩

def renewal : List Event := [.other (.advance 100), .wake, .renew]

def hookCancelled : List Event :=
  counted ++ [.resume, .throw .cancelled false, .wake] ++ renewal ++ renewal ++ renewal ++ renewal

/-- The call has raised, and longer than a lease after the grant the only slot is taken by
the token that nobody has. -/
theorem cancelled_hook_leaks_slot :
    ∃ s, run (step single) (start ⟨0, none⟩) hookCancelled = some s ∧
      s.pc = .ended (.raised .cancelled) ∧ s.pc.failed = true ∧ s.grantedAt = some 0 ∧
      0 + single.leaseMs ≤ s.store.now ∧ Occupies single s ∧
      (semRefresh single.toConfig single.token s.store).1 = 1 ∧ s.watchdog = .waiting 500 ∧
      ¬NothingLeft single s := by
  refine ⟨replay (step single) (start ⟨0, none⟩) hookCancelled, run_eq_replay (by decide),
    by decide, by decide, by decide, by decide, ⟨400, by decide⟩, by decide, by decide, ?_⟩
  intro h
  exact absurd h.unrenewed (by decide)

end Orditect.Semaphore.Client.Proofs
