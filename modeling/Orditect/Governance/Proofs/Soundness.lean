import Orditect.Governance.Proofs.Registration
/-!
# What holds in every state of the governor

One inversion lemma for a step of the system, and the facts all later invariants rest
on: what a registration knows about the store, that a notification only runs for a
parent that has ended, and that it visits every active child once.
-/

namespace Orditect.Governance.Proofs

open Support.PlainSet Support.SortedSet Support.Transition

variable {cfg : Config} {s s' : Store} {t : String} {n : Notification} {m : Move Notification}

/-! ## Notifications -/

def endedIn : Notification → Option String
  | .readChildren status | .children _ status | .readChild _ _ status
  | .castVote _ _ _ status | .cancel _ _ status => some status
  | _ => none

def unvisited : Notification → List String
  | .children todo _ | .readChild _ todo _ | .castVote _ _ todo _ | .cancel _ todo _ => todo
  | _ => []

/-- Everything one storage call of the notification of `t` can do. -/
inductive NotificationMove (cfg : Config) (t : String) (s : Store) :
    Notification → Move Notification → Prop
  | readChildren (status : String) :
      NotificationMove cfg t s (.readChildren status)
        ⟨.children (s.getActiveChildren t) status, s, none⟩
  | drained (status : String) :
      NotificationMove cfg t s (.children [] status) ⟨.readOwn, s, none⟩
  | countSuccess (c : String) (todo : List String) (status : String)
      (hsuccess : cfg.isSuccess status = true) :
      NotificationMove cfg t s (.children (c :: todo) status)
        ⟨.children todo status, s.decrRemainingDeps c, none⟩
  | countAbnormal (c : String) (todo : List String) (status : String)
      (hfail : cfg.isSuccess status = false) :
      NotificationMove cfg t s (.children (c :: todo) status)
        ⟨.readChild c todo status, s.decrRemainingDeps c, none⟩
  | dropped (c : String) (todo : List String) (status : String)
      (hdrop : ∀ record ∈ s.records c,
        cfg.isTerminal record.status = true ∨ t ∉ record.dependsOn) :
      NotificationMove cfg t s (.readChild c todo status) ⟨.children todo status, s, none⟩
  | votes (c : String) (todo : List String) (status : String) (record : Record)
      (hrecord : s.records c = some record) (hopen : cfg.isTerminal record.status = false)
      (hmem : t ∈ record.dependsOn) :
      NotificationMove cfg t s (.readChild c todo status)
        ⟨.castVote c record.dependsOn.length todo status, s, none⟩
  | reached (c : String) (threshold : Nat) (todo : List String) (status : String)
      (hreached : (s.voteAndCheckThreshold c t threshold).1 = true)
      (hlifecycle : cfg.lifecycle = true) :
      NotificationMove cfg t s (.castVote c threshold todo status)
        ⟨.cancel c todo status, (s.voteAndCheckThreshold c t threshold).2, none⟩
  | cast (c : String) (threshold : Nat) (todo : List String) (status : String)
      (hshort : (s.voteAndCheckThreshold c t threshold).1 = true → cfg.lifecycle = false) :
      NotificationMove cfg t s (.castVote c threshold todo status)
        ⟨.children todo status, (s.voteAndCheckThreshold c t threshold).2, none⟩
  | cancel (c : String) (todo : List String) (status : String) :
      NotificationMove cfg t s (.cancel c todo status) ⟨.children todo status, s, some c⟩
  | independent (hdeps : (s.getTask t).dependsOn = []) :
      NotificationMove cfg t s .readOwn ⟨.completed, s, none⟩
  | dependent (hdeps : (s.getTask t).dependsOn ≠ []) :
      NotificationMove cfg t s .readOwn ⟨.leaveParents (s.getTask t).dependsOn, s, none⟩
  | cleared :
      NotificationMove cfg t s (.leaveParents []) ⟨.completed, s.clearCancelVotes t, none⟩
  | leave (p : String) (todo : List String) :
      NotificationMove cfg t s (.leaveParents (p :: todo))
        ⟨.leaveParents todo, s.sremActiveChild p t, none⟩

theorem notificationMove (hm : n.next cfg t s = some m) : NotificationMove cfg t s n m := by
  cases n with
  | idle | completed => simp [Notification.next] at hm
  | readChildren status =>
    cases hm
    exact .readChildren status
  | children todo status =>
    cases todo with
    | nil =>
      cases hm
      exact .drained status
    | cons c todo =>
      simp only [Notification.next] at hm
      split at hm <;> cases hm
      · exact .countSuccess c todo status ‹_›
      · exact .countAbnormal c todo status (eq_false_of_ne_true ‹_›)
  | readChild c todo status =>
    simp only [Notification.next] at hm
    split at hm
    · cases hm
      exact .dropped c todo status (by simp [*])
    · split at hm
      · cases hm
        exact .dropped c todo status (by simp [*])
      · split at hm <;> cases hm
        · exact .votes c todo status _ ‹_› (eq_false_of_ne_true ‹_›) ‹_›
        · exact .dropped c todo status (by simp [*])
  | castVote c threshold todo status =>
    simp only [Notification.next] at hm
    split at hm <;> cases hm
    · rename_i hreached
      rw [Bool.and_eq_true] at hreached
      exact .reached c threshold todo status hreached.1 hreached.2
    · rename_i hshort
      exact .cast c threshold todo status fun hreached => by simpa [hreached] using hshort
  | cancel c todo status =>
    cases hm
    exact .cancel c todo status
  | readOwn =>
    simp only [Notification.next] at hm
    split at hm <;> cases hm
    · exact .independent ‹_›
    · rename_i p rest hdeps
      exact hdeps ▸ .dependent (by simp [hdeps])
  | leaveParents todo =>
    cases todo <;> cases hm
    · exact .cleared
    · exact .leave _ _

/-- What the notification of `t` knows once it is due. -/
structure NotificationSound (cfg : Config) (s : Store) (t : String) (n : Notification) : Prop where
  parent : t ∈ cfg.parents
  ended : ∃ record ∈ s.records t, cfg.isTerminal record.status = true ∧
    ∀ status, endedIn n = some status → record.status = status
  walk : (unvisited n).Nodup
  leaving : ∀ todo, n = .leaveParents todo → t ≠ cfg.child

theorem NotificationSound.grows (h : NotificationSound cfg s t n) (hg : Grows cfg s s') :
    NotificationSound cfg s' t n where
  parent := h.parent
  ended := by
    obtain ⟨record, hrecord, hterm, htold⟩ := h.ended
    obtain ⟨record', hrecord', hstatus⟩ := hg.ended hrecord hterm
    exact ⟨record', hrecord', hstatus ▸ hterm, fun status h => hstatus.trans (htold status h)⟩
  walk := h.walk
  leaving := h.leaving

section

variable (h : NotificationMove cfg t s n m)
include h

theorem NotificationMove.grows (hsound : NotificationSound cfg s t n) : Grows cfg s m.store := by
  cases h with
  | readChildren | drained | dropped | votes | cancel | independent | dependent =>
    exact Grows.refl cfg s
  | countSuccess c | countAbnormal c => exact grows_decrRemainingDeps c
  | reached c threshold | cast c threshold => exact grows_vote c t threshold
  | cleared => exact grows_clearCancelVotes (hsound.leaving [] rfl)
  | leave p todo => exact grows_sremActiveChild p (hsound.leaving (p :: todo) rfl)

theorem NotificationMove.endedIn_eq {status : String} (hstatus : endedIn m.next = some status) :
    endedIn n = some status := by
  cases h <;> first | exact hstatus | simp [endedIn] at hstatus

theorem NotificationMove.walk (hwalk : (unvisited n).Nodup) : (unvisited m.next).Nodup := by
  cases h with
  | readChildren => exact nodup_sortedMembers _
  | countSuccess | countAbnormal => exact hwalk.of_cons
  | dropped | votes | reached | cast | cancel => exact hwalk
  | drained | independent | dependent | cleared | leave => exact List.nodup_nil

theorem NotificationMove.ne_idle : n ≠ .idle := by
  cases h <;> simp

end

def ChildRegistered (cfg : Config) (s : Store) : Prop :=
  ∀ record ∈ s.records cfg.child,
    record.dependsOn = [] ∨ record.dependsOn = cfg.distinctParents ∧ cfg.child ∉ cfg.parents

theorem NotificationMove.sound (h : NotificationMove cfg t s n m)
    (hsound : NotificationSound cfg s t n) (hchild : ChildRegistered cfg s) :
    NotificationSound cfg m.store t m.next := by
  have hold := hsound.grows (h.grows hsound)
  refine ⟨hold.parent, ?_, h.walk hsound.walk, ?_⟩
  · obtain ⟨record, hrecord, hterm, htold⟩ := hold.ended
    exact ⟨record, hrecord, hterm, fun status hstatus => htold status (h.endedIn_eq hstatus)⟩
  · cases h with
    | dependent hdeps =>
      rintro - - rfl
      -- a child that is its own parent was never registered
      cases hrecord : s.records cfg.child with
      | none => simp [Store.getTask, hrecord] at hdeps
      | some record =>
        rcases hchild record hrecord with hnil | ⟨-, hself⟩
        · simp [Store.getTask, hrecord, hnil] at hdeps
        · exact hself hsound.parent
    | leave p todo => exact fun _ _ => hsound.leaving (p :: todo) rfl
    | readChildren | drained | countSuccess | countAbnormal | dropped | votes | reached | cast
    | cancel | independent | cleared => simp

/-! ## Votes -/

inductive VoteMove (cfg : Config) (s : Store) : Vote → Move Vote → Prop
  | refused (parent : String) : VoteMove cfg s (.read parent) ⟨.finished false, s, none⟩
  | votes (parent : String) (record : Record) (hrecord : s.records cfg.child = some record)
      (hmem : parent ∈ record.dependsOn) :
      VoteMove cfg s (.read parent) ⟨.cast parent record.dependsOn.length, s, none⟩
  | reached (parent : String) (threshold : Nat)
      (hreached : (s.voteAndCheckThreshold cfg.child parent threshold).1 = true)
      (hlifecycle : cfg.lifecycle = true) :
      VoteMove cfg s (.cast parent threshold)
        ⟨.cancel, (s.voteAndCheckThreshold cfg.child parent threshold).2, none⟩
  | cast (parent : String) (threshold : Nat) (result : Bool)
      (hshort : (s.voteAndCheckThreshold cfg.child parent threshold).1 = true →
        cfg.lifecycle = false) :
      VoteMove cfg s (.cast parent threshold)
        ⟨.finished result, (s.voteAndCheckThreshold cfg.child parent threshold).2, none⟩
  | cancel : VoteMove cfg s .cancel ⟨.finished true, s, some cfg.child⟩

variable {v : Vote} {notifications : String → Notification}

theorem voteMove {m : Move Vote} (hm : v.next cfg s = some m) :
    VoteMove cfg s v m := by
  cases v with
  | idle | finished => simp [Vote.next] at hm
  | read parent =>
    simp only [Vote.next] at hm
    split at hm
    · cases hm
      exact .refused parent
    · split at hm
      · cases hm
        exact .refused parent
      · split at hm <;> cases hm
        · exact .votes parent _ ‹_› ‹_›
        · exact .refused parent
  | cast parent threshold =>
    simp only [Vote.next] at hm
    split at hm <;> cases hm
    · rename_i hreached
      rw [Bool.and_eq_true] at hreached
      exact .reached parent threshold hreached.1 hreached.2
    · rename_i hshort
      exact .cast parent threshold _ fun hreached => by simpa [hreached] using hshort
  | cancel =>
    cases hm
    exact .cancel

theorem VoteMove.grows {m : Move Vote} (h : VoteMove cfg s v m) :
    Grows cfg s m.store := by
  cases h with
  | refused | votes | cancel => exact Grows.refl cfg s
  | reached parent threshold | cast parent threshold =>
    exact grows_vote cfg.child parent threshold

theorem NotificationMove.records_eq (h : NotificationMove cfg t s n m) :
    m.store.records = s.records := by
  cases h <;> rfl

theorem VoteMove.records_eq {m : Move Vote} (h : VoteMove cfg s v m) :
    m.store.records = s.records := by
  cases h <;> rfl

/-! ## The system -/

/-- Everything a step of the system can do. -/
inductive Stepped (cfg : Config) (s : State) : Event → State → Prop
  | register (req : Request) (r : Registration) (hover : s.registration.over = true)
      (hr : r = .raised .emptyParents ∧ cfg.parents = [] ∨
        r = .readChild req ∧ cfg.parents ≠ []) :
      Stepped cfg s (.register req) { s with registration := r }
  | registration (m : Move Registration) (hm : s.registration.next cfg s.store = some m) :
      Stepped cfg s .registration { s with
        store := m.store
        registration := m.next
        cancelled := m.cancels.toList ++ s.cancelled
        awaited := s.registration.awaits cfg s.store s.awaited }
  | write (t w : String) (record : Record) (hrecord : s.store.records t = some record)
      (hopen : cfg.isTerminal record.status = false) :
      Stepped cfg s (.write t w) { s with
        store := s.store.updateTask t fun record => { record with status := w }
        notifications :=
          if cfg.isTerminal w ∧ t ∈ cfg.parents then
            Function.update s.notifications t (.readChildren w)
          else s.notifications }
  | notification (t : String) (m : Move Notification)
      (hmove : NotificationMove cfg t s.store (s.notifications t) m) :
      Stepped cfg s (.notification t) { s with
        store := m.store
        notifications := Function.update s.notifications t m.next
        cancelled := m.cancels.toList ++ s.cancelled }
  | voteCancel (voter : Nat) (parent : String)
      (hfree : s.votes voter = .idle ∨ ∃ result, s.votes voter = .finished result) :
      Stepped cfg s (.voteCancel voter parent) { s with
        votes := Function.update s.votes voter (.read parent) }
  | vote (voter : Nat) (m : Move Vote) (hmove : VoteMove cfg s.store (s.votes voter) m) :
      Stepped cfg s (.vote voter) { s with
        store := m.store
        votes := Function.update s.votes voter m.next
        cancelled := m.cancels.toList ++ s.cancelled
        accepted := (s.votes voter).accepts s.accepted }

variable {st st' : State} {e : Event}

theorem stepped (h : step cfg st e = some st') : Stepped cfg st e st' := by
  cases e with
  | register req =>
    simp only [step] at h
    split at h <;> cases h
    exact .register req _ ‹_› (by split <;> simp [*])
  | registration =>
    obtain ⟨m, hm, rfl⟩ := Option.map_eq_some_iff.mp h
    exact .registration m hm
  | write t w =>
    simp only [step, write] at h
    split at h
    · cases h
    · split at h <;> cases h
      exact .write t w _ ‹_› (eq_false_of_ne_true ‹_›)
  | notification t =>
    obtain ⟨m, hm, rfl⟩ := Option.map_eq_some_iff.mp h
    exact .notification t m (notificationMove hm)
  | voteCancel voter parent =>
    simp only [step] at h
    split at h <;> cases h
    · exact .voteCancel voter parent (.inl ‹_›)
    · exact .voteCancel voter parent (.inr ⟨_, ‹_›⟩)
  | vote voter =>
    obtain ⟨m, hm, rfl⟩ := Option.map_eq_some_iff.mp h
    exact .vote voter m (voteMove hm)

structure Sound (cfg : Config) (s : State) : Prop where
  registration : RegistrationSound cfg s.store s.registration
  child : ChildRegistered cfg s.store
  notifications : ∀ t, s.notifications t ≠ .idle →
    NotificationSound cfg s.store t (s.notifications t)

theorem Sound.idle_of_not_ended (h : Sound cfg st) (ht : ¬ Ended cfg st.store t) :
    st.notifications t = .idle := by
  by_contra hidle
  obtain ⟨record, hrecord, hterm, -⟩ := (h.notifications t hidle).ended
  exact ht ⟨record, hrecord, hterm⟩

theorem notifications_write_of_ne {u w : String} (hut : u ≠ t) :
    (if cfg.isTerminal w ∧ t ∈ cfg.parents then
        Function.update notifications t (.readChildren w) else notifications) u =
      notifications u := by
  split
  · exact Function.update_of_ne hut _ _
  · rfl

theorem grows_step (hsound : Sound cfg st) (h : step cfg st e = some st') :
    Grows cfg st.store st'.store := by
  cases stepped h with
  | register | voteCancel => exact Grows.refl cfg st.store
  | registration m hm => exact (registrationMove hsound.registration hm).grows
  | write t w record hrecord hopen => exact grows_writeStatus hrecord hopen w
  | notification t m hmove => exact hmove.grows (hsound.notifications t hmove.ne_idle)
  | vote voter m hmove => exact hmove.grows

theorem childRegistered_updateTask {f : Record → Record} (h : ChildRegistered cfg s)
    (hdeps : ∀ record, (f record).dependsOn = record.dependsOn ∨
      (f record).dependsOn = cfg.distinctParents ∧ cfg.child ∉ cfg.parents) :
    ChildRegistered cfg (s.updateTask t f) := by
  intro record hrecord
  rw [Option.mem_def, records_updateTask] at hrecord
  split at hrecord
  · obtain ⟨record, hold, rfl⟩ := Option.map_eq_some_iff.mp hrecord
    rcases hdeps record with hsame | hnew
    · exact hsame ▸ h record hold
    · exact .inr hnew
  · exact h record hrecord

theorem RegistrationMove.childRegistered {r : Registration} {m : Move Registration}
    (h : RegistrationMove cfg s r m) (hsound : RegistrationSound cfg s r)
    (hchild : ChildRegistered cfg s) : ChildRegistered cfg m.store := by
  cases h with
  | writeRecord plan triggered f hstatus hdeps =>
    exact childRegistered_updateTask hchild fun record =>
      .inr ⟨hdeps record, hsound.1.child_not_parent⟩
  | reading | classified | added | addActive | cast | castVote | setCounter | rechecked
  | recheckEnded | recheckOpen | compensateSuccess | compensateAbnormal | recastVote | finish =>
    exact hchild

theorem notificationSound_update (hg : Grows cfg s s')
    (h : ∀ u, notifications u ≠ .idle → NotificationSound cfg s u (notifications u))
    (hn : NotificationSound cfg s' t n) (u : String)
    (hu : Function.update notifications t n u ≠ .idle) :
    NotificationSound cfg s' u (Function.update notifications t n u) := by
  by_cases hut : u = t
  · subst hut
    rwa [Function.update_self]
  · rw [Function.update_of_ne hut] at hu ⊢
    exact (h u hu).grows hg

theorem sound_step (hsound : Sound cfg st) (h : step cfg st e = some st') : Sound cfg st' := by
  have hg := grows_step hsound h
  have hothers := fun u hu => (hsound.notifications u hu).grows hg
  cases stepped h with
  | register req r hover hr =>
    refine ⟨?_, hsound.child, hothers⟩
    rcases hr with ⟨rfl, -⟩ | ⟨rfl, -⟩ <;> trivial
  | registration m hm =>
    exact ⟨hsound.registration.next hm,
      (registrationMove hsound.registration hm).childRegistered hsound.registration hsound.child,
      hothers⟩
  | write t w record hrecord hopen =>
    refine ⟨hsound.registration.grows hg,
      childRegistered_updateTask hsound.child fun _ => .inl rfl, ?_⟩
    dsimp only
    split
    · rename_i hdue
      refine notificationSound_update hg hsound.notifications ?_
      have hnew : (st.store.updateTask t fun record => { record with status := w }).records t =
          some { record with status := w } := by
        simp [records_updateTask, hrecord]
      exact ⟨hdue.2, ⟨_, hnew, hdue.1, by simp [endedIn]⟩, List.nodup_nil, by simp⟩
    · exact hothers
  | notification t m hmove =>
    have hold := hsound.notifications t hmove.ne_idle
    refine ⟨hsound.registration.grows hg, ?_, ?_⟩
    · simpa only [ChildRegistered, hmove.records_eq] using hsound.child
    · exact notificationSound_update hg hsound.notifications (hmove.sound hold hsound.child)
  | voteCancel => exact ⟨hsound.registration, hsound.child, hothers⟩
  | vote voter m hmove =>
    refine ⟨hsound.registration.grows hg, ?_, hothers⟩
    simpa only [ChildRegistered, hmove.records_eq] using hsound.child

theorem sound_start (cfg : Config) (store : Store) (due : String → Bool) :
    Sound cfg (start cfg store due) where
  registration := trivial
  child := by
    intro record hrecord
    obtain ⟨record', -, rfl⟩ : ∃ record', store.records cfg.child = some record' ∧
        { record' with dependsOn := [] } = record := by
      simpa [start, unregistered] using hrecord
    exact .inl rfl
  notifications := by
    intro t ht
    cases hrecord : store.records t with
    | none => simp [start, hrecord] at ht
    | some record =>
      simp only [start, hrecord] at ht ⊢
      split at ht
      · rename_i hended
        -- only the dependencies of the child are reset, not its status
        have hkept : ∃ record' ∈ (unregistered cfg store).records t,
            record'.status = record.status := by
          by_cases htc : t = cfg.child
          · subst htc
            exact ⟨{ record with dependsOn := [] }, by simp [unregistered, hrecord], rfl⟩
          · exact ⟨record, by simp [unregistered, htc, hrecord], rfl⟩
        obtain ⟨record', hrecord', hstatus⟩ := hkept
        rw [if_pos hended]
        refine ⟨hended.1, ⟨record', hrecord', hstatus ▸ hended.2, ?_⟩, ?_, ?_⟩
        · split <;> simp [endedIn, hstatus]
        · split <;> exact List.nodup_nil
        · split <;> simp
      · exact absurd rfl ht

theorem governor_sound {store : Store} {due : String → Bool} {events : List Event}
    (hrun : run (step cfg) (start cfg store due) events = some st) : Sound cfg st :=
  run_invariant (fun _ _ _ => sound_step) (sound_start cfg store due) hrun

theorem governor_sound_failed :
    Sound (.flow "c" ["a"]) (replay (step (.flow "c" ["a"]))
      (start (.flow "c" ["a"]) (.created ["a", "c"]) fun _ => true)
        (.register {} :: List.replicate 9 .registration ++
          [.write "a" "failed", .notification "a"])) :=
  governor_sound (run_eq_replay (by decide +kernel))

end Orditect.Governance.Proofs
