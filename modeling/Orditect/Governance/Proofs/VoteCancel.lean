import Orditect.Governance.Proofs.Ballot
/-!
# No vote is lost

A parent that ended abnormally has its vote cast, or someone is still going to cast it:
the registration, as long as it has the parent to classify, to vote for or to recheck;
and after that the notification of the parent, which finds the child among its active
children and the parents in its record.  Whoever completes the set of votes cancels.
-/

namespace Orditect.Governance.Proofs

open Support.Transition

variable {cfg : Config} {s s' : State} {e : Event} {t p : String}

/-! ## Votes still to be cast -/

def RegistrationOwes (p : String) : Registration → Prop
  | .idle | .readChild _ | .readParents _ _ _ | .checkCycle _ _ _ _ | .collectChain _ _ _ _ _ _
  | .raised _ => True
  | .addActive plan _ => p ∈ plan.counted ∨ p ∈ plan.abnormal
  | .castVotes plan todo _ => p ∈ plan.counted ∨ p ∈ todo
  | .writeRecord plan _ | .setCounter plan _ => p ∈ plan.counted
  | .recheck todo _ => p ∈ todo
  | .compensate q _ todo _ | .recastVote q todo _ => p = q ∨ p ∈ todo
  | .finish _ | .returned => False

def NotificationOwes (child : String) : Notification → Prop
  | .readChildren _ => True
  | .children todo _ | .cancel _ todo _ => child ∈ todo
  | .readChild c todo _ | .castVote c _ todo _ => c = child ∨ child ∈ todo
  | .idle | .readOwn | .leaveParents _ | .completed => False

def Pending (cfg : Config) (s : State) (p : String) : Prop :=
  RegistrationOwes p s.registration ∨
    Recorded cfg s.store ∧ cfg.child ∈ s.store.activeChildren p ∧
      NotificationOwes cfg.child (s.notifications p)

variable {r : Registration} {m : Move Registration} {c : String}

theorem registrationOwes_of_unclassified (h : unclassified r = true) :
    RegistrationOwes p r := by
  cases r <;> trivial

variable {store : Store}

theorem owes_of_open (hsound : RegistrationSound cfg store r) (hp : p ∈ cfg.parents)
    (hopen : ¬ Ended cfg store p) :
    RegistrationOwes p r ∨ Recorded cfg store ∧ cfg.child ∈ store.activeChildren p := by
  have hcounted : ∀ {plan : Plan}, PlanSound cfg store plan → p ∈ plan.counted :=
    fun hplan => (hplan.covered p hp).resolve_right fun h => hopen h.1
  have hlisted : ∀ {todo : List String}, Placed cfg store todo →
      Recorded cfg store ∧ cfg.child ∈ store.activeChildren p :=
    fun hplaced => ⟨hplaced.recorded, (hplaced.placed p hp).resolve_left hopen⟩
  cases r with
  | idle | readChild | readParents | checkCycle | collectChain | raised => exact .inl trivial
  | addActive | castVotes => exact .inl (.inl (hcounted hsound.1))
  | writeRecord | setCounter => exact .inl (hcounted hsound.1)
  | recheck | finish | returned => exact .inr (hlisted hsound)
  | compensate | recastVote => exact .inr (hlisted hsound.1)

theorem RegistrationMove.owes (hmove : RegistrationMove cfg store r m)
    (hsound : RegistrationSound cfg store r) (hp : p ∈ cfg.parents) (hab : Abnormal cfg store p)
    (howes : RegistrationOwes p r) :
    RegistrationOwes p m.next ∨ p ∈ m.store.cancelVotes cfg.child := by
  have hended : ∃ record, store.records p = some record ∧ cfg.isTerminal record.status = true ∧
    cfg.isSuccess record.status = false := hab
  obtain ⟨record, hrecord, hterm, hfail⟩ := hended
  cases hmove with
  | reading hr hr' => exact .inl (registrationOwes_of_unclassified hr')
  | classified hr hplan =>
    exact .inl ((hplan.covered p hp).imp_right fun h => h.2 hab)
  | added | addActive | writeRecord | setCounter | compensateAbnormal => exact .inl howes
  | cast => exact .inl (howes.resolve_right List.not_mem_nil)
  | castVote plan q todo =>
    rw [cancelVotes_vote]
    rcases howes with hcounted | htodo
    · exact .inl (.inl hcounted)
    · rcases List.mem_cons.mp htodo with rfl | htodo
      · exact .inr (Finset.mem_insert_self p _)
      · exact .inl (.inr htodo)
  | rechecked => exact absurd howes List.not_mem_nil
  | recheckEnded q todo triggered => exact .inl (List.mem_cons.mp howes)
  | recheckOpen q todo triggered hopen =>
    rcases List.mem_cons.mp howes with rfl | htodo
    · simp [Store.getTask, hrecord, hterm] at hopen
    · exact .inl htodo
  | compensateSuccess q current todo triggered hsuccess =>
    rcases howes with rfl | htodo
    · obtain ⟨-, record', hrecord', rfl, -⟩ := hsound
      obtain rfl : record = record' := Option.some_injective _ (hrecord.symm.trans hrecord')
      simp [hfail] at hsuccess
    · exact .inl htodo
  | recastVote q todo =>
    rw [cancelVotes_vote]
    rcases howes with rfl | htodo
    · exact .inr (Finset.mem_insert_self p _)
    · exact .inl htodo
  | finish => exact howes.elim

/-- The notification of a parent that ended abnormally hands its vote on until it has cast
it; it drops the vote only if the child has ended. -/
theorem NotificationMove.owes {n : Notification} {m : Move Notification}
    (hmove : NotificationMove cfg p store n m) (hsound : NotificationSound cfg store p n)
    (hab : Abnormal cfg store p) (hrecorded : Recorded cfg store)
    (hlisted : cfg.child ∈ store.activeChildren p) (howes : NotificationOwes cfg.child n) :
    NotificationOwes cfg.child m.next ∨ p ∈ m.store.cancelVotes cfg.child ∨
      Ended cfg store cfg.child := by
  cases hmove with
  | readChildren => exact .inl (by simpa [NotificationOwes, Store.getActiveChildren] using hlisted)
  | drained => exact absurd howes List.not_mem_nil
  | countSuccess c todo status hsuccess =>
    -- a success does not vote, but `p` ended abnormally
    obtain ⟨record, hrecord, -, hfail⟩ := hab
    obtain ⟨record', hrecord', -, htold⟩ := hsound.ended
    obtain rfl : record = record' := Option.some_injective _ (hrecord.symm.trans hrecord')
    simp [htold status rfl, hsuccess] at hfail
  | countAbnormal c todo status => exact .inl ((List.mem_cons.mp howes).imp_left Eq.symm)
  | dropped c todo status hdrop =>
    rcases howes with rfl | htodo
    · obtain ⟨record, hrecord, hdeps⟩ := hrecorded
      have hmem : p ∈ record.dependsOn := by
        rw [hdeps, mem_distinctParents]
        exact hsound.parent
      have hterm := (hdrop record hrecord).resolve_right (not_not_intro hmem)
      exact .inr (.inr ⟨record, hrecord, hterm⟩)
    · exact .inl htodo
  | votes => exact .inl howes
  | reached c threshold todo status | cast c threshold todo status =>
    rcases howes with rfl | htodo
    · exact .inr (.inl (by simp [cancelVotes_vote]))
    · exact .inl htodo
  | cancel => exact .inl howes
  | independent | dependent | cleared | leave => exact howes.elim

/-! ## Who cancels -/

def Triggered (cfg : Config) (s : State) : Prop :=
  cfg.child ∈ s.cancelled ∨ triggered s.registration = true ∨
    (∃ t todo status, s.notifications t = .cancel cfg.child todo status) ∨
    ∃ voter, s.votes voter = .cancel

theorem cancelled_step (h : step cfg s e = some s') (hc : c ∈ s.cancelled) :
    c ∈ s'.cancelled := by
  cases stepped h with
  | register | write | voteCancel => exact hc
  | registration | notification | vote => exact List.mem_append_right _ hc

theorem RegistrationMove.cancels (hmove : RegistrationMove cfg store r m)
    (hlifecycle : cfg.lifecycle = true) (hr : triggered r = true) :
    triggered m.next = true ∨ m.cancels = some cfg.child := by
  cases hmove with
  | reading hu | classified hu => simp [triggered_of_unclassified hu] at hr
  | castVote | recastVote => exact .inl (Bool.or_eq_true_iff.mpr (.inl hr))
  | finish triggered =>
    obtain rfl : triggered = true := hr
    exact .inr (by simp [hlifecycle])
  | added | addActive | cast | writeRecord | setCounter | rechecked | recheckEnded | recheckOpen
  | compensateSuccess | compensateAbnormal => exact .inl hr

theorem NotificationMove.cancels {status : String} {todo : List String} {m : Move Notification}
    (hmove : NotificationMove cfg t store (.cancel c todo status) m) :
    m.cancels = some c := by
  cases hmove
  rfl

theorem VoteMove.cancels {m : Move Vote} (hmove : VoteMove cfg store .cancel m) :
    m.cancels = some cfg.child := by
  cases hmove
  rfl

theorem triggered_step (hlifecycle : cfg.lifecycle = true) (hsound : Sound cfg s)
    (h : step cfg s e = some s') (htriggered : Triggered cfg s) : Triggered cfg s' := by
  rcases htriggered with hc | hr | ⟨t, todo, status, ht⟩ | ⟨voter, hvoter⟩
  · exact .inl (cancelled_step h hc)
  · cases stepped h with
    | register req r hover =>
      generalize s.registration = r₀ at hr hover
      cases r₀ <;> simp [triggered, Registration.over] at hr hover
    | registration m hm =>
      have hmove := registrationMove hsound.registration hm
      rcases hmove.cancels hlifecycle hr with hr' | hcancels
      · exact .inr (.inl hr')
      · exact .inl (by simp [hcancels])
    | write | notification | voteCancel | vote => exact .inr (.inl hr)
  · cases stepped h with
    | notification u m hmove =>
      by_cases hut : t = u
      · subst hut
        rw [ht] at hmove
        exact .inl (by simp [hmove.cancels])
      · exact .inr (.inr (.inl ⟨t, todo, status, (Function.update_of_ne hut _ _).trans ht⟩))
    | write u w record hrecord hopen =>
      -- a task whose notification is under way is not written again
      have hut : t ≠ u := by
        rintro rfl
        simp [hsound.idle_of_not_ended (not_ended_of_open hrecord hopen)] at ht
      exact .inr (.inr (.inl ⟨t, todo, status, (notifications_write_of_ne hut).trans ht⟩))
    | register | registration | voteCancel | vote =>
      exact .inr (.inr (.inl ⟨t, todo, status, ht⟩))
  · cases stepped h with
    | vote i m hmove =>
      by_cases hi : voter = i
      · subst hi
        rw [hvoter] at hmove
        exact .inl (by simp [hmove.cancels])
      · exact .inr (.inr (.inr ⟨voter, (Function.update_of_ne hi _ _).trans hvoter⟩))
    | voteCancel i parent hfree =>
      have hi : voter ≠ i := by
        rintro rfl
        simp [hvoter] at hfree
      exact .inr (.inr (.inr ⟨voter, (Function.update_of_ne hi _ _).trans hvoter⟩))
    | register | registration | write | notification =>
      exact .inr (.inr (.inr ⟨voter, hvoter⟩))

/-! ## The vote that completes the set -/

def Unanimous (cfg : Config) (s : Store) : Prop := ∀ p ∈ cfg.parents, p ∈ s.cancelVotes cfg.child

section Calls

variable (hvotes : ∀ q ∈ store.cancelVotes cfg.child, q ∈ cfg.parents)

include hvotes

theorem reached_of_unanimous (hp : p ∈ cfg.parents)
    (hall : Unanimous cfg
      (store.voteAndCheckThreshold cfg.child p cfg.distinctParents.length).2) :
    (store.voteAndCheckThreshold cfg.child p cfg.distinctParents.length).1 = true := by
  apply (reached_iff hvotes hp).mpr
  intro q hq
  rw [← cancelVotes_vote]
  exact hall q hq

theorem RegistrationMove.unanimous (hmove : RegistrationMove cfg store r m)
    (hsound : RegistrationSound cfg store r) (hall : Unanimous cfg m.store) :
    Unanimous cfg store ∨ triggered m.next = true := by
  cases hmove with
  | castVote plan p todo =>
    have hp := (hsound.1.abnormal p (hsound.2.2 p (by simp))).1
    exact .inr (Bool.or_eq_true_iff.mpr (.inr (reached_of_unanimous hvotes hp hall)))
  | recastVote p todo =>
    exact .inr (Bool.or_eq_true_iff.mpr (.inr (reached_of_unanimous hvotes hsound.2.1 hall)))
  | reading | classified | added | addActive | cast | writeRecord | setCounter | rechecked
  | recheckEnded | recheckOpen | compensateSuccess | compensateAbnormal | finish =>
    exact .inl hall

theorem NotificationMove.unanimous {n : Notification} {m : Move Notification}
    (hmove : NotificationMove cfg t store n m) (hlifecycle : cfg.lifecycle = true)
    (hsound : NotificationSound cfg store t n) (hn : NotificationVotes cfg s n)
    (hall : Unanimous cfg m.store) :
    Unanimous cfg store ∨ ∃ todo status, m.next = .cancel cfg.child todo status := by
  cases hmove with
  | reached c threshold todo status hreached =>
    by_cases hc : c = cfg.child
    · exact .inr ⟨todo, status, by rw [hc]⟩
    · exact .inl fun p hp => cancelVotes_vote_of_ne (Ne.symm hc) t threshold ▸ hall p hp
  | cast c threshold todo status hshort =>
    by_cases hc : c = cfg.child
    · subst hc
      obtain rfl := hn.2 rfl
      have hreached := reached_of_unanimous hvotes hsound.parent hall
      simp [hshort hreached] at hlifecycle
    · exact .inl fun p hp => cancelVotes_vote_of_ne (Ne.symm hc) t threshold ▸ hall p hp
  | cleared =>
    have hne : cfg.child ≠ t := (hsound.leaving [] rfl).symm
    exact .inl fun p hp => by simpa [Store.clearCancelVotes, hne] using hall p hp
  | readChildren | drained | countSuccess | countAbnormal | dropped | votes | cancel | independent
  | dependent | leave => exact .inl hall

theorem VoteMove.unanimous {v : Vote} {m : Move Vote} (hmove : VoteMove cfg store v m)
    (hlifecycle : cfg.lifecycle = true) (hv : VoteVotes cfg s v) (hall : Unanimous cfg m.store) :
    Unanimous cfg store ∨ m.next = .cancel := by
  cases hmove with
  | reached => exact .inr rfl
  | cast parent threshold result hshort =>
    obtain rfl := hv.2
    have hreached := reached_of_unanimous hvotes hv.1 hall
    simp [hshort hreached] at hlifecycle
  | refused | votes | cancel => exact .inl hall

end Calls

theorem triggered_of_unanimous (hlifecycle : cfg.lifecycle = true) (hsound : Sound cfg s)
    (hballot : Ballot cfg s) (h : step cfg s e = some s') (hall : Unanimous cfg s'.store) :
    Unanimous cfg s.store ∨ Triggered cfg s' := by
  have hvotes := fun q hq => (hballot.cast q hq).1
  cases stepped h with
  | register | write | voteCancel => exact .inl hall
  | registration m hm =>
    have hmove := registrationMove hsound.registration hm
    exact (hmove.unanimous hvotes hsound.registration hall).imp_right fun hr => .inr (.inl hr)
  | notification t m hmove =>
    have hcall := hmove.unanimous hvotes hlifecycle (hsound.notifications t hmove.ne_idle)
      (hballot.notifications t) hall
    refine hcall.imp_right ?_
    rintro ⟨todo, status, hnext⟩
    exact .inr (.inr (.inl ⟨t, todo, status, (Function.update_self _ _ _).trans hnext⟩))
  | vote voter m hmove =>
    have hcall := hmove.unanimous hvotes hlifecycle (hballot.votes voter) hall
    exact hcall.imp_right fun hnext =>
      .inr (.inr (.inr ⟨voter, (Function.update_self _ _ _).trans hnext⟩))

/-! ## Whole runs -/

def ChildLives (cfg : Config) (s : State) (e : Event) : Prop :=
  match e with
  | .write t w => t = cfg.child → cfg.isTerminal w = true → cfg.child ∈ s.cancelled
  | _ => True

instance (cfg : Config) (s : State) (e : Event) : Decidable (ChildLives cfg s e) :=
  match e with
  | .write t w => inferInstanceAs (Decidable
      (t = cfg.child → cfg.isTerminal w = true → cfg.child ∈ s.cancelled))
  | .register _ | .registration | .notification _ | .voteCancel _ _ | .vote _ => isTrue trivial

structure VotesKept (cfg : Config) (s : State) : Prop where
  accepted : ∀ p ∈ s.accepted, p ∈ s.store.cancelVotes cfg.child
  unanimous : cfg.parents ≠ [] → Unanimous cfg s.store → Triggered cfg s
  abnormal : ∀ p ∈ cfg.parents, Abnormal cfg s.store p →
    p ∈ s.store.cancelVotes cfg.child ∨ cfg.child ∈ s.cancelled ∨ Pending cfg s p
  child : Ended cfg s.store cfg.child → cfg.child ∈ s.cancelled

theorem over_step (hparents : cfg.parents = [])
    (hover : s.registration.over = true ∧ unclassified s.registration = true)
    (h : step cfg s e = some s') :
    s'.registration.over = true ∧ unclassified s'.registration = true := by
  cases stepped h with
  | register req r hover' hr =>
    rcases hr with ⟨rfl, -⟩ | ⟨-, hne⟩
    · exact ⟨rfl, rfl⟩
    · exact absurd hparents hne
  | registration m hm =>
    generalize s.registration = r at hover hm
    cases r <;> simp [Registration.over, Registration.next] at hover hm
  | write | notification | voteCancel | vote => exact hover

theorem RegistrationMove.ended (hmove : RegistrationMove cfg store r m)
    (hended : Ended cfg m.store p) :
    Ended cfg store p := by
  cases hmove with
  | writeRecord plan triggered f hstatus hdeps =>
    obtain ⟨record, hrecord, hterm⟩ := hended
    rw [Option.mem_def, records_updateTask] at hrecord
    split at hrecord
    · obtain ⟨record, hold, rfl⟩ := Option.map_eq_some_iff.mp hrecord
      exact ⟨record, hold, hstatus record ▸ hterm⟩
    · exact ⟨record, hrecord, hterm⟩
  | reading | classified | added | addActive | cast | castVote | setCounter | rechecked
  | recheckEnded | recheckOpen | compensateSuccess | compensateAbnormal | recastVote | finish =>
    exact hended

section

variable (hsound : Sound cfg s) (h : step cfg s e = some s')
include hsound h

theorem ended_step (hended : Ended cfg s'.store p) :
    Ended cfg s.store p ∨ ∃ w, e = .write p w ∧ cfg.isTerminal w = true := by
  cases stepped h with
  | register | voteCancel => exact .inl hended
  | registration m hm => exact .inl ((registrationMove hsound.registration hm).ended hended)
  | notification t m hmove
  | vote voter m hmove => exact .inl (by simpa only [Ended, hmove.records_eq] using hended)
  | write t w =>
    obtain ⟨record, hrecord, hterm⟩ := hended
    rw [Option.mem_def, records_updateTask] at hrecord
    split at hrecord
    · rename_i hpt
      obtain ⟨record, -, rfl⟩ := Option.map_eq_some_iff.mp hrecord
      exact .inr ⟨w, by rw [hpt], hterm⟩
    · exact .inl ⟨record, hrecord, hterm⟩

theorem pending_of_ends (hp : p ∈ cfg.parents) (hopen : ¬ Ended cfg s.store p)
    (hended : Ended cfg s'.store p) :
    Pending cfg s' p := by
  have hg := grows_step hsound h
  obtain ⟨w, rfl, hterm⟩ := (ended_step hsound h hended).resolve_left hopen
  have howes := owes_of_open hsound.registration hp hopen
  cases stepped h with
  | write _ _ record hrecord hstatus =>
    refine howes.imp_right fun ⟨hrecorded, hlisted⟩ =>
      ⟨hg.recorded hrecorded, hg.listed hlisted, ?_⟩
    simp [hterm, hp, NotificationOwes]

theorem pending_step (hp : p ∈ cfg.parents) (hab : Abnormal cfg s.store p)
    (hpending : Pending cfg s p) :
    p ∈ s'.store.cancelVotes cfg.child ∨ Ended cfg s.store cfg.child ∨ Pending cfg s' p := by
  have hg := grows_step hsound h
  rcases hpending with howes | ⟨hrecorded, hlisted, howes⟩
  · cases stepped h with
    | register req r hover hr =>
      refine .inr (.inr (.inl (registrationOwes_of_unclassified ?_)))
      rcases hr with ⟨rfl, -⟩ | ⟨rfl, -⟩ <;> rfl
    | registration m hm =>
      have hmove := registrationMove hsound.registration hm
      rcases hmove.owes hsound.registration hp hab howes with howes | hcast
      · exact .inr (.inr (.inl howes))
      · exact .inl hcast
    | write | notification | voteCancel | vote => exact .inr (.inr (.inl howes))
  · have hpending : NotificationOwes cfg.child (s'.notifications p) → Pending cfg s' p :=
      fun howes => .inr ⟨hg.recorded hrecorded, hg.listed hlisted, howes⟩
    cases stepped h with
    | notification t m hmove =>
      by_cases hpt : p = t
      · subst hpt
        have hcall := hmove.owes (hsound.notifications p hmove.ne_idle) hab hrecorded hlisted
          howes
        rcases hcall with howes | hcast | hchild
        · refine .inr (.inr (hpending ?_))
          simpa only [Function.update_self] using howes
        · exact .inl hcast
        · exact .inr (.inl hchild)
      · refine .inr (.inr (hpending ?_))
        simpa only [Function.update_of_ne hpt] using howes
    | write t w record hrecord hopen =>
      have hpt : p ≠ t := by
        rintro rfl
        exact not_ended_of_open hrecord hopen (ended_of_abnormal hab)
      refine .inr (.inr (hpending ?_))
      dsimp only
      rwa [notifications_write_of_ne hpt]
    | register | registration | voteCancel | vote => exact .inr (.inr (hpending howes))

end

theorem cast_of_accepts {v : Vote} {m : Move Vote} {accepted : List String}
    (hmove : VoteMove cfg store v m) (hp : p ∈ v.accepts accepted) :
    p ∈ accepted ∨ p ∈ m.store.cancelVotes cfg.child := by
  cases hmove with
  | refused | votes | cancel => exact .inl hp
  | reached parent threshold | cast parent threshold =>
    rw [cancelVotes_vote]
    rcases List.mem_cons.mp hp with rfl | hp
    · exact .inr (Finset.mem_insert_self p _)
    · exact .inl hp

theorem accepted_cast_step (hsound : Sound cfg s)
    (hcast : ∀ p ∈ s.accepted, p ∈ s.store.cancelVotes cfg.child)
    (h : step cfg s e = some s') : ∀ p ∈ s'.accepted, p ∈ s'.store.cancelVotes cfg.child := by
  have hg := grows_step hsound h
  cases stepped h with
  | vote voter m hmove =>
    exact fun p hp => (cast_of_accepts hmove hp).elim (fun hp => hg.voted (hcast p hp)) id
  | register | registration | write | notification | voteCancel =>
    exact fun p hp => hg.voted (hcast p hp)

theorem votesKept_step (hlifecycle : cfg.lifecycle = true) (hsound : Sound cfg s)
    (hballot : Ballot cfg s) (hkept : VotesKept cfg s) (hlives : ChildLives cfg s e)
    (h : step cfg s e = some s') : VotesKept cfg s' where
  accepted := accepted_cast_step hsound hkept.accepted h
  unanimous hne hall := by
    rcases triggered_of_unanimous hlifecycle hsound hballot h hall with hold | hnew
    · exact triggered_step hlifecycle hsound h (hkept.unanimous hne hold)
    · exact hnew
  abnormal p hp hab' := by
    have hg := grows_step hsound h
    obtain ⟨record, hrecord, hterm, -⟩ := id hab'
    by_cases hended : Ended cfg s.store p
    · have hab := hg.abnormal_of_ended hended hab'
      rcases hkept.abnormal p hp hab with hcast | hcancelled | hpending
      · exact .inl (hg.voted hcast)
      · exact .inr (.inl (cancelled_step h hcancelled))
      · rcases pending_step hsound h hp hab hpending with hcast | hchild | hpending
        · exact .inl hcast
        · exact .inr (.inl (cancelled_step h (hkept.child hchild)))
        · exact .inr (.inr hpending)
    · exact .inr (.inr (pending_of_ends hsound h hp hended ⟨record, hrecord, hterm⟩))
  child hended := by
    rcases ended_step hsound h hended with hended | ⟨w, rfl, hterm⟩
    · exact cancelled_step h (hkept.child hended)
    · exact cancelled_step h (hlives rfl hterm)

theorem votesKept_start (store : Store) (due : String → Bool)
    (hopen : ¬ Ended cfg store cfg.child) : VotesKept cfg (start cfg store due) where
  accepted := by simp [start]
  unanimous hne hall := by
    obtain ⟨p, hp⟩ := List.exists_mem_of_ne_nil _ hne
    simpa [start, unregistered] using hall p hp
  abnormal p hp _ := .inr (.inr (.inl trivial))
  child := by
    rintro ⟨record, hrecord, hterm⟩
    obtain ⟨record', hold, rfl⟩ : ∃ record', store.records cfg.child = some record' ∧
        { record' with dependsOn := [] } = record := by
      simpa [start, unregistered] using hrecord
    exact absurd ⟨record', hold, hterm⟩ hopen

/-! ## Who is cancelled -/

theorem cancels_eq_some {cancels : Option String} {cancelled : List String}
    (h : cancels.toList ++ cancelled = c :: cancelled) : cancels = some c := by
  cases cancels with
  | none => exact absurd h (List.cons_ne_self _ _).symm
  | some d => simpa using h

theorem RegistrationMove.triggered_of_cancels (hmove : RegistrationMove cfg store r m)
    (hcancels : m.cancels = some c) :
    triggered r = true := by
  cases hmove with
  | finish triggered =>
    cases triggered with
    | true => rfl
    | false => simp at hcancels
  | reading | classified | added | addActive | cast | castVote | writeRecord | setCounter
  | rechecked | recheckEnded | recheckOpen | compensateSuccess | compensateAbnormal
  | recastVote => simp at hcancels

theorem allAgainst_of_cancels (hsound : Sound cfg s) (hballot : Ballot cfg s)
    (h : step cfg s e = some s') (hcancelled : s'.cancelled = cfg.child :: s.cancelled) :
    AllAgainst cfg s := by
  cases stepped h with
  | register | write | voteCancel => exact absurd hcancelled (List.cons_ne_self _ _).symm
  | registration m hm =>
    have hmove := registrationMove hsound.registration hm
    exact hballot.registration (hmove.triggered_of_cancels (cancels_eq_some hcancelled))
  | notification t m hmove =>
    have hcancels := cancels_eq_some hcancelled
    have hn := hballot.notifications t
    generalize s.notifications t = n at hmove hn
    cases hmove <;> simp at hcancels
    exact hn hcancels
  | vote voter m hmove =>
    have hcancels := cancels_eq_some hcancelled
    have hv := hballot.votes voter
    generalize s.votes voter = v at hmove hv
    cases hmove <;> simp at hcancels
    exact hv

def Quiescent (cfg : Config) (s : State) : Prop :=
  s.registration = .returned ∧
    (∀ p ∈ cfg.parents, s.notifications p = .idle ∨ s.notifications p = .completed) ∧
    ∀ voter, s.votes voter = .idle ∨ ∃ result, s.votes voter = .finished result

/-- `lifecycle.cancel` is invoked on the child only in a state where every parent has
ended abnormally or had a vote accepted; and once nothing is under way any more and every
parent has, it has been invoked. -/
theorem vote_cancel_exact (cfg : Config) (hlifecycle : cfg.lifecycle = true) (store : Store)
    (due : String → Bool) (hopen : ¬ Ended cfg store cfg.child) {events : List Event} {s : State}
    (hlives : Along (step cfg) (ChildLives cfg) (start cfg store due) events)
    (hrun : run (step cfg) (start cfg store due) events = some s) :
    (∀ e s', step cfg s e = some s' → s'.cancelled = cfg.child :: s.cancelled →
      AllAgainst cfg s) ∧
    (Quiescent cfg s → AllAgainst cfg s → cfg.child ∈ s.cancelled) := by
  obtain ⟨hsound, hballot, hkept⟩ : Sound cfg s ∧ Ballot cfg s ∧ VotesKept cfg s :=
    run_invariant_along (I := fun s => Sound cfg s ∧ Ballot cfg s ∧ VotesKept cfg s)
      (fun _ _ _ h hguard hstep => ⟨sound_step h.1 hstep, ballot_step h.1 h.2.1 hstep,
        votesKept_step hlifecycle h.1 h.2.1 h.2.2 hguard hstep⟩)
      ⟨sound_start cfg store due, ballot_start cfg store due, votesKept_start store due hopen⟩
      hlives hrun
  refine ⟨fun e s' hstep => allAgainst_of_cancels hsound hballot hstep, ?_⟩
  rintro ⟨hreturned, hnotifications, hvotes⟩ hall
  by_contra hcancelled
  have hquiet : ∀ t, s.notifications t = .idle ∨ s.notifications t = .completed := fun t => by
    by_cases hidle : s.notifications t = .idle
    · exact .inl hidle
    · exact hnotifications t (hsound.notifications t hidle).parent
  -- no one owes a vote any more, so every parent has cast it
  have hunanimous : Unanimous cfg s.store := by
    intro p hp
    rcases hall p hp with hab | haccepted
    · rcases hkept.abnormal p hp hab with hcast | hcancel | howes | ⟨-, -, howes⟩
      · exact hcast
      · exact absurd hcancel hcancelled
      · simp [hreturned, RegistrationOwes] at howes
      · rcases hquiet p with hidle | hdone <;> simp [*, NotificationOwes] at howes
    · exact hkept.accepted p haccepted
  have hne : cfg.parents ≠ [] := fun hempty => by
    have hover := run_invariant (fun _ _ _ => over_step hempty)
      (show (start cfg store due).registration.over = true ∧ _ from ⟨rfl, rfl⟩) hrun
    simp [hreturned, unclassified] at hover
  -- and no one is left who is going to cancel
  rcases hkept.unanimous hne hunanimous with hcancel | hr | ⟨t, todo, status, ht⟩ | ⟨voter, hv⟩
  · exact hcancelled hcancel
  · simp [hreturned, triggered] at hr
  · rcases hquiet t with hidle | hdone <;> simp [*] at ht
  · rcases hvotes voter with hidle | ⟨result, hdone⟩ <;> simp [*] at hv

section Outvoted

private def outvoted : Config := .flow "c" ["a", "b"]

private def outvotedStore : Store := .created ["a", "b", "c"]

private def outvotes : List Event :=
  .register { exemptResources := some [] } :: List.replicate 8 .registration ++
    .write "a" "failed" :: List.replicate 5 (.notification "a") ++
    List.replicate 11 .registration ++
    .voteCancel 0 "b" :: List.replicate 3 (.vote 0)

/-- The child is cancelled in a run that ends quietly. -/
theorem vote_cancel_exact_outvoted :
    outvoted.child ∈
      (replay (step outvoted) (start outvoted outvotedStore fun _ => false)
        outvotes).cancelled := by
  refine (vote_cancel_exact outvoted rfl outvotedStore (fun _ => false) (by decide)
    (by decide +kernel) (run_eq_replay (by decide +kernel))).2
    ⟨by decide +kernel, by decide +kernel, fun voter => ?_⟩ (by decide +kernel)
  cases voter with
  | zero => exact .inr ⟨true, by decide +kernel⟩
  | succ voter => exact .inl rfl

end Outvoted

end Orditect.Governance.Proofs
