import Orditect.Governance.Proofs.Soundness
/-!
# Every vote has a reason

A vote against the child is only ever cast for a parent that ended abnormally or had a
`vote_cancel` accepted, and every threshold is the number of parents.  So a vote that
reaches it completes the set of parents, and whoever is about to cancel the child has
all of them behind it.
-/

namespace Orditect.Governance.Proofs

variable {cfg : Config} {s s' : State} {e : Event} {t p : String}

def Against (cfg : Config) (s : State) (p : String) : Prop :=
  Abnormal cfg s.store p ∨ p ∈ s.accepted

def AllAgainst (cfg : Config) (s : State) : Prop := ∀ p ∈ cfg.parents, Against cfg s p

instance (cfg : Config) (s : State) (p : String) : Decidable (Against cfg s p) :=
  inferInstanceAs (Decidable (Abnormal cfg s.store p ∨ p ∈ s.accepted))

instance (cfg : Config) (s : State) : Decidable (AllAgainst cfg s) :=
  inferInstanceAs (Decidable (∀ p ∈ cfg.parents, Against cfg s p))

theorem mem_accepts {accepted : List String} (v : Vote) (hp : p ∈ accepted) :
    p ∈ v.accepts accepted := by
  cases v with
  | cast parent => exact List.mem_cons_of_mem parent hp
  | idle | read | cancel | finished => exact hp

theorem accepted_step (h : step cfg s e = some s') (hp : p ∈ s.accepted) : p ∈ s'.accepted := by
  cases stepped h with
  | vote voter => exact mem_accepts (s.votes voter) hp
  | register | registration | write | notification | voteCancel => exact hp

theorem Against.step (hp : Against cfg s p) (hsound : Sound cfg s)
    (h : step cfg s e = some s') : Against cfg s' p :=
  hp.imp (grows_step hsound h).isAbnormal (accepted_step h)

theorem AllAgainst.step (hall : AllAgainst cfg s) (hsound : Sound cfg s)
    (h : step cfg s e = some s') : AllAgainst cfg s' :=
  fun p hp => (hall p hp).step hsound h

/-! ## The threshold -/

theorem card_parents (cfg : Config) :
    cfg.parents.toFinset.card = cfg.distinctParents.length := by
  have hset : cfg.parents.toFinset = cfg.distinctParents.toFinset := by
    ext p
    simp
  rw [hset, List.toFinset_card_of_nodup (nodup_distinctParents cfg)]

theorem reached_iff {s : Store} (hvotes : ∀ q ∈ s.cancelVotes cfg.child, q ∈ cfg.parents)
    (hp : p ∈ cfg.parents) :
    (s.voteAndCheckThreshold cfg.child p cfg.distinctParents.length).1 = true ↔
      ∀ q ∈ cfg.parents, q ∈ insert p (s.cancelVotes cfg.child) := by
  have hsub : insert p (s.cancelVotes cfg.child) ⊆ cfg.parents.toFinset := by
    apply Finset.insert_subset
    · simpa using hp
    · exact fun q hq => by simpa using hvotes q hq
  simp only [Store.voteAndCheckThreshold, decide_eq_true_eq, ← card_parents]
  constructor
  · intro hcard q hq
    rw [Finset.eq_of_subset_of_card_le hsub hcard]
    simpa using hq
  · intro hall
    exact Finset.card_le_card fun q hq => hall q (by simpa using hq)

def VotesSound (cfg : Config) (s : State) (votes : Finset String) : Prop :=
  ∀ p ∈ votes, p ∈ cfg.parents ∧ Against cfg s p

theorem VotesSound.insert {votes : Finset String} (h : VotesSound cfg s votes)
    (hp : p ∈ cfg.parents) (hagainst : Against cfg s p) :
    VotesSound cfg s (insert p votes) := by
  intro q hq
  rcases Finset.mem_insert.mp hq with rfl | hq
  · exact ⟨hp, hagainst⟩
  · exact h q hq

/-! ## Where a vote or a cancellation is under way -/

def triggered : Registration → Bool
  | .castVotes _ _ triggered | .writeRecord _ triggered | .setCounter _ triggered
  | .recheck _ triggered | .compensate _ _ _ triggered | .recastVote _ _ triggered
  | .finish triggered => triggered
  | _ => false

variable {r : Registration} {n : Notification} {v : Vote} {store : Store}

theorem triggered_of_unclassified (h : unclassified r = true) :
    triggered r = false := by
  cases r <;> first | rfl | simp [unclassified] at h

def NotificationVotes (cfg : Config) (s : State) : Notification → Prop
  | .readChild _ _ status => cfg.isSuccess status = false
  | .castVote c threshold _ status =>
    cfg.isSuccess status = false ∧ (c = cfg.child → threshold = cfg.distinctParents.length)
  | .cancel c _ _ => c = cfg.child → AllAgainst cfg s
  | _ => True

def VoteVotes (cfg : Config) (s : State) : Vote → Prop
  | .cast parent threshold =>
    parent ∈ cfg.parents ∧ threshold = cfg.distinctParents.length
  | .cancel => AllAgainst cfg s
  | _ => True

structure Ballot (cfg : Config) (s : State) : Prop where
  cast : VotesSound cfg s (s.store.cancelVotes cfg.child)
  registration : triggered s.registration = true → AllAgainst cfg s
  notifications : ∀ t, NotificationVotes cfg s (s.notifications t)
  votes : ∀ voter, VoteVotes cfg s (s.votes voter)

theorem NotificationVotes.step (hn : NotificationVotes cfg s n) (hsound : Sound cfg s)
    (h : step cfg s e = some s') : NotificationVotes cfg s' n := by
  cases n with
  | cancel c => exact fun hc => (hn hc).step hsound h
  | idle | readChildren | children | readChild | castVote | readOwn | leaveParents | completed =>
    exact hn

theorem VoteVotes.step (hv : VoteVotes cfg s v) (hsound : Sound cfg s)
    (h : step cfg s e = some s') : VoteVotes cfg s' v := by
  cases v with
  | cancel => exact AllAgainst.step hv hsound h
  | idle | read | cast | finished => exact hv

theorem dependsOn_eq {record : Record} (hchild : ChildRegistered cfg store)
    (hrecord : store.records cfg.child = some record) (hmem : p ∈ record.dependsOn) :
    record.dependsOn = cfg.distinctParents := by
  rcases hchild record hrecord with hnil | ⟨hdeps, -⟩
  · simp [hnil] at hmem
  · exact hdeps

theorem allAgainst_of_reached (h : VotesSound cfg s (store.cancelVotes cfg.child))
    (hp : p ∈ cfg.parents) (hagainst : Against cfg s p)
    (hreached : (store.voteAndCheckThreshold cfg.child p cfg.distinctParents.length).1 = true) :
    AllAgainst cfg s := by
  have hall := (reached_iff (fun q hq => (h q hq).1) hp).mp hreached
  exact fun q hq => (h.insert hp hagainst q (hall q hq)).2

/-! ## One storage call

`s` is the state the call leads to, `store` the store before it. -/

section Calls

variable {store : Store} (hvotes : VotesSound cfg s (store.cancelVotes cfg.child))

include hvotes

theorem votesSound_vote (hp : p ∈ cfg.parents) (hagainst : Against cfg s p) (threshold : Nat) :
    VotesSound cfg s
      ((store.voteAndCheckThreshold cfg.child p threshold).2.cancelVotes cfg.child) := by
  rw [cancelVotes_vote]
  exact hvotes.insert hp hagainst

theorem allAgainst_of_triggered {before : Bool} (hp : p ∈ cfg.parents)
    (hagainst : Against cfg s p) (hbefore : before = true → AllAgainst cfg s)
    (h : (before ||
      (store.voteAndCheckThreshold cfg.child p cfg.distinctParents.length).1) = true) :
    AllAgainst cfg s := by
  rcases Bool.or_eq_true_iff.mp h with h | hreached
  · exact hbefore h
  · exact allAgainst_of_reached hvotes hp hagainst hreached

theorem RegistrationMove.ballot {m : Move Registration} (hmove : RegistrationMove cfg store r m)
    (hsound : RegistrationSound cfg s.store r) (hr : triggered r = true → AllAgainst cfg s) :
    VotesSound cfg s (m.store.cancelVotes cfg.child) ∧
      (triggered m.next = true → AllAgainst cfg s) := by
  cases hmove with
  | castVote plan p todo =>
    obtain ⟨hparent, hab⟩ := hsound.1.abnormal p (hsound.2.2 p (by simp))
    exact ⟨votesSound_vote hvotes hparent (.inl hab) cfg.distinctParents.length,
      allAgainst_of_triggered hvotes hparent (.inl hab) hr⟩
  | recastVote p todo =>
    obtain ⟨-, hparent, hab⟩ := hsound
    exact ⟨votesSound_vote hvotes hparent (.inl hab) cfg.distinctParents.length,
      allAgainst_of_triggered hvotes hparent (.inl hab) hr⟩
  | reading hr hr' =>
    refine ⟨hvotes, fun htriggered => ?_⟩
    simp [triggered_of_unclassified hr'] at htriggered
  | classified | finish => exact ⟨hvotes, by simp [triggered]⟩
  | added | addActive | cast | writeRecord | setCounter | rechecked | recheckEnded | recheckOpen
  | compensateSuccess | compensateAbnormal => exact ⟨hvotes, hr⟩

theorem NotificationMove.ballot {m : Move Notification} (hmove : NotificationMove cfg t store n m)
    (hsound : NotificationSound cfg s.store t n) (hold : NotificationSound cfg store t n)
    (hchild : ChildRegistered cfg store) (hn : NotificationVotes cfg s n) :
    VotesSound cfg s (m.store.cancelVotes cfg.child) ∧ NotificationVotes cfg s m.next := by
  -- a notification that votes was called with a status that is no success
  have hagainst : ∀ status, endedIn n = some status → cfg.isSuccess status = false →
      Against cfg s t := fun status hstatus hfail => by
    obtain ⟨record, hrecord, hterm, htold⟩ := hsound.ended
    exact .inl ⟨record, hrecord, hterm, htold status hstatus ▸ hfail⟩
  cases hmove with
  | readChildren | drained | countSuccess | dropped | cancel | independent | dependent | leave =>
    exact ⟨hvotes, trivial⟩
  | countAbnormal c todo status hfail => exact ⟨hvotes, hfail⟩
  | votes c todo status record hrecord hopen hmem =>
    refine ⟨hvotes, hn, ?_⟩
    rintro rfl
    rw [dependsOn_eq hchild hrecord hmem]
  | reached c threshold todo status hreached =>
    by_cases hc : c = cfg.child
    · subst hc
      have ht := hagainst status rfl hn.1
      obtain rfl := hn.2 rfl
      exact ⟨votesSound_vote hvotes hsound.parent ht cfg.distinctParents.length,
        fun _ => allAgainst_of_reached hvotes hsound.parent ht hreached⟩
    · exact ⟨by rwa [cancelVotes_vote_of_ne (Ne.symm hc)], fun h => absurd h hc⟩
  | cast c threshold todo status =>
    by_cases hc : c = cfg.child
    · subst hc
      exact ⟨votesSound_vote hvotes hsound.parent (hagainst status rfl hn.1) threshold, trivial⟩
    · exact ⟨by rwa [cancelVotes_vote_of_ne (Ne.symm hc)], trivial⟩
  | cleared =>
    refine ⟨?_, trivial⟩
    have hne : cfg.child ≠ t := (hold.leaving [] rfl).symm
    simpa only [Store.clearCancelVotes, Function.update_of_ne hne] using hvotes

theorem VoteMove.ballot {m : Move Vote} (hmove : VoteMove cfg store v m)
    (hchild : ChildRegistered cfg store)
    (haccepted : ∀ parent threshold, v = .cast parent threshold → parent ∈ s.accepted)
    (hv : VoteVotes cfg s v) :
    VotesSound cfg s (m.store.cancelVotes cfg.child) ∧ VoteVotes cfg s m.next := by
  cases hmove with
  | refused | cancel => exact ⟨hvotes, trivial⟩
  | votes parent record hrecord hmem =>
    have hdeps := dependsOn_eq hchild hrecord hmem
    rw [hdeps, mem_distinctParents] at hmem
    exact ⟨hvotes, hmem, by rw [hdeps]⟩
  | reached parent threshold hreached =>
    have hagainst : Against cfg s parent := .inr (haccepted parent threshold rfl)
    obtain rfl := hv.2
    exact ⟨votesSound_vote hvotes hv.1 hagainst cfg.distinctParents.length,
      allAgainst_of_reached hvotes hv.1 hagainst hreached⟩
  | cast parent threshold =>
    exact ⟨votesSound_vote hvotes hv.1 (.inr (haccepted parent threshold rfl)) threshold,
      trivial⟩

end Calls

theorem ballot_step (hsound : Sound cfg s) (hballot : Ballot cfg s)
    (h : step cfg s e = some s') : Ballot cfg s' := by
  have hvotes : VotesSound cfg s' (s.store.cancelVotes cfg.child) := fun p hp =>
    ⟨(hballot.cast p hp).1, (hballot.cast p hp).2.step hsound h⟩
  have hregistration := fun htriggered => (hballot.registration htriggered).step hsound h
  have hnotifications := fun u => (hballot.notifications u).step hsound h
  have hvoters := fun voter => (hballot.votes voter).step hsound h
  have hg := grows_step hsound h
  cases stepped h with
  | register req r hover hr =>
    refine ⟨hvotes, fun htriggered => ?_, hnotifications, hvoters⟩
    rcases hr with ⟨rfl, -⟩ | ⟨rfl, -⟩ <;> simp [triggered] at htriggered
  | registration m hm =>
    have hmove := registrationMove hsound.registration hm
    have hcall := hmove.ballot hvotes (hsound.registration.grows hg) hregistration
    exact ⟨hcall.1, hcall.2, hnotifications, hvoters⟩
  | write t w record hrecord hopen =>
    refine ⟨hvotes, hregistration, ?_, hvoters⟩
    dsimp only
    split
    · exact (Function.forall_update_iff _ fun _ n => NotificationVotes cfg _ n).mpr
        ⟨trivial, fun u _ => hnotifications u⟩
    · exact hnotifications
  | notification t m hmove =>
    have hold := hsound.notifications t hmove.ne_idle
    have hcall := hmove.ballot hvotes (hold.grows hg) hold hsound.child (hnotifications t)
    refine ⟨hcall.1, hregistration, ?_, hvoters⟩
    exact (Function.forall_update_iff _ fun _ n => NotificationVotes cfg _ n).mpr
      ⟨hcall.2, fun u _ => hnotifications u⟩
  | voteCancel voter parent =>
    refine ⟨hvotes, hregistration, hnotifications, ?_⟩
    exact (Function.forall_update_iff _ fun _ v => VoteVotes cfg _ v).mpr
      ⟨trivial, fun i _ => hvoters i⟩
  | vote voter m hmove =>
    have hcall := hmove.ballot hvotes hsound.child
      (fun parent threshold hv => by simp [hv, Vote.accepts]) (hvoters voter)
    refine ⟨hcall.1, hregistration, hnotifications, ?_⟩
    exact (Function.forall_update_iff _ fun _ v => VoteVotes cfg _ v).mpr
      ⟨hcall.2, fun i _ => hvoters i⟩

theorem ballot_start (cfg : Config) (store : Store) (due : String → Bool) :
    Ballot cfg (start cfg store due) where
  cast := by simp [VotesSound, start, unregistered]
  registration := by simp [start, triggered]
  notifications t := by
    simp only [start]
    split
    · split
      · split <;> trivial
      · trivial
    · trivial
  votes _ := trivial

end Orditect.Governance.Proofs
