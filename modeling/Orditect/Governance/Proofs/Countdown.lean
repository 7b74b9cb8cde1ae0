import Orditect.Governance.Proofs.Soundness
/-!
# The countdown of the child

What the storage calls do to the remaining-deps counter of the child, next to what the
registration has still to recheck and what the notifications have still to count down.
-/

namespace Orditect.Governance.Proofs

open Support.PlainSet Support.SortedSet

variable {cfg : Config} {s s' : Store}

def counter (cfg : Config) (s : Store) : Option Int := s.remainingDeps.lookup cfg.child

@[simp] theorem counter_setRemainingDeps (cfg : Config) (s : Store) (k : Nat) :
    counter cfg (s.setRemainingDeps cfg.child k) = some (k : Int) :=
  AList.lookup_insert _

@[simp] theorem counter_decrRemainingDeps (cfg : Config) (s : Store) :
    counter cfg (s.decrRemainingDeps cfg.child) = some ((counter cfg s).getD 0 - 1) :=
  AList.lookup_insert _

theorem counter_decrRemainingDeps_of_ne {c : String} (hc : cfg.child ≠ c) :
    counter cfg (s.decrRemainingDeps c) = counter cfg s :=
  AList.lookup_insert_ne hc

/-! ## The registration -/

def counterWritten : Registration → Bool
  | .recheck _ _ | .compensate _ _ _ _ | .recastVote _ _ _ | .finish _ | .returned => true
  | _ => false

def unchecked : Registration → List String
  | .recheck todo _ | .recastVote _ todo _ => todo
  | .compensate p _ todo _ => p :: todo
  | _ => []

theorem counterWritten_of_unclassified {r : Registration} (h : unclassified r = true) :
    counterWritten r = false := by
  cases r <;> first | rfl | simp [unclassified] at h

theorem RegistrationSound.placed {r : Registration} (h : RegistrationSound cfg s r)
    (hr : counterWritten r = true) : Placed cfg s (unchecked r) := by
  cases r with
  | recheck | finish | returned => exact h
  | compensate | recastVote => exact h.1
  | idle | readChild | readParents | checkCycle | collectChain | addActive | castVotes
  | writeRecord | setCounter | raised => simp [counterWritten] at hr

inductive RegistrationCounts (cfg : Config) (s s' : Store) (awaited awaited' : List String)
    (r r' : Registration) : Prop
  | before (hr : counterWritten r = false) (hr' : counterWritten r' = false)
      (hcounter : counter cfg s' = counter cfg s) (hawaited : awaited' = awaited)
  | written (plan : Plan) (triggered : Bool) (hr : r = .setCounter plan triggered)
      (hr' : r' = .recheck plan.counted triggered)
      (hcounter : counter cfg s' = some (plan.counted.length : Int)) (hawaited : awaited' = [])
  | found (p : String) (hr : counterWritten r = true) (hr' : counterWritten r' = true)
      (htodo : unchecked r = p :: unchecked r')
      (hopen : ¬ Ended cfg s p) (hcounter : counter cfg s' = counter cfg s)
      (hawaited : awaited' = p :: awaited)
  | compensated (p : String) (hr : counterWritten r = true) (hr' : counterWritten r' = true)
      (htodo : unchecked r = p :: unchecked r') (hended : Ended cfg s p)
      (hcounter : counter cfg s' = some ((counter cfg s).getD 0 - 1))
      (hawaited : awaited' = awaited)
  | after (hr : counterWritten r = true) (hr' : counterWritten r' = true)
      (htodo : unchecked r' = unchecked r) (hcounter : counter cfg s' = counter cfg s)
      (hawaited : awaited' = awaited)

theorem awaits_of_unclassified {r : Registration} (h : unclassified r = true)
    (awaited : List String) : r.awaits cfg s awaited = awaited := by
  cases r <;> first | rfl | simp [unclassified] at h

theorem RegistrationMove.counts {r : Registration} {m : Move Registration}
    (h : RegistrationMove cfg s r m) (hsound : RegistrationSound cfg s r) (awaited : List String) :
    RegistrationCounts cfg s m.store awaited (r.awaits cfg s awaited) r m.next := by
  cases h with
  | reading hr hr' =>
    exact .before (counterWritten_of_unclassified hr) (counterWritten_of_unclassified hr') rfl
      (awaits_of_unclassified hr awaited)
  | classified hr =>
    exact .before (counterWritten_of_unclassified hr) rfl rfl (awaits_of_unclassified hr awaited)
  | added | addActive | cast | castVote | writeRecord => exact .before rfl rfl rfl rfl
  | setCounter plan triggered =>
    exact .written plan triggered rfl rfl (counter_setRemainingDeps _ _ _) rfl
  | recheckEnded p todo triggered hterm =>
    exact .after rfl rfl rfl rfl (by simp [Registration.awaits, hterm])
  | recheckOpen p todo triggered hopen =>
    refine .found p rfl rfl rfl ?_ rfl (by simp [Registration.awaits, hopen])
    rintro ⟨record, hrecord, hterm⟩
    simp [Store.getTask, Option.mem_def.mp hrecord, hterm] at hopen
  | compensateSuccess p | compensateAbnormal p =>
    obtain ⟨-, record, hrecord, rfl, hterm⟩ := hsound
    exact .compensated p rfl rfl rfl ⟨record, hrecord, hterm⟩ (counter_decrRemainingDeps _ _) rfl
  | rechecked | recastVote | finish => exact .after rfl rfl rfl rfl rfl

/-! ## The notifications -/

def unread : Notification → Bool
  | .idle | .readChildren _ => true
  | _ => false

def Owes (child : String) (n : Notification) : Prop := unread n = true ∨ child ∈ unvisited n

instance (child : String) (n : Notification) : Decidable (Owes child n) :=
  inferInstanceAs (Decidable (unread n = true ∨ child ∈ unvisited n))

def countsDown : Notification → Option String
  | .children (c :: _) _ => some c
  | _ => none

inductive NotificationCounts (cfg : Config) (t : String) (s s' : Store) (n n' : Notification) :
    Prop
  | counted (hcounts : countsDown n = some cfg.child) (howes : Owes cfg.child n)
      (hread : unread n' = false) (hwalk : unvisited n = cfg.child :: unvisited n')
      (hcounter : counter cfg s' = some ((counter cfg s).getD 0 - 1))
  | passed (hcounter : counter cfg s' = counter cfg s)
      (hless : Owes cfg.child n' → Owes cfg.child n)
      (hkept : cfg.child ∈ s.activeChildren t → Owes cfg.child n → Owes cfg.child n')

theorem NotificationMove.counts {t : String} {n : Notification} {m : Move Notification}
    (h : NotificationMove cfg t s n m) : NotificationCounts cfg t s m.store n m.next := by
  cases h with
  | readChildren status =>
    refine .passed rfl (fun _ => .inl rfl) (fun hchild _ => .inr ?_)
    simpa [unvisited, Store.getActiveChildren] using hchild
  | countSuccess c todo status | countAbnormal c todo status =>
    by_cases hc : cfg.child = c
    · subst hc
      exact .counted rfl (.inr (by simp [unvisited])) rfl rfl (counter_decrRemainingDeps _ _)
    · refine .passed (counter_decrRemainingDeps_of_ne hc) ?_ ?_
      · exact fun howes => .inr (by simpa [Owes, unread, unvisited, hc] using howes)
      · exact fun _ howes => .inr (by simpa [Owes, unread, unvisited, hc] using howes)
  | dropped | votes | reached | cast | cancel =>
    exact .passed rfl id fun _ => id
  | drained | independent | dependent | cleared | leave =>
    exact .passed rfl (by simp [Owes, unread, unvisited]) (by simp [Owes, unread, unvisited])

theorem VoteMove.counter_eq {v : Vote} {m : Move Vote} (h : VoteMove cfg s v m) :
    counter cfg m.store = counter cfg s := by
  cases h <;> rfl

/-- A notification that is about to count the child down is not the one of the child, so a
walk that visits everyone once has counted it down for good. -/
theorem not_owes_of_counted {n n' : Notification} (hread : unread n' = false)
    (hwalk : unvisited n = cfg.child :: unvisited n') (hnodup : (unvisited n).Nodup) :
    ¬ Owes cfg.child n' := by
  rw [hwalk] at hnodup
  simp [Owes, hread, (List.nodup_cons.mp hnodup).1]

/-! ## The system -/

inductive StepCounts (cfg : Config) (s s' : State) : Event → Prop
  | restarted (req : Request) (hover : s.registration.over = true)
      (hr' : counterWritten s'.registration = false)
      (hcounter : counter cfg s'.store = counter cfg s.store) (hawaited : s'.awaited = s.awaited) :
      StepCounts cfg s s' (.register req)
  | registration
      (hcounts : RegistrationCounts cfg s.store s'.store s.awaited s'.awaited s.registration
        s'.registration)
      (hnotifications : s'.notifications = s.notifications) : StepCounts cfg s s' .registration
  | notification (t : String)
      (hcounts : NotificationCounts cfg t s.store s'.store (s.notifications t) (s'.notifications t))
      (hothers : ∀ u, u ≠ t → s'.notifications u = s.notifications u)
      (hregistration : s'.registration = s.registration) (hawaited : s'.awaited = s.awaited) :
      StepCounts cfg s s' (.notification t)
  | quiet {e : Event} (hcounter : counter cfg s'.store = counter cfg s.store)
      (howes : ∀ u, Owes cfg.child (s'.notifications u) ↔ Owes cfg.child (s.notifications u))
      (hregistration : s'.registration = s.registration) (hawaited : s'.awaited = s.awaited) :
      StepCounts cfg s s' e

theorem owes_write_iff {notifications : String → Notification} {t w : String}
    (hidle : notifications t = .idle) (u : String) :
    Owes cfg.child ((if cfg.isTerminal w ∧ t ∈ cfg.parents then
        Function.update notifications t (.readChildren w) else notifications) u) ↔
      Owes cfg.child (notifications u) := by
  by_cases hut : u = t
  · subst hut
    split
    · simp [hidle, Owes, unread]
    · exact Iff.rfl
  · rw [notifications_write_of_ne hut]

theorem stepCounts {st st' : State} {e : Event} (hsound : Sound cfg st)
    (h : step cfg st e = some st') : StepCounts cfg st st' e := by
  cases stepped h with
  | register req r hover hr =>
    refine .restarted req hover ?_ rfl rfl
    rcases hr with ⟨rfl, -⟩ | ⟨rfl, -⟩ <;> rfl
  | registration m hm =>
    exact .registration
      ((registrationMove hsound.registration hm).counts hsound.registration st.awaited) rfl
  | write t w record hrecord hopen =>
    have hidle := hsound.idle_of_not_ended (not_ended_of_open hrecord hopen)
    exact .quiet rfl (owes_write_iff hidle) rfl rfl
  | notification t m hmove =>
    refine .notification t ?_ (fun u hut => Function.update_of_ne hut _ _) rfl rfl
    simpa using hmove.counts
  | voteCancel => exact .quiet rfl (fun _ => Iff.rfl) rfl rfl
  | vote voter m hmove => exact .quiet hmove.counter_eq (fun _ => Iff.rfl) rfl rfl

end Orditect.Governance.Proofs
