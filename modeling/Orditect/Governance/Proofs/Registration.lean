import Orditect.Governance.Proofs.Growth
/-!
# What a registration knows

The facts about the store that hold wherever `register_dependency` stands: a parent that
is not counted had ended when it was read, and a counted one lists the child among its
active children before the counter is written.  They are stable (`Grows`), so only the
storage calls of the registration itself have to be looked at.
-/

namespace Orditect.Governance.Proofs

open Support.PlainSet Support.SortedSet

variable {cfg : Config} {s s' : Store} {r : Registration} {m : Move Registration}

/-- A record that was read is still there, and so is a terminal status. -/
structure ReadSound (cfg : Config) (s : Store) (recs : List (String × Record)) : Prop where
  child_known : Known s cfg.child
  recs : ∀ q ∈ recs, ∃ record, s.records q.1 = some record ∧
    (cfg.isTerminal q.2.status = true → record.status = q.2.status)

structure PlanSound (cfg : Config) (s : Store) (plan : Plan) : Prop where
  child_not_parent : cfg.child ∉ cfg.parents
  child_known : Known s cfg.child
  known : ∀ p ∈ cfg.parents, Known s p
  nodup : plan.counted.Nodup
  counted : ∀ p ∈ plan.counted, p ∈ cfg.parents
  abnormal : ∀ p ∈ plan.abnormal, p ∈ cfg.parents ∧ Abnormal cfg s p
  covered : ∀ p ∈ cfg.parents,
    p ∈ plan.counted ∨ Ended cfg s p ∧ (Abnormal cfg s p → p ∈ plan.abnormal)

/-- After the record is written: `todo` are the parents still to be rechecked. -/
structure Placed (cfg : Config) (s : Store) (todo : List String) : Prop where
  child_not_parent : cfg.child ∉ cfg.parents
  known : ∀ p ∈ cfg.parents, Known s p
  recorded : Recorded cfg s
  nodup : todo.Nodup
  todo : ∀ p ∈ todo, p ∈ cfg.parents ∧ cfg.child ∈ s.activeChildren p
  placed : ∀ p ∈ cfg.parents, Ended cfg s p ∨ cfg.child ∈ s.activeChildren p

def Listed (cfg : Config) (s : Store) (plan : Plan) (todo : List String) : Prop :=
  ∀ p ∈ plan.counted, p ∈ todo ∨ cfg.child ∈ s.activeChildren p

def RegistrationSound (cfg : Config) (s : Store) : Registration → Prop
  | .idle | .readChild _ | .raised _ => True
  | .readParents _ todo recs =>
    ReadSound cfg s recs ∧ recs.map Prod.fst ++ todo = cfg.distinctParents
  | .checkCycle _ recs stack _ =>
    ReadSound cfg s recs ∧ recs.map Prod.fst = cfg.distinctParents ∧
      (cfg.child ∈ cfg.parents → cfg.child ∈ stack.map Prod.fst)
  | .collectChain recs _ _ _ _ _ =>
    ReadSound cfg s recs ∧ recs.map Prod.fst = cfg.distinctParents ∧
      cfg.child ∉ cfg.parents
  | .addActive plan todo => PlanSound cfg s plan ∧ Listed cfg s plan todo
  | .castVotes plan todo _ =>
    PlanSound cfg s plan ∧ Listed cfg s plan [] ∧ ∀ p ∈ todo, p ∈ plan.abnormal
  | .writeRecord plan _ => PlanSound cfg s plan ∧ Listed cfg s plan []
  | .setCounter plan _ =>
    PlanSound cfg s plan ∧ Listed cfg s plan [] ∧ Placed cfg s plan.counted
  | .recheck todo _ => Placed cfg s todo
  | .compensate p current todo _ =>
    Placed cfg s (p :: todo) ∧
      ∃ record ∈ s.records p, record.status = current ∧ cfg.isTerminal current = true
  | .recastVote p todo _ => Placed cfg s todo ∧ p ∈ cfg.parents ∧ Abnormal cfg s p
  | .finish _ | .returned => Placed cfg s []

theorem ReadSound.grows {recs : List (String × Record)} (h : ReadSound cfg s recs)
    (hg : Grows cfg s s') : ReadSound cfg s' recs where
  child_known := hg.known h.child_known
  recs q hq := by
    obtain ⟨record, hrecord, hstatus⟩ := h.recs q hq
    obtain ⟨record', hrecord', hstatus'⟩ := hg.kept hrecord
    refine ⟨record', hrecord', fun hterm => ?_⟩
    have hread := hstatus hterm
    exact (hstatus' (hread.symm ▸ hterm)).trans hread

variable {plan : Plan} {todo : List String}

theorem PlanSound.grows (h : PlanSound cfg s plan) (hg : Grows cfg s s') :
    PlanSound cfg s' plan where
  child_not_parent := h.child_not_parent
  child_known := hg.known h.child_known
  known p hp := hg.known (h.known p hp)
  nodup := h.nodup
  counted := h.counted
  abnormal p hp := ⟨(h.abnormal p hp).1, hg.isAbnormal (h.abnormal p hp).2⟩
  covered p hp := (h.covered p hp).imp_right fun ⟨hended, hab⟩ =>
    ⟨hg.isEnded hended, fun h' => hab (hg.abnormal_of_ended hended h')⟩

theorem Placed.grows (h : Placed cfg s todo) (hg : Grows cfg s s') :
    Placed cfg s' todo where
  child_not_parent := h.child_not_parent
  known p hp := hg.known (h.known p hp)
  recorded := hg.recorded h.recorded
  nodup := h.nodup
  todo p hp := ⟨(h.todo p hp).1, hg.listed (h.todo p hp).2⟩
  placed p hp := (h.placed p hp).imp hg.isEnded hg.listed

theorem Placed.tail {p : String} (h : Placed cfg s (p :: todo)) :
    Placed cfg s todo where
  child_not_parent := h.child_not_parent
  known := h.known
  recorded := h.recorded
  nodup := h.nodup.of_cons
  todo q hq := h.todo q (List.mem_cons_of_mem p hq)
  placed := h.placed

theorem Listed.grows (h : Listed cfg s plan todo) (hg : Grows cfg s s') : Listed cfg s' plan todo :=
  fun p hp => (h p hp).imp_right hg.listed

theorem RegistrationSound.grows (h : RegistrationSound cfg s r) (hg : Grows cfg s s') :
    RegistrationSound cfg s' r := by
  cases r with
  | idle | readChild | raised => trivial
  | readParents | checkCycle | collectChain => exact ⟨h.1.grows hg, h.2⟩
  | addActive | writeRecord => exact ⟨h.1.grows hg, h.2.grows hg⟩
  | castVotes => exact ⟨h.1.grows hg, h.2.1.grows hg, h.2.2⟩
  | setCounter => exact ⟨h.1.grows hg, h.2.1.grows hg, h.2.2.grows hg⟩
  | recheck | finish | returned => exact Placed.grows h hg
  | compensate =>
    obtain ⟨hplaced, record, hrecord, rfl, hterm⟩ := h
    obtain ⟨record', hrecord', hstatus⟩ := hg.ended hrecord hterm
    exact ⟨hplaced.grows hg, record', hrecord', hstatus, hterm⟩
  | recastVote => exact ⟨h.1.grows hg, h.2.1, hg.isAbnormal h.2.2⟩

theorem planSound_classify {recs : List (String × Record)}
    (hrecs : ReadSound cfg s recs) (hkeys : recs.map Prod.fst = cfg.distinctParents)
    (hchild : cfg.child ∉ cfg.parents) (primary : String) (snapshot : List String) :
    PlanSound cfg s (classify cfg recs primary snapshot) := by
  have hmem : ∀ q ∈ recs, q.1 ∈ cfg.parents := fun q hq => by
    rw [← mem_distinctParents, ← hkeys]
    exact List.mem_map_of_mem hq
  refine ⟨hchild, hrecs.child_known, ?_, ?_, ?_, ?_, ?_⟩
  · intro p hp
    rw [← mem_distinctParents, ← hkeys] at hp
    obtain ⟨q, hq, rfl⟩ := List.mem_map.mp hp
    obtain ⟨record, hrecord, -⟩ := hrecs.recs q hq
    exact ⟨record, hrecord⟩
  · have hnodup : (recs.map Prod.fst).Nodup := hkeys ▸ nodup_distinctParents cfg
    exact hnodup.sublist (List.filter_sublist.map Prod.fst)
  · intro p hp
    obtain ⟨q, hq, rfl⟩ := List.mem_map.mp hp
    exact hmem q (List.mem_filter.mp hq).1
  · intro p hp
    obtain ⟨q, hq, rfl⟩ := List.mem_map.mp hp
    obtain ⟨hq, hstatus⟩ := List.mem_filter.mp hq
    rw [Bool.and_eq_true, Bool.not_eq_true'] at hstatus
    obtain ⟨record, hrecord, heq⟩ := hrecs.recs q hq
    exact ⟨hmem q hq, record, hrecord, heq hstatus.1 ▸ hstatus⟩
  · intro p hp
    rw [← mem_distinctParents, ← hkeys] at hp
    obtain ⟨q, hq, rfl⟩ := List.mem_map.mp hp
    cases hterm : cfg.isTerminal q.2.status with
    | false => exact .inl (List.mem_map_of_mem (List.mem_filter.mpr ⟨hq, by simp [hterm]⟩))
    | true =>
      obtain ⟨record, hrecord, heq⟩ := hrecs.recs q hq
      refine .inr ⟨⟨record, hrecord, (heq hterm).symm ▸ hterm⟩, ?_⟩
      rintro ⟨record', hrecord', -, hfail⟩
      obtain rfl : record = record' := Option.some_injective _ (hrecord.symm.trans hrecord')
      rw [heq hterm] at hfail
      exact List.mem_map_of_mem (List.mem_filter.mpr ⟨hq, by simp [hterm, hfail]⟩)

def unclassified : Registration → Bool
  | .idle | .readChild _ | .readParents _ _ _ | .checkCycle _ _ _ _ | .collectChain _ _ _ _ _ _
  | .raised _ => true
  | _ => false

/-- Everything one storage call of a registration can do.  The calls up to the
classification only read. -/
inductive RegistrationMove (cfg : Config) (s : Store) : Registration → Move Registration → Prop
  | reading {r r' : Registration} (hr : unclassified r = true) (hr' : unclassified r' = true) :
      RegistrationMove cfg s r ⟨r', s, none⟩
  | classified {r : Registration} {plan : Plan} (hr : unclassified r = true)
      (hplan : PlanSound cfg s plan) :
      RegistrationMove cfg s r ⟨.addActive plan plan.counted, s, none⟩
  | added (plan : Plan) :
      RegistrationMove cfg s (.addActive plan []) ⟨.castVotes plan plan.abnormal false, s, none⟩
  | addActive (plan : Plan) (p : String) (todo : List String) :
      RegistrationMove cfg s (.addActive plan (p :: todo))
        ⟨.addActive plan todo, s.saddActiveChild p cfg.child, none⟩
  | cast (plan : Plan) (triggered : Bool) :
      RegistrationMove cfg s (.castVotes plan [] triggered) ⟨.writeRecord plan triggered, s, none⟩
  | castVote (plan : Plan) (p : String) (todo : List String) (triggered : Bool) :
      RegistrationMove cfg s (.castVotes plan (p :: todo) triggered)
        ⟨.castVotes plan todo
            (triggered || (s.voteAndCheckThreshold cfg.child p cfg.distinctParents.length).1),
          (s.voteAndCheckThreshold cfg.child p cfg.distinctParents.length).2, none⟩
  | writeRecord (plan : Plan) (triggered : Bool) (f : Record → Record)
      (hstatus : ∀ record, (f record).status = record.status)
      (hdeps : ∀ record, (f record).dependsOn = cfg.distinctParents) :
      RegistrationMove cfg s (.writeRecord plan triggered)
        ⟨.setCounter plan triggered, s.updateTask cfg.child f, none⟩
  | setCounter (plan : Plan) (triggered : Bool) :
      RegistrationMove cfg s (.setCounter plan triggered)
        ⟨.recheck plan.counted triggered,
          s.setRemainingDeps cfg.child plan.counted.length, none⟩
  | rechecked (triggered : Bool) :
      RegistrationMove cfg s (.recheck [] triggered) ⟨.finish triggered, s, none⟩
  | recheckEnded (p : String) (todo : List String) (triggered : Bool)
      (hterm : cfg.isTerminal (s.getTask p).status = true) :
      RegistrationMove cfg s (.recheck (p :: todo) triggered)
        ⟨.compensate p (s.getTask p).status todo triggered, s, none⟩
  | recheckOpen (p : String) (todo : List String) (triggered : Bool)
      (hopen : cfg.isTerminal (s.getTask p).status = false) :
      RegistrationMove cfg s (.recheck (p :: todo) triggered) ⟨.recheck todo triggered, s, none⟩
  | compensateSuccess (p current : String) (todo : List String) (triggered : Bool)
      (hsuccess : cfg.isSuccess current = true) :
      RegistrationMove cfg s (.compensate p current todo triggered)
        ⟨.recheck todo triggered, s.decrRemainingDeps cfg.child, none⟩
  | compensateAbnormal (p current : String) (todo : List String) (triggered : Bool)
      (hfail : cfg.isSuccess current = false) :
      RegistrationMove cfg s (.compensate p current todo triggered)
        ⟨.recastVote p todo triggered, s.decrRemainingDeps cfg.child, none⟩
  | recastVote (p : String) (todo : List String) (triggered : Bool) :
      RegistrationMove cfg s (.recastVote p todo triggered)
        ⟨.recheck todo
            (triggered || (s.voteAndCheckThreshold cfg.child p cfg.distinctParents.length).1),
          (s.voteAndCheckThreshold cfg.child p cfg.distinctParents.length).2, none⟩
  | finish (triggered : Bool) :
      RegistrationMove cfg s (.finish triggered)
        ⟨.returned, s, if triggered && cfg.lifecycle then some cfg.child else none⟩

inductive Read (cfg : Config) (s : Store) : Registration → Prop
  | reading {r : Registration} (hr : unclassified r = true) (hsound : RegistrationSound cfg s r) :
      Read cfg s r
  | classified {plan : Plan} (hplan : PlanSound cfg s plan) :
      Read cfg s (.addActive plan plan.counted)

section Reads

variable {recs : List (String × Record)} (hrecs : ReadSound cfg s recs)
  (hkeys : recs.map Prod.fst = cfg.distinctParents) (hchild : cfg.child ∉ cfg.parents)

include hrecs hkeys hchild

theorem read_startWrites (primary : String) (snapshot : List String) :
    Read cfg s (startWrites cfg recs primary snapshot) :=
  .classified (planSound_classify hrecs hkeys hchild primary snapshot)

theorem read_prepare (req : Request) : Read cfg s (prepare cfg req recs) := by
  by_cases hprimary : choosePrimary cfg req ∈ cfg.distinctParents
  · simp only [prepare, if_pos hprimary]
    split
    · split
      · exact .reading rfl trivial
      · exact read_startWrites hrecs hkeys hchild _ _
    · exact .reading rfl ⟨hrecs, hkeys, hchild⟩
  · simp only [prepare, if_neg hprimary]
    exact .reading rfl trivial

theorem read_followChain (primary : String) (hops : Nat) (current : Option String)
    (visited resources : List String) :
    Read cfg s (followChain cfg s recs primary hops current visited resources) := by
  have hon : ∀ hops current visited resources,
      Read cfg s (.collectChain recs primary hops current visited resources) :=
    fun _ _ _ _ => .reading rfl ⟨hrecs, hkeys, hchild⟩
  have hstop := read_startWrites hrecs hkeys hchild primary
  unfold followChain
  split
  · split
    · exact hstop _
    · split
      · exact hstop _
      · split
        · split
          · exact hon _ _ _ _
          · split
            · exact hstop _
            · exact hon _ _ _ _
        · exact hon _ _ _ _
  · exact hstop _

end Reads

/-- The reads of a registration: nothing is written, and what was read is remembered
soundly.  A cycle is found at the latest when the child itself is popped. -/
theorem read_next (hr : unclassified r = true) (hsound : RegistrationSound cfg s r)
    (hm : r.next cfg s = some m) : m.store = s ∧ m.cancels = none ∧ Read cfg s m.next := by
  cases r with
  | idle | raised => simp [Registration.next] at hm
  | addActive | castVotes | writeRecord | setCounter | recheck | compensate | recastVote | finish
  | returned => simp [unclassified] at hr
  | readChild req =>
    simp only [Registration.next] at hm
    split at hm <;> cases hm
    · exact ⟨rfl, rfl, .reading rfl trivial⟩
    · rename_i record hrecord
      exact ⟨rfl, rfl, .reading rfl ⟨⟨⟨record, hrecord⟩, by simp⟩, by simp⟩⟩
  | readParents req todo recs =>
    obtain ⟨hrecs, hkeys⟩ := hsound
    cases todo with
    | nil =>
      cases hm
      exact ⟨rfl, rfl, .reading rfl ⟨hrecs, by simpa using hkeys, by simp⟩⟩
    | cons p todo =>
      simp only [Registration.next] at hm
      split at hm <;> cases hm
      · exact ⟨rfl, rfl, .reading rfl trivial⟩
      · rename_i record hrecord
        refine ⟨rfl, rfl, .reading rfl ⟨⟨hrecs.child_known, ?_⟩, by simpa using hkeys⟩⟩
        intro q hq
        rcases List.mem_append.mp hq with hq | hq
        · exact hrecs.recs q hq
        · obtain rfl : q = (p, record) := by simpa using hq
          exact ⟨record, hrecord, fun _ => rfl⟩
  | checkCycle req recs stack visited =>
    obtain ⟨hrecs, hkeys, hcycle⟩ := hsound
    cases stack with
    | nil =>
      cases hm
      exact ⟨rfl, rfl, read_prepare hrecs hkeys (fun h => by simpa using hcycle h) req⟩
    | cons top stack =>
      obtain ⟨node, depth⟩ := top
      simp only [Registration.next] at hm
      split at hm
      · cases hm
        exact ⟨rfl, rfl, .reading rfl trivial⟩
      · rename_i hnode
        -- the node just popped is another one, so the child is still on the stack
        have hrest : cfg.child ∈ cfg.parents → cfg.child ∈ stack.map Prod.fst := fun h => by
          simpa [Ne.symm hnode] using hcycle h
        split at hm <;> cases hm
        · exact ⟨rfl, rfl, .reading rfl ⟨hrecs, hkeys, hrest⟩⟩
        · refine ⟨rfl, rfl, .reading rfl ⟨hrecs, hkeys, fun h => ?_⟩⟩
          simp only [pushAncestors, List.map_append, List.mem_append]
          exact .inr (hrest h)
  | collectChain recs primary hops current visited resources =>
    cases hm
    exact ⟨rfl, rfl, read_followChain hsound.1 hsound.2.1 hsound.2.2 _ _ _ _ _⟩

theorem registrationMove (hsound : RegistrationSound cfg s r) (hm : r.next cfg s = some m) :
    RegistrationMove cfg s r m := by
  cases hr : unclassified r with
  | true =>
    obtain ⟨hstore, hcancels, hread⟩ := read_next hr hsound hm
    obtain ⟨r', store, cancels⟩ := m
    obtain rfl : store = s := hstore
    obtain rfl : cancels = none := hcancels
    generalize hnext : r' = r'' at hread
    cases hread with
    | reading hr' => exact .reading hr (hnext ▸ hr')
    | classified hplan => exact hnext ▸ .classified hr hplan
  | false =>
    cases r with
    | idle | readChild | readParents | checkCycle | collectChain | raised =>
      simp [unclassified] at hr
    | addActive plan todo =>
      cases todo <;> cases hm
      · exact .added plan
      · exact .addActive plan _ _
    | castVotes plan todo triggered =>
      cases todo <;> cases hm
      · exact .cast plan triggered
      · exact .castVote plan _ _ triggered
    | writeRecord plan triggered =>
      cases hm
      exact .writeRecord plan triggered _ (fun _ => rfl) (fun _ => rfl)
    | setCounter plan triggered =>
      cases hm
      exact .setCounter plan triggered
    | recheck todo triggered =>
      cases todo with
      | nil =>
        cases hm
        exact .rechecked triggered
      | cons p todo =>
        simp only [Registration.next] at hm
        split at hm <;> cases hm
        · exact .recheckEnded p todo triggered ‹_›
        · exact .recheckOpen p todo triggered (eq_false_of_ne_true ‹_›)
    | compensate p current todo triggered =>
      simp only [Registration.next] at hm
      split at hm <;> cases hm
      · exact .compensateSuccess p current todo triggered ‹_›
      · exact .compensateAbnormal p current todo triggered (eq_false_of_ne_true ‹_›)
    | recastVote p todo triggered =>
      cases hm
      exact .recastVote p todo triggered
    | finish triggered =>
      cases hm
      exact .finish triggered
    | returned => simp [Registration.next] at hm

theorem RegistrationMove.grows (h : RegistrationMove cfg s r m) : Grows cfg s m.store := by
  cases h with
  | reading | classified | added | cast | rechecked | recheckEnded | recheckOpen | finish =>
    exact Grows.refl cfg s
  | addActive plan p => exact grows_saddActiveChild p cfg.child
  | castVote plan p | recastVote p => exact grows_vote cfg.child p cfg.distinctParents.length
  | writeRecord plan triggered f hstatus hdeps => exact grows_writeRecord hstatus hdeps
  | setCounter plan => exact grows_setRemainingDeps cfg.child _
  | compensateSuccess | compensateAbnormal => exact grows_decrRemainingDeps cfg.child

theorem PlanSound.placed (hplan : PlanSound cfg s plan) (hlisted : Listed cfg s plan [])
    (hrecorded : Recorded cfg s) :
    Placed cfg s plan.counted := by
  have hpublished : ∀ p ∈ plan.counted, cfg.child ∈ s.activeChildren p :=
    fun p hp => (hlisted p hp).resolve_left List.not_mem_nil
  refine ⟨hplan.child_not_parent, hplan.known, hrecorded, hplan.nodup, ?_, ?_⟩
  · exact fun p hp => ⟨hplan.counted p hp, hpublished p hp⟩
  · intro p hp
    exact (hplan.covered p hp).elim (fun h => .inr (hpublished p h)) (fun h => .inl h.1)

theorem RegistrationSound.next (hsound : RegistrationSound cfg s r)
    (hm : r.next cfg s = some m) : RegistrationSound cfg m.store m.next := by
  have hmove := registrationMove hsound hm
  have hg := hmove.grows
  cases hmove with
  | reading hr hr' =>
    obtain ⟨-, -, hread⟩ := read_next hr hsound hm
    generalize hnext : Move.next _ = r'' at hread
    cases hread with
    | reading _ hsound' => exact hsound'
    | classified hplan => exact ⟨hplan, fun p hp => .inl hp⟩
  | classified hr hplan => exact ⟨hplan, fun p hp => .inl hp⟩
  | added plan => exact ⟨hsound.1, hsound.2, fun p hp => hp⟩
  | addActive plan p todo =>
    refine ⟨hsound.1.grows hg, fun q hq => ?_⟩
    rcases hsound.2 q hq with hq | hq
    · rcases List.mem_cons.mp hq with rfl | hq
      · exact .inr (by simp [Store.saddActiveChild])
      · exact .inl hq
    · exact .inr (hg.listed hq)
  | cast plan => exact ⟨hsound.1, hsound.2.1⟩
  | castVote plan p todo =>
    exact ⟨hsound.1.grows hg, hsound.2.1.grows hg,
      fun q hq => hsound.2.2 q (List.mem_cons_of_mem p hq)⟩
  | writeRecord plan triggered f hstatus hdeps =>
    obtain ⟨record, hrecord⟩ := hsound.1.child_known
    have hrecorded : Recorded cfg (s.updateTask cfg.child f) :=
      ⟨f record, by simp [records_updateTask, hrecord], hdeps record⟩
    exact ⟨hsound.1.grows hg, hsound.2.grows hg,
      (hsound.1.grows hg).placed (hsound.2.grows hg) hrecorded⟩
  | setCounter => exact hsound.2.2.grows hg
  | rechecked => exact hsound
  | recheckEnded p todo triggered hterm =>
    obtain ⟨record, hrecord⟩ := Placed.known hsound p (Placed.todo hsound p (by simp)).1
    exact ⟨hsound, record, hrecord, by simp [Store.getTask, hrecord], hterm⟩
  | recheckOpen => exact Placed.tail hsound
  | compensateSuccess => exact hsound.1.tail.grows hg
  | compensateAbnormal p current todo triggered hfail =>
    obtain ⟨hplaced, record, hrecord, rfl, hterm⟩ := hsound
    exact ⟨hplaced.tail.grows hg, (hplaced.todo p (by simp)).1, record, hrecord, hterm, hfail⟩
  | recastVote => exact hsound.1.grows hg
  | finish => exact hsound

end Orditect.Governance.Proofs
