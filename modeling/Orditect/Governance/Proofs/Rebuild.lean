import Mathlib.Data.List.TakeWhile
import Orditect.Governance.Tools
/-!
# The counter rebuild

A round of the rebuild touches the keys of its own child only, so the keys of a child
after the whole run are those its own round leaves.  A round that meets a missing parent
has already written what the parents before it call for.
-/

namespace Orditect.Governance

/-- The keys of a child: its cancel votes, its counter, and the parents it is an active
child of. -/
structure ChildKeys where
  votes : Finset String
  remaining : Option Int
  activeUnder : String → Bool

def Store.childKeys (s : Store) (child : String) : ChildKeys where
  votes := s.cancelVotes child
  remaining := s.remainingDeps.lookup child
  activeUnder := fun parent => decide (child ∈ s.activeChildren parent)

end Orditect.Governance

namespace Orditect.Governance.Proofs

open Support.PlainSet

variable {words : Vocabulary} {lifecycle : Option Lifecycle} {edges : List DependencyEdge}
  {child other : String} {threshold : Nat} {parents : List String} {tally : Tally} {s : Store}

theorem childKeys_eq_iff {t : Store} :
    s.childKeys child = t.childKeys child ↔
      s.cancelVotes child = t.cancelVotes child ∧
        s.remainingDeps.lookup child = t.remainingDeps.lookup child ∧
        ∀ parent, child ∈ s.activeChildren parent ↔ child ∈ t.activeChildren parent := by
  simp [Store.childKeys, funext_iff]

theorem isTerminal_of_isAbnormal {status : String}
    (h : words.isAbnormal status = true) : words.isTerminal status = true := by
  simp only [Vocabulary.isAbnormal, Bool.and_eq_true] at h
  exact h.1

section Reading

variable (words : Vocabulary) (records : String → Option Record)

def isAbnormal (task : String) : Bool :=
  (records task).any fun record => words.isAbnormal record.status

def isRunning (task : String) : Bool :=
  (records task).any fun record => !words.isTerminal record.status

def knownParents (parents : List String) : List String :=
  parents.takeWhile fun parent => (records parent).isSome

end Reading

variable {parent : String} {reached : Bool} {task : String} {records : String → Option Record}

theorem knownParents_cons_some {record : Record} (h : records parent = some record)
    (parents : List String) :
    knownParents records (parent :: parents) = parent :: knownParents records parents := by
  simp [knownParents, h]

theorem knownParents_cons_none (h : records parent = none) (parents : List String) :
    knownParents records (parent :: parents) = [] := by
  simp [knownParents, h]

/-! ## The loop over the parents -/

@[simp] theorem records_vote :
    (s.voteAndCheckThreshold child parent threshold).2.records = s.records := rfl

@[simp] theorem records_saddActiveChild :
    (s.saddActiveChild parent child).records = s.records := rfl

theorem tallyParents_frame :
    (tallyParents words child threshold parents tally).store.records = tally.store.records ∧
      (tallyParents words child threshold parents tally).store.remainingDeps =
        tally.store.remainingDeps ∧
      ∀ other ≠ child, (tallyParents words child threshold parents tally).store.cancelVotes other =
        tally.store.cancelVotes other := by
  fun_induction tallyParents words child threshold parents tally with
  | case1 | case2 => exact ⟨rfl, rfl, fun _ _ => rfl⟩
  | case3 parent parents tally record hrecord habnormal vote ih =>
    refine ⟨ih.1, ih.2.1, fun other hother => ?_⟩
    rw [ih.2.2 other hother]
    simp [vote, Store.voteAndCheckThreshold, hother]
  | case4 parent parents tally record hrecord habnormal hterminal ih
  | case5 parent parents tally record hrecord habnormal hterminal ih => exact ih

@[simp] theorem records_tallyParents :
    (tallyParents words child threshold parents tally).store.records = tally.store.records :=
  tallyParents_frame.1

theorem votes_tallyParents :
    (tallyParents words child threshold parents tally).store.cancelVotes child =
      tally.store.cancelVotes child ∪
        ((knownParents tally.store.records parents).filter
          (isAbnormal words tally.store.records)).toFinset := by
  fun_induction tallyParents words child threshold parents tally with
  | case1 => simp [knownParents]
  | case2 parent parents tally hrecord => simp [knownParents_cons_none hrecord]
  | case3 parent parents tally record hrecord habnormal vote ih =>
    rw [ih, knownParents_cons_some hrecord]
    simp [vote, Store.voteAndCheckThreshold, isAbnormal, hrecord, habnormal]
  | case4 parent parents tally record hrecord habnormal hterminal ih =>
    rw [ih, knownParents_cons_some hrecord]
    simp [isAbnormal, hrecord, habnormal]
  | case5 parent parents tally record hrecord habnormal hterminal ih =>
    rw [ih, knownParents_cons_some hrecord]
    simp [Store.saddActiveChild, isAbnormal, hrecord, habnormal]

theorem active_tallyParents :
    other ∈ (tallyParents words child threshold parents tally).store.activeChildren parent ↔
      other ∈ tally.store.activeChildren parent ∨
        other = child ∧ parent ∈ knownParents tally.store.records parents ∧
          isRunning words tally.store.records parent = true := by
  fun_induction tallyParents words child threshold parents tally with
  | case1 => simp [knownParents]
  | case2 p parents tally hrecord => simp [knownParents_cons_none hrecord]
  | case3 p parents tally record hrecord habnormal vote ih =>
    have hterminal := isTerminal_of_isAbnormal habnormal
    rw [ih, knownParents_cons_some hrecord]
    by_cases hp : parent = p
    · subst hp
      simp [isRunning, hrecord, hterminal, vote, Store.voteAndCheckThreshold]
    · simp [hp, vote, Store.voteAndCheckThreshold]
  | case4 p parents tally record hrecord habnormal hterminal ih =>
    rw [ih, knownParents_cons_some hrecord]
    by_cases hp : parent = p
    · subst hp
      simp [isRunning, hrecord, hterminal]
    · simp [hp]
  | case5 p parents tally record hrecord habnormal hterminal ih =>
    rw [ih, knownParents_cons_some hrecord]
    by_cases hp : parent = p
    · subst hp
      simp only [Store.saddActiveChild, Function.update_self, Finset.mem_insert,
        List.mem_cons, true_or, true_and, isRunning, hrecord, Option.any_some, hterminal]
      tauto
    · simp [hp, Store.saddActiveChild]

@[simp] theorem missing_tallyParents :
    (tallyParents words child threshold parents tally).missingParent =
      (tally.missingParent ||
        parents.any fun parent => (tally.store.records parent).isNone) := by
  fun_induction tallyParents words child threshold parents tally with
  | case1 => simp
  | case2 parent parents tally hrecord => simp [hrecord]
  | case3 parent parents tally record hrecord habnormal vote ih => simp [ih, hrecord, vote]
  | case4 parent parents tally record hrecord habnormal hterminal ih
  | case5 parent parents tally record hrecord habnormal hterminal ih => simp [ih, hrecord]

theorem running_tallyParents :
    (tallyParents words child threshold parents tally).running =
      tally.running +
        (knownParents tally.store.records parents).countP
          (isRunning words tally.store.records) := by
  fun_induction tallyParents words child threshold parents tally with
  | case1 => simp [knownParents]
  | case2 parent parents tally hrecord => simp [knownParents_cons_none hrecord]
  | case3 parent parents tally record hrecord habnormal vote ih =>
    have hterminal := isTerminal_of_isAbnormal habnormal
    rw [ih, knownParents_cons_some hrecord]
    simp [vote, isRunning, hrecord, hterminal]
  | case4 parent parents tally record hrecord habnormal hterminal ih =>
    rw [ih, knownParents_cons_some hrecord]
    simp [isRunning, hrecord, hterminal]
  | case5 parent parents tally record hrecord habnormal hterminal ih =>
    rw [ih, knownParents_cons_some hrecord, List.countP_cons]
    simp [isRunning, hrecord, hterminal]
    omega

theorem reached_tallyParents :
    (tallyParents words child threshold parents tally).reachedCancel =
      (tally.reachedCancel ||
        ((knownParents tally.store.records parents).any
          (isAbnormal words tally.store.records) &&
        decide (threshold ≤ ((tallyParents words child threshold parents tally).store.cancelVotes
          child).card))) := by
  fun_induction tallyParents words child threshold parents tally with
  | case1 => simp [knownParents]
  | case2 parent parents tally hrecord => simp [knownParents_cons_none hrecord]
  | case3 parent parents tally record hrecord habnormal vote ih =>
    have hhead : isAbnormal words tally.store.records parent = true := by
      simp [isAbnormal, hrecord, habnormal]
    have hvote : vote.1 = decide (threshold ≤ (vote.2.cancelVotes child).card) := by
      simp [vote, Store.voteAndCheckThreshold]
    rw [ih, knownParents_cons_some hrecord, List.any_cons, hhead, Bool.true_or, Bool.true_and,
      votes_tallyParents]
    change ((tally.reachedCancel || vote.1) ||
        ((knownParents tally.store.records parents).any (isAbnormal words tally.store.records) &&
          decide (threshold ≤ (vote.2.cancelVotes child ∪ _).card))) =
      (tally.reachedCancel || decide (threshold ≤ (vote.2.cancelVotes child ∪ _).card))
    cases hrest : (knownParents tally.store.records parents).any
        (isAbnormal words tally.store.records) with
    | false =>
      -- the vote just cast is the last one
      have hnone : (knownParents tally.store.records parents).filter
          (isAbnormal words tally.store.records) = [] := by
        simpa [List.filter_eq_nil_iff] using hrest
      have hrecords : vote.2.records = tally.store.records := rfl
      simp only [hrecords, hnone, hvote, List.toFinset_nil, Finset.union_empty,
        Bool.false_and, Bool.or_false]
    | true =>
      rw [Bool.eq_iff_iff, hvote]
      simp only [Bool.or_eq_true, Bool.true_and, decide_eq_true_iff]
      constructor
      · rintro ((h | h) | h)
        · exact Or.inl h
        · exact Or.inr (h.trans (Finset.card_le_card Finset.subset_union_left))
        · exact Or.inr h
      · rintro (h | h)
        · exact Or.inl (Or.inl h)
        · exact Or.inr h
  | case4 parent parents tally record hrecord habnormal hterminal ih
  | case5 parent parents tally record hrecord habnormal hterminal ih =>
    rw [ih, knownParents_cons_some hrecord]
    simp [isAbnormal, hrecord, habnormal]

/-! ## One round -/

variable {stats : Stats} {acc : Store × Stats}

@[simp] theorem childKeys_settleCancel :
    (settleCancel lifecycle child reached s stats).1.childKeys other = s.childKeys other := by
  unfold settleCancel
  split
  · split <;> rfl
  · rfl

theorem store_settleCancel_none :
    (settleCancel none child reached s stats).1 = s := by
  unfold settleCancel
  split <;> rfl

theorem isSome_settleCancel :
    ((settleCancel lifecycle child reached s stats).1.records task).isSome =
      (s.records task).isSome := by
  unfold settleCancel
  split
  · split
    · rfl
    next lifecycle => exact lifecycle.exists_iff child s.records task
  · rfl

def roundTally (words : Vocabulary) (edges : List DependencyEdge) (s : Store) (child : String) :
    Tally :=
  tallyParents words child (parentsOf edges child).length (parentsOf edges child)
    ⟨0, false, false, s⟩

theorem rebuildChild_skipped (hrecord : acc.1.records child = none) :
    rebuildChild words lifecycle edges acc child =
      (acc.1, { acc.2 with skipped := acc.2.skipped + 1 }) := by
  simp [rebuildChild, hrecord]

theorem rebuildChild_missing (hrecord : (acc.1.records child).isSome = true)
    (hmissing : ∃ parent ∈ parentsOf edges child, acc.1.records parent = none) :
    rebuildChild words lifecycle edges acc child =
      ((roundTally words edges acc.1 child).store,
        { acc.2 with skippedChildren := acc.2.skippedChildren ++ [child] }) := by
  obtain ⟨record, hrecord⟩ := Option.isSome_iff_exists.mp hrecord
  have hflag : (roundTally words edges acc.1 child).missingParent = true := by
    simpa [roundTally, Option.isNone_iff_eq_none] using hmissing
  simp only [rebuildChild, hrecord]
  exact if_pos hflag

theorem rebuildChild_rebuilt (hrecord : (acc.1.records child).isSome = true)
    (hparents : ∀ parent ∈ parentsOf edges child, (acc.1.records parent).isSome = true) :
    rebuildChild words lifecycle edges acc child =
      settleCancel lifecycle child (roundTally words edges acc.1 child).reachedCancel
        ((roundTally words edges acc.1 child).store.setRemainingDeps child
          (roundTally words edges acc.1 child).running)
        { acc.2 with rebuilt := acc.2.rebuilt + 1 } := by
  obtain ⟨record, hrecord⟩ := Option.isSome_iff_exists.mp hrecord
  have hflag : (roundTally words edges acc.1 child).missingParent = false := by
    simpa [roundTally, Option.isSome_iff_ne_none] using hparents
  simp only [rebuildChild, hrecord]
  exact if_neg (by rw [← roundTally, hflag]; simp)

theorem rebuildChild_cases (edges : List DependencyEdge) (s : Store) (child : String) :
    s.records child = none ∨
      (s.records child).isSome = true ∧
        ((∃ parent ∈ parentsOf edges child, s.records parent = none) ∨
          ∀ parent ∈ parentsOf edges child, (s.records parent).isSome = true) := by
  cases hrecord : s.records child with
  | none => exact Or.inl rfl
  | some record =>
    refine Or.inr ⟨rfl, ?_⟩
    by_cases hmissing : ∃ parent ∈ parentsOf edges child, s.records parent = none
    · exact Or.inl hmissing
    · refine Or.inr fun parent hp => Option.isSome_iff_ne_none.mpr fun hnone => ?_
      exact hmissing ⟨parent, hp, hnone⟩

theorem childKeys_roundTally (hother : other ≠ child) :
    (roundTally words edges s child).store.childKeys other = s.childKeys other := by
  obtain ⟨-, hremaining, hvotes⟩ := tallyParents_frame
  refine childKeys_eq_iff.mpr ⟨hvotes other hother, congrArg _ hremaining, fun parent => ?_⟩
  rw [roundTally, active_tallyParents]
  simp [hother]

theorem childKeys_rebuildChild (hother : other ≠ child) :
    (rebuildChild words lifecycle edges acc child).1.childKeys other =
      acc.1.childKeys other := by
  rcases rebuildChild_cases edges acc.1 child with hnone | ⟨hrecord, hmissing | hparents⟩
  · rw [rebuildChild_skipped hnone]
  · rw [rebuildChild_missing hrecord hmissing]
    exact childKeys_roundTally hother
  · rw [rebuildChild_rebuilt hrecord hparents, childKeys_settleCancel]
    have hset : ((roundTally words edges acc.1 child).store.setRemainingDeps child
        (roundTally words edges acc.1 child).running).childKeys other =
        (roundTally words edges acc.1 child).store.childKeys other :=
      childKeys_eq_iff.mpr ⟨rfl, AList.lookup_insert_ne hother, fun _ => Iff.rfl⟩
    exact hset.trans (childKeys_roundTally hother)

theorem isSome_rebuildChild :
    ((rebuildChild words lifecycle edges acc child).1.records task).isSome =
      (acc.1.records task).isSome := by
  rcases rebuildChild_cases edges acc.1 child with hnone | ⟨hrecord, hmissing | hparents⟩
  · rw [rebuildChild_skipped hnone]
  · rw [rebuildChild_missing hrecord hmissing, roundTally, records_tallyParents]
  · rw [rebuildChild_rebuilt hrecord hparents, isSome_settleCancel]
    simp [Store.setRemainingDeps, roundTally]

theorem records_rebuildChild :
    (rebuildChild words none edges acc child).1.records = acc.1.records := by
  rcases rebuildChild_cases edges acc.1 child with hnone | ⟨hrecord, hmissing | hparents⟩
  · rw [rebuildChild_skipped hnone]
  · rw [rebuildChild_missing hrecord hmissing, roundTally, records_tallyParents]
  · rw [rebuildChild_rebuilt hrecord hparents, store_settleCancel_none]
    simp [Store.setRemainingDeps, roundTally]

theorem pendingCancel_settleCancel :
    other ∈ (settleCancel none child reached s stats).2.pendingCancel ↔
      other ∈ stats.pendingCancel ∨ reached = true ∧ other = child := by
  unfold settleCancel
  cases reached <;> simp

theorem pendingCancel_rebuildChild (hother : other ≠ child) :
    other ∈ (rebuildChild words none edges acc child).2.pendingCancel ↔
      other ∈ acc.2.pendingCancel := by
  rcases rebuildChild_cases edges acc.1 child with hnone | ⟨hrecord, hmissing | hparents⟩
  · rw [rebuildChild_skipped hnone]
  · rw [rebuildChild_missing hrecord hmissing]
  · rw [rebuildChild_rebuilt hrecord hparents, pendingCancel_settleCancel]
    simp [hother]

/-! ## The whole run -/

variable {children : List String}

theorem foldl_keeps {β : Sort*} {F : Store × Stats → β}
    (h : ∀ acc, ∀ child ∈ children,
      F (rebuildChild words lifecycle edges acc child) = F acc) :
    F (children.foldl (rebuildChild words lifecycle edges) acc) = F acc := by
  induction children generalizing acc with
  | nil => rfl
  | cons child children ih =>
    rw [List.foldl_cons, ih fun acc c hc => h acc c (List.mem_cons_of_mem _ hc)]
    exact h acc child List.mem_cons_self

theorem childKeys_foldl (hother : other ∉ children) :
    (children.foldl (rebuildChild words lifecycle edges) acc).1.childKeys other =
      acc.1.childKeys other :=
  foldl_keeps (F := fun acc => acc.1.childKeys other) fun _ _ hc =>
    childKeys_rebuildChild fun heq => hother (heq ▸ hc)

theorem pendingCancel_foldl (hother : other ∉ children) :
    (other ∈ (children.foldl (rebuildChild words none edges) acc).2.pendingCancel) =
      (other ∈ acc.2.pendingCancel) :=
  foldl_keeps (F := fun acc => other ∈ acc.2.pendingCancel) fun _ _ hc =>
    propext (pendingCancel_rebuildChild fun heq => hother (heq ▸ hc))

def rebuiltBefore (words : Vocabulary) (lifecycle : Option Lifecycle)
    (edges : List DependencyEdge) (s : Store) (child : String) : Store × Stats :=
  ((childrenOf edges).takeWhile (· ≠ child)).foldl (rebuildChild words lifecycle edges) (s, {})

theorem mem_childrenOf_of_mem_parentsOf (h : parent ∈ parentsOf edges child) :
    child ∈ childrenOf edges := by
  obtain ⟨e, he, -⟩ := List.mem_map.mp h
  obtain ⟨hmem, hc⟩ := List.mem_filter.mp he
  rw [childrenOf, List.mem_eraseDups, List.mem_map]
  exact ⟨e, hmem, by simpa using hc⟩

theorem childrenOf_split (hchild : child ∈ childrenOf edges) :
    ∃ later, child ∉ (childrenOf edges).takeWhile (· ≠ child) ∧ child ∉ later ∧
      childrenOf edges = (childrenOf edges).takeWhile (· ≠ child) ++ child :: later := by
  obtain ⟨before, later, hsplit, hnot⟩ := List.eq_append_cons_of_mem hchild
  have hbefore : (childrenOf edges).takeWhile (· ≠ child) = before := by
    rw [hsplit, List.takeWhile_append_of_pos]
    · simp
    · intro c hc
      simpa using fun heq : c = child => hnot (heq ▸ hc)
  have hnodup := nodup_eraseDups (edges.map DependencyEdge.childId)
  rw [← childrenOf, hsplit] at hnodup
  refine ⟨later, hbefore ▸ hnot, ?_, hbefore ▸ hsplit⟩
  exact (List.nodup_cons.mp (List.nodup_append.mp hnodup).2.1).1

theorem rebuildDepCounters_split (words : Vocabulary) (lifecycle : Option Lifecycle) (s : Store)
    (hchild : child ∈ childrenOf edges) :
    ∃ later : List String, child ∉ later ∧ rebuildDepCounters words lifecycle edges s =
      later.foldl (rebuildChild words lifecycle edges)
        (rebuildChild words lifecycle edges (rebuiltBefore words lifecycle edges s child)
          child) := by
  obtain ⟨later, -, hnot, hsplit⟩ := childrenOf_split hchild
  refine ⟨later, hnot, ?_⟩
  rw [rebuildDepCounters, hsplit, List.foldl_append, List.foldl_cons]
  rfl

theorem childKeys_rebuildDepCounters (hchild : child ∈ childrenOf edges) :
    (rebuildDepCounters words lifecycle edges s).1.childKeys child =
      (rebuildChild words lifecycle edges (rebuiltBefore words lifecycle edges s child)
        child).1.childKeys child := by
  obtain ⟨later, hnot, heq⟩ := rebuildDepCounters_split words lifecycle s hchild
  rw [heq, childKeys_foldl hnot]

theorem childKeys_rebuiltBefore (hchild : child ∈ childrenOf edges) :
    (rebuiltBefore words lifecycle edges s child).1.childKeys child = s.childKeys child := by
  obtain ⟨later, hnot, -⟩ := childrenOf_split hchild
  exact childKeys_foldl hnot

theorem isSome_rebuiltBefore :
    ((rebuiltBefore words lifecycle edges s child).1.records task).isSome =
      (s.records task).isSome :=
  foldl_keeps (F := fun acc => (acc.1.records task).isSome) fun _ _ _ => isSome_rebuildChild

/-! ## Skipped children -/

theorem childKeys_roundTally_self :
    (roundTally words edges s child).store.childKeys child = s.childKeys child ↔
      ∀ parent ∈ knownParents s.records (parentsOf edges child),
        (isAbnormal words s.records parent = true → parent ∈ s.cancelVotes child) ∧
        (isRunning words s.records parent = true → child ∈ s.activeChildren parent) := by
  rw [childKeys_eq_iff, roundTally, votes_tallyParents, tallyParents_frame.2.1]
  simp only [active_tallyParents, true_and, Finset.union_eq_left, or_iff_left_iff_imp]
  constructor
  · rintro ⟨hvotes, hactive⟩ parent hp
    refine ⟨fun habnormal => hvotes ?_, fun hrunning => hactive parent ⟨hp, hrunning⟩⟩
    exact List.mem_toFinset.mpr (List.mem_filter.mpr ⟨hp, habnormal⟩)
  · intro h
    refine ⟨fun parent hp => ?_, fun parent hp => (h parent hp.1).2 hp.2⟩
    obtain ⟨hknown, habnormal⟩ := List.mem_filter.mp (List.mem_toFinset.mp hp)
    exact (h parent hknown).1 habnormal

theorem knownParents_congr {records' : String → Option Record}
    (h : ∀ task, (records' task).isSome = (records task).isSome) (parents : List String) :
    knownParents records' parents = knownParents records parents := by
  simp [knownParents, h]

/-- The rebuild keeps the keys of every child with a missing parent exactly when, for
each of them that has a record, what the parents before the first missing one call for
when the loop comes to it is already there. -/
theorem rebuild_skips_whole_iff (words : Vocabulary) (lifecycle : Option Lifecycle)
    (edges : List DependencyEdge) (s : Store) :
    (∀ child, (∃ parent ∈ parentsOf edges child, s.records parent = none) →
      (rebuildDepCounters words lifecycle edges s).1.childKeys child = s.childKeys child) ↔
    ∀ child, (∃ parent ∈ parentsOf edges child, s.records parent = none) →
      (s.records child).isSome = true →
      ∀ parent ∈ knownParents s.records (parentsOf edges child),
        (isAbnormal words (rebuiltBefore words lifecycle edges s child).1.records parent = true →
          parent ∈ s.cancelVotes child) ∧
        (isRunning words (rebuiltBefore words lifecycle edges s child).1.records parent = true →
          child ∈ s.activeChildren parent) := by
  refine forall_congr' fun child => forall_congr' fun hmissing => ?_
  obtain ⟨parent, hp, hnone⟩ := hmissing
  have hchild := mem_childrenOf_of_mem_parentsOf hp
  have hexists : ∀ task, ((rebuiltBefore words lifecycle edges s child).1.records task).isSome =
      (s.records task).isSome := fun task => isSome_rebuiltBefore
  have hkeys : (rebuiltBefore words lifecycle edges s child).1.childKeys child =
      s.childKeys child := childKeys_rebuiltBefore hchild
  obtain ⟨hvotes, -, hactive⟩ := childKeys_eq_iff.mp hkeys
  rw [childKeys_rebuildDepCounters hchild, ← hkeys]
  cases hrecord : (s.records child).isSome with
  | false =>
    have hskipped : (rebuiltBefore words lifecycle edges s child).1.records child = none := by
      rw [← Option.isNone_iff_eq_none, ← Option.not_isSome, hexists, hrecord]
      rfl
    simp [rebuildChild_skipped hskipped]
  | true =>
    have hstill : (rebuiltBefore words lifecycle edges s child).1.records parent = none := by
      rw [← Option.isNone_iff_eq_none, ← Option.not_isSome, hexists, hnone]
      rfl
    rw [rebuildChild_missing ((hexists child).trans hrecord) ⟨parent, hp, hstill⟩,
      childKeys_roundTally_self, knownParents_congr hexists]
    simp only [hvotes, hactive, forall_true_left]

/-- The missing parent comes first. -/
theorem rebuild_skips_whole_first :
    (∀ child, (∃ parent ∈ parentsOf [⟨"c", "q"⟩, ⟨"c", "p"⟩] child,
        (Store.created ["c", "p"]).records parent = none) →
      (rebuildDepCounters {} none [⟨"c", "q"⟩, ⟨"c", "p"⟩]
        (Store.created ["c", "p"])).1.childKeys child =
          (Store.created ["c", "p"]).childKeys child) ∧
      (Store.created ["c", "p"]).records "q" = none := by
  refine ⟨(rebuild_skips_whole_iff {} none _ _).mpr ?_, by decide⟩
  rintro child ⟨missing, hmissing, -⟩ - parent hknown
  have hchild : child = "c" := by
    by_contra hne
    simp [parentsOf, Ne.symm hne] at hmissing
  subst hchild
  exact absurd hknown (by decide +revert)

def halfLost : Store where
  records := fun task =>
    if task = "c" then some { status := "pending" }
    else if task = "p" then some { status := "failed" }
    else none
  activeChildren := fun _ => ∅
  remainingDeps := ∅
  cancelVotes := fun _ => ∅

/-- The parent before the missing one leaves its vote behind. -/
theorem vote_left_behind :
    (∃ parent ∈ parentsOf [⟨"c", "p"⟩, ⟨"c", "q"⟩] "c", halfLost.records parent = none) ∧
      (rebuildDepCounters {} none [⟨"c", "p"⟩, ⟨"c", "q"⟩] halfLost).1.childKeys "c" ≠
        halfLost.childKeys "c" := by
  refine ⟨by decide, fun h => ?_⟩
  have hvotes := (childKeys_eq_iff.mp h).1
  revert hvotes
  decide

def cancelling : Lifecycle where
  cancel child records := (false, fun task => (records task).map fun record =>
    if task = child then { record with status := "cancelled" } else record)
  exists_iff _ _ _ := Option.isSome_map

example : (rebuildDepCounters {} (some cancelling) [⟨"c", "p"⟩] halfLost).1.records "c" =
    some { status := "cancelled" } := by decide

/-! ## Rebuilt children -/

theorem knownParents_eq_self (h : ∀ parent ∈ parents, (records parent).isSome = true) :
    knownParents records parents = parents :=
  List.takeWhile_eq_self_iff.mpr h

theorem nodup_parentsOf (hedges : edges.Nodup) : (parentsOf edges child).Nodup := by
  refine List.Nodup.map_on ?_ (hedges.filter _)
  rintro ⟨c, p⟩ he ⟨c', p'⟩ he' (rfl : p = p')
  obtain rfl : c = child := by simpa using (List.mem_filter.mp he).2
  obtain rfl : c' = c := by simpa using (List.mem_filter.mp he').2
  rfl

theorem parentsOf_ne_nil (hchild : child ∈ childrenOf edges) : parentsOf edges child ≠ [] := by
  rw [childrenOf, List.mem_eraseDups, List.mem_map] at hchild
  obtain ⟨e, he, hc⟩ := hchild
  refine List.ne_nil_of_mem (a := e.parentId) ?_
  exact List.mem_map.mpr ⟨e, List.mem_filter.mpr ⟨he, by simpa using hc⟩, rfl⟩

section Rebuilt

variable (hparents : ∀ parent ∈ parentsOf edges child, (s.records parent).isSome = true)
include hparents

theorem votes_roundTally (hvotes : s.cancelVotes child = ∅) :
    (roundTally words edges s child).store.cancelVotes child =
      ((parentsOf edges child).filter (isAbnormal words s.records)).toFinset := by
  rw [roundTally, votes_tallyParents, hvotes, Finset.empty_union, knownParents_eq_self hparents]

theorem reached_roundTally (hedges : edges.Nodup) (hvotes : s.cancelVotes child = ∅)
    (hchild : child ∈ childrenOf edges) :
    (roundTally words edges s child).reachedCancel = true ↔
      ∀ parent ∈ parentsOf edges child, isAbnormal words s.records parent = true := by
  have hcard : ((roundTally words edges s child).store.cancelVotes child).card =
      (parentsOf edges child).countP (isAbnormal words s.records) := by
    rw [votes_roundTally hparents hvotes, List.toFinset_card_of_nodup
      ((nodup_parentsOf hedges).filter _), List.countP_eq_length_filter]
  have hreached : (roundTally words edges s child).reachedCancel =
      (false || ((knownParents s.records (parentsOf edges child)).any
          (isAbnormal words s.records) &&
        decide ((parentsOf edges child).length ≤
          ((roundTally words edges s child).store.cancelVotes child).card))) :=
    reached_tallyParents
  rw [hreached, hcard, knownParents_eq_self hparents, Bool.false_or, Bool.and_eq_true,
    List.any_eq_true, decide_eq_true_iff, ← List.countP_eq_length]
  constructor
  · rintro ⟨-, hle⟩
    exact le_antisymm List.countP_le_length hle
  · intro hall
    obtain ⟨parent, hp⟩ := List.exists_mem_of_ne_nil _ (parentsOf_ne_nil hchild)
    exact ⟨⟨parent, hp, List.countP_eq_length.mp hall parent hp⟩, hall.ge⟩

end Rebuilt

/-- After the rebuild of a store without votes, a child whose own record and parents'
records exist waits for its running parents, carries the votes of the abnormal ones and
is reported when there are no others. -/
theorem rebuild_exact (words : Vocabulary) (edges : List DependencyEdge) (s : Store)
    (hedges : edges.Nodup) (hvotes : ∀ task, s.cancelVotes task = ∅) (child : String)
    (hchild : child ∈ childrenOf edges) (hrecord : (s.records child).isSome = true)
    (hparents : ∀ parent ∈ parentsOf edges child, (s.records parent).isSome = true) :
    (rebuildDepCounters words none edges s).1.remainingDeps.lookup child =
        some ((parentsOf edges child).countP (isRunning words s.records) : Int) ∧
      (rebuildDepCounters words none edges s).1.cancelVotes child =
        ((parentsOf edges child).filter (isAbnormal words s.records)).toFinset ∧
      (∀ parent ∈ parentsOf edges child, isRunning words s.records parent = true →
        child ∈ (rebuildDepCounters words none edges s).1.activeChildren parent) ∧
      (child ∈ (rebuildDepCounters words none edges s).2.pendingCancel ↔
        ∀ parent ∈ parentsOf edges child, isAbnormal words s.records parent = true) := by
  obtain ⟨later, hlater, hsplit⟩ := rebuildDepCounters_split words none s hchild
  obtain ⟨-, hbefore, -⟩ := childrenOf_split hchild
  have hpending : child ∉ (rebuiltBefore words none edges s child).2.pendingCancel := by
    rw [rebuiltBefore, pendingCancel_foldl hbefore]
    exact List.not_mem_nil
  have hnow : (rebuiltBefore words none edges s child).1.records = s.records :=
    foldl_keeps (F := fun acc => acc.1.records) fun _ _ _ => records_rebuildChild
  have hnone : (rebuiltBefore words none edges s child).1.cancelVotes child = ∅ := by
    rw [(childKeys_eq_iff.mp (childKeys_rebuiltBefore hchild)).1, hvotes]
  have hkeys : (rebuildDepCounters words none edges s).1.childKeys child = _ :=
    childKeys_rebuildDepCounters hchild
  rw [← hnow] at hrecord hparents ⊢
  rw [rebuildChild_rebuilt hrecord hparents, store_settleCancel_none] at hkeys
  obtain ⟨hcast, hcounter, hactive⟩ := childKeys_eq_iff.mp hkeys
  refine ⟨?_, ?_, fun parent hp hrunning => ?_, ?_⟩
  · rw [hcounter, Store.setRemainingDeps, AList.lookup_insert, roundTally, running_tallyParents,
      knownParents_eq_self hparents, Nat.zero_add]
  · rw [hcast]
    exact votes_roundTally hparents hnone
  · refine (hactive parent).mpr (active_tallyParents.mpr (Or.inr ⟨rfl, ?_, hrunning⟩))
    rwa [knownParents_eq_self hparents]
  · rw [hsplit, pendingCancel_foldl hlater, rebuildChild_rebuilt hrecord hparents,
      pendingCancel_settleCancel, ← reached_roundTally hparents hedges hnone hchild]
    simp [hpending]

def family : List DependencyEdge :=
  [⟨"c", "p"⟩, ⟨"c", "q"⟩, ⟨"d", "p"⟩, ⟨"c", "r"⟩]

/-- Two failed parents, one of them shared, one that runs, and a stale counter. -/
def restarted : Store where
  records := fun task =>
    if task = "p" ∨ task = "r" then some { status := "failed" }
    else if task = "q" then some { status := "running" }
    else if task = "c" ∨ task = "d" then some { status := "pending" }
    else none
  activeChildren := fun task => if task = "p" then {"d"} else ∅
  remainingDeps := (∅ : AList _).insert "c" 7
  cancelVotes := fun _ => ∅

theorem rebuild_exact_shared :
    let after := rebuildDepCounters {} none family restarted
    (after.1.remainingDeps.lookup "c" = some 1 ∧ after.1.cancelVotes "c" = {"p", "r"} ∧
        "c" ∈ after.1.activeChildren "q" ∧ "c" ∉ after.2.pendingCancel) ∧
      after.1.remainingDeps.lookup "d" = some 0 ∧ after.1.cancelVotes "d" = {"p"} ∧
        "d" ∈ after.2.pendingCancel := by
  obtain ⟨hremaining, hcast, hactive, hpending⟩ := rebuild_exact {} family restarted (by decide)
    (fun _ => rfl) "c" (by decide) (by decide) (by decide)
  obtain ⟨hremaining', hcast', -, hpending'⟩ := rebuild_exact {} family restarted (by decide)
    (fun _ => rfl) "d" (by decide) (by decide) (by decide)
  refine ⟨⟨hremaining, hcast.trans (by decide), hactive "q" (by decide) (by decide), ?_⟩,
    hremaining', hcast'.trans (by decide), hpending'.mpr (by decide)⟩
  exact fun h => absurd (hpending.mp h) (by decide)

end Orditect.Governance.Proofs
