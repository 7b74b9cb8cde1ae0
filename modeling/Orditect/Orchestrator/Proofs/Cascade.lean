import Orditect.Executor.Proofs.Session
import Orditect.Orchestrator.Cascade
import Orditect.TaskStore.Proofs.Lineage
/-!
# Whom a cascade reaches

A cascade cancels every open task it meets, and does not look below a task that has ended.  So
nothing stays open below the root if nothing open is right below a task that has ended before.
-/

namespace Orditect.Orchestrator.Proofs

open Support.Descent Support.LuaJson Support.SortedSet
open Executor (Config TaskStatus status updateTask)
open Executor.Proofs (Vocabulary ended updateTask_spec)
open Executor.Session (Handle)
open TaskStore (Store field getTask listChildren)

variable {ν : Type}

/-! ## One task -/

structure Touches (t : String) (s s' : Store ν) : Prop where
  now : s'.now = s.now
  children : s'.childrenIndex = s.childrenIndex
  others : ∀ x, x ≠ t → s'.records x = s.records x

variable {s' : Store ν} {t a b : String} {n : Nat} {d : String} {s : Store ν} {cfg : Config}
  {w : TaskStatus}

theorem Touches.trans {s'' : Store ν} (h : Touches t s s') (h' : Touches t s' s'') :
    Touches t s s'' :=
  ⟨h'.now.trans h.now, h'.children.trans h.children,
    fun x hx => (h'.others x hx).trans (h.others x hx)⟩

variable {x root : String} {inner : TaskStatus}

theorem Touches.status_ne (h : Touches t s s') (hx : x ≠ t) (cfg : Config) :
    status (forTask cfg x) s' = status (forTask cfg x) s := by
  unfold status
  show TaskStatus.ofField (field s' x "status") = TaskStatus.ofField (field s x "status")
  rw [TaskStore.Proofs.field_congr (h.others x hx)]

theorem status_of_field (h : field s cfg.taskId "status" = some (.str w.value)) :
    status cfg s = some w := by
  unfold status
  rw [h, Executor.Proofs.TaskStatus.ofField_value]

section

variable [DecidableEq ν] [LuaNumber ν]

theorem touches_updateTask (cfg : Config) (updates : List (String × Json ν)) (s : Store ν) :
    Touches cfg.taskId s (updateTask cfg updates s).2 := by
  constructor
  · exact TaskStore.Proofs.now_perform cfg.storage s (.updateTask cfg.taskId _ none)
  · exact TaskStore.Proofs.childrenIndex_taskUpdate cfg.storage _ _ cfg.taskId s
  · intro x hx
    exact Executor.Proofs.records_updateTask_ne cfg updates hx s

variable {cancels : Bool} {h h' : Handle}

theorem alone_of_next (hnext : h.next cfg (Executor.Session.start s .empty) =
    some (h', s', cancels))
    (n : Nat) :
    alone cfg (n + 1) h s = alone cfg n h' s' := by
  rw [alone, hnext]

theorem alone_returned (cfg : Config) (n : Nat) (force ok : Bool) (s : Store ν) :
    alone cfg n (.returned force ok) s = (.returned force ok, s) := by
  cases n <;> rfl

theorem awaits_next {state : Executor.Session.State ν}
    (hnext : h.next cfg state = some (h', s', cancels)) :
    awaits h' < awaits h := by
  cases h <;> simp only [Handle.next] at hnext <;> (try split at hnext) <;>
    simp only [Option.some.injEq, Prod.mk.injEq, reduceCtorEq] at hnext <;>
    obtain ⟨rfl, -, -⟩ := hnext <;> (try split) <;> simp [awaits]

theorem alone_ended (h : Handle) (s : Store ν) :
    ((alone cfg (awaits h) h s).1.next cfg
      (Executor.Session.start (alone cfg (awaits h) h s).2 .empty)) = none := by
  generalize hn : awaits h = n
  have hle : awaits h ≤ n := hn.le
  clear hn
  induction n generalizing h s with
  | zero => cases h <;> simp_all [awaits, alone, Handle.next]
  | succ n ih =>
    cases hnext : h.next cfg (Executor.Session.start s .empty) with
    | none => rw [alone, hnext]; exact hnext
    | some result =>
      obtain ⟨h', s', cancels⟩ := result
      have hlt := awaits_next hnext
      rw [alone_of_next hnext]
      exact ih h' s' (by omega)

theorem cancelSingle_ended (force : Bool) (hw : status (forTask cfg t) s = some w)
    (hterm : w.isTerminal = true) : cancelSingle cfg force t s = (some false, s) := by
  have hfield := Executor.Proofs.TaskStatus.eq_of_ofField hw
  obtain ⟨record, hrecord, -⟩ := Option.bind_eq_some_iff.mp hfield
  have hread : (Handle.read force).next (forTask cfg t) (Executor.Session.start s .empty) =
      some (.returned force false, s, false) := by
    simp [Handle.next, Executor.Session.start, hrecord, hw, hterm]
  unfold cancelSingle
  rw [awaits, alone_of_next hread, alone_returned]

theorem alone_transition (hv : Vocabulary cfg) (force : Bool)
    (hfield : field s cfg.taskId "status" = some (.str w.value)) (hopen : w.isTerminal = false)
    (n : Nat) :
    ∃ s', alone cfg (n + 2) (.transitionRead force) s = (.returned force true, s') ∧
      status cfg s' = some .cancelled ∧ Touches cfg.taskId s s' := by
  obtain ⟨record, hrecord, -⟩ := Option.bind_eq_some_iff.mp hfield
  have hread : (Handle.transitionRead force).next cfg (Executor.Session.start s .empty) =
      some (.transitionWrite force, s, false) := by
    simp only [Handle.next, Executor.Session.start, hrecord, status_of_field hfield,
      Executor.Proofs.TaskStatus.cancelled_allowed, hopen]
    rfl
  have htouches := touches_updateTask cfg [("status", .str TaskStatus.cancelled.value)] s
  have hword : List.lookup "status" [("status", (.str TaskStatus.cancelled.value : Json ν))] =
      Option.map (fun w => .str w.value) (some TaskStatus.cancelled) := rfl
  rcases updateTask_spec hv hfield hword with ⟨-, hterm, -⟩ | ⟨-, s', heq, hwritten⟩
  · simp [hopen] at hterm
  · have hwrite : (Handle.transitionWrite force).next cfg (Executor.Session.start s .empty) =
        some (.returned force true, s', false) := by
      simp [Handle.next, Executor.Session.start, heq]
    rw [heq] at htouches
    refine ⟨s', ?_, status_of_field (hwritten "status"), htouches⟩
    rw [alone_of_next hread, alone_of_next hwrite, alone_returned]

theorem cancelSingle_open (hv : Vocabulary cfg) (force : Bool)
    (hw : status (forTask cfg t) s = some w) (hopen : w.isTerminal = false) :
    ∃ s', cancelSingle cfg force t s = (some true, s') ∧
      status (forTask cfg t) s' = some .cancelled ∧ Touches t s s' := by
  have hv' : Vocabulary (forTask cfg t) := ⟨hv.terminal, hv.lifetime⟩
  have hfield := Executor.Proofs.TaskStatus.eq_of_ofField hw
  obtain ⟨record, hrecord, -⟩ := Option.bind_eq_some_iff.mp hfield
  have hread : (Handle.read force).next (forTask cfg t) (Executor.Session.start s .empty) =
      some (.requestRead force, s, false) := by
    simp [Handle.next, Executor.Session.start, hrecord, hw, hopen]
  have hfind : (Handle.requestRead force).next (forTask cfg t) (Executor.Session.start s .empty) =
      some (.requestWrite force, s, false) := by
    simp [Handle.next, Executor.Session.start, hrecord]
  have hrequest := touches_updateTask (forTask cfg t) [("cancel_requested", .bool true)] s
  have hword : List.lookup "status" [("cancel_requested", (.bool true : Json ν))] =
      Option.map (fun w => .str w.value) (none : Option TaskStatus) := rfl
  rcases updateTask_spec hv' hfield hword with ⟨hne, -⟩ | ⟨-, s₁, heq, hfield₁⟩
  · exact absurd rfl hne
  · rw [heq] at hrequest
    have hstatus₁ : field s₁ (forTask cfg t).taskId "status" = some (.str w.value) := by
      rw [hfield₁, hfield]
      rfl
    have hwrite : (Handle.requestWrite force).next (forTask cfg t)
        (Executor.Session.start s .empty) =
        some (if force then .forceCancel else .transitionRead false, s₁, false) := by
      simp [Handle.next, Executor.Session.start, heq]
    have hforce : Handle.forceCancel.next (forTask cfg t) (Executor.Session.start s₁ .empty) =
        some (.transitionRead true, s₁, false) := rfl
    obtain ⟨s', htransition, hcancelled, htouches⟩ : ∃ s',
        alone (forTask cfg t) 4 (if force then .forceCancel else .transitionRead false) s₁ =
          (.returned force true, s') ∧
        status (forTask cfg t) s' = some .cancelled ∧ Touches t s₁ s' := by
      cases force with
      | false => exact alone_transition hv' false hstatus₁ hopen 2
      | true =>
        rw [if_pos rfl, alone_of_next hforce]
        exact alone_transition hv' true hstatus₁ hopen 1
    refine ⟨s', ?_, hcancelled, hrequest.trans htouches⟩
    unfold cancelSingle
    rw [awaits, alone_of_next hread, alone_of_next hfind, alone_of_next hwrite, htransition]

end

/-! ## The tree -/

def child (s : Store ν) (a b : String) : Prop := b ∈ (listChildren a s).1

instance (s : Store ν) (a b : String) : Decidable (child s a b) :=
  inferInstanceAs (Decidable (b ∈ (listChildren a s).1))

theorem child_of_touches (h : Touches t s s') :
    child s' a b ↔ child s a b := by
  unfold child
  rw [TaskStore.Proofs.mem_listChildren, TaskStore.Proofs.mem_listChildren, h.now, h.children]

theorem child_listChildren {p : String} :
    child (listChildren p s).2 a b ↔ child s a b := by
  unfold child
  rw [TaskStore.Proofs.mem_listChildren, TaskStore.Proofs.mem_listChildren]
  show (∃ score, find b ((TaskStore.cleanUpChildren p s.now s).childrenIndex a) = some score ∧
    s.now < score) ↔ _
  by_cases ha : a = p
  · subst ha
    rw [TaskStore.Proofs.childrenIndex_cleanUp_self]
    constructor
    · rintro ⟨score, hfind, hlt⟩
      exact ⟨score, (find_remRangeByScore.mp hfind).1, hlt⟩
    · rintro ⟨score, hfind, hlt⟩
      exact ⟨score, find_remRangeByScore.mpr ⟨hfind, by omega⟩, hlt⟩
  · rw [TaskStore.Proofs.childrenIndex_cleanUp_ne ha]

/-- The tasks below `root` form a tree of height at most 32, and each has one of the six
statuses. -/
structure Lineage (cfg : Config) (root : String) (s : Store ν) : Prop where
  height : ∀ n d, Descends (child s) n root d → n ≤ maxCascadeDepth
  parent : ∀ m n a b c, Descends (child s) m root a → Descends (child s) n root b →
    child s a c → child s b c → a = b
  statuses : ∀ n d, Descends (child s) n root d → ∃ w, status (forTask cfg d) s = some w

/-- What a cascade that began in `s₀` leaves alone. -/
structure Stable (cfg : Config) (root : String) (s₀ s : Store ν) : Prop where
  children : ∀ a b, child s a b ↔ child s₀ a b
  statuses : ∀ n d, Descends (child s₀) n root d → ∃ w, status (forTask cfg d) s = some w

theorem ended_of_status (h : status cfg s = some w) :
    ended cfg s = w.isTerminal := by
  simp [ended, h]

theorem Touches.ended_ne (h : Touches t s s') (hx : x ≠ t) (cfg : Config) :
    ended (forTask cfg x) s' = ended (forTask cfg x) s := by
  unfold ended
  rw [h.status_ne hx]

theorem Stable.start (h : Lineage cfg root s) :
    Stable cfg root s s :=
  ⟨fun _ _ => Iff.rfl, h.statuses⟩

theorem Stable.touch {s₀ : Store ν} (h : Stable cfg root s₀ s) (htouches : Touches t s s')
    (hw : status (forTask cfg t) s' = some w) :
    Stable cfg root s₀ s' := by
  constructor
  · intro a b
    rw [child_of_touches htouches]
    exact h.children a b
  · intro n d hd
    by_cases heq : d = t
    · subst heq
      exact ⟨w, hw⟩
    · rw [htouches.status_ne heq]
      exact h.statuses n d hd

section

variable [DecidableEq ν] [LuaNumber ν] {root : String} {s₀ : Store ν}

theorem cascadeChild_spec (hv : Vocabulary cfg) (force : Bool) (hI : Stable cfg root s₀ s)
    (ht : Descends (child s₀) n root t) :
    (ended (forTask cfg t) s = true ∧ cascadeChild cfg force t s = (s, false)) ∨
      (ended (forTask cfg t) s = false ∧ ∃ s', cascadeChild cfg force t s = (s', true) ∧
        ended (forTask cfg t) s' = true ∧ Touches t s s' ∧ Stable cfg root s₀ s') := by
  obtain ⟨w, hw⟩ := hI.statuses n t ht
  rw [ended_of_status hw]
  unfold cascadeChild
  rw [hw]
  cases hterm : w.isTerminal with
  | true => exact Or.inl ⟨rfl, by simp [hterm]⟩
  | false =>
    obtain ⟨s', hcancel, hstatus, htouches⟩ := cancelSingle_open hv force hw hterm
    exact Or.inr ⟨rfl, s', by simp [hterm, hcancel], ended_of_status hstatus, htouches,
      hI.touch htouches hstatus⟩

theorem settling_cascade (hv : Vocabulary cfg) (force : Bool) (root : String) (s₀ : Store ν) :
    Settling listChildren (cascadeChild cfg force) (child s₀)
      (fun s t => ended (forTask cfg t) s = true)
      (fun t => ∃ n, Descends (child s₀) n root t) (Stable cfg root s₀) where
  below := fun ⟨n, hd⟩ hab => ⟨n + 1, hd.snoc hab⟩
  children_mem := fun hI => hI.children _ _
  children_inv := fun hI => ⟨fun a b => child_listChildren.trans (hI.children a b), hI.statuses⟩
  children_settled := fun _ => Iff.rfl
  visit_inv := by
    rintro b s hI ⟨n, hb⟩
    rcases cascadeChild_spec hv force hI hb with ⟨-, heq⟩ | ⟨-, s', heq, -, -, hI'⟩
    · rwa [heq]
    · rwa [heq]
  visit_settles := by
    rintro b s hI ⟨n, hb⟩
    rcases cascadeChild_spec hv force hI hb with ⟨hended, heq⟩ | ⟨-, s', heq, hended, -⟩
    · rwa [heq]
    · rwa [heq]
  visit_keeps := by
    rintro b c s hI ⟨n, hb⟩ hc
    rcases cascadeChild_spec hv force hI hb with ⟨-, heq⟩ | ⟨-, s', heq, hended, htouches, -⟩
    · rwa [heq]
    · rw [heq]
      by_cases hcb : c = b
      · rwa [hcb]
      · rwa [htouches.ended_ne hcb]
  visit_only := by
    rintro b c s hI ⟨n, hb⟩ hcb hc
    rcases cascadeChild_spec hv force hI hb with ⟨-, heq⟩ | ⟨-, s', heq, -, htouches, -⟩
    · rwa [heq] at hc
    · rwa [heq, htouches.ended_ne hcb] at hc
  visit_go := by
    rintro b s hI ⟨n, hb⟩
    rcases cascadeChild_spec hv force hI hb with ⟨hended, heq⟩ | ⟨hopen, s', heq, -⟩
    · simp [heq, hended]
    · simp [heq, hopen]

/-- The tasks right below an ended task under `root` have ended. -/
def EndsBelow (cfg : Config) (root : String) (s : Store ν) : Prop :=
  ∀ n d c, Descends (child s) (n + 1) root d → ended (forTask cfg d) s = true → child s d c →
    ended (forTask cfg c) s = true

theorem cancelTree_of_open (hv : Vocabulary cfg) (force : Bool) (hlineage : Lineage cfg root s)
    (hok : (cancelTree cfg force root s).1 = some true) :
    ∃ s', Touches root s s' ∧ ended (forTask cfg root) s' = true ∧ Stable cfg root s s' ∧
      (cancelTree cfg force root s).2 = cascadeChildren cfg force 0 root s' := by
  obtain ⟨w, hw⟩ := hlineage.statuses 0 root (.refl root)
  unfold cancelTree at hok ⊢
  cases hterm : w.isTerminal with
  | true => simp [cancelSingle_ended force hw hterm] at hok
  | false =>
    obtain ⟨s', heq, hstatus, htouches⟩ := cancelSingle_open hv force hw hterm
    exact ⟨s', htouches, ended_of_status hstatus,
      (Stable.start hlineage).touch htouches hstatus, by rw [heq]⟩

theorem cancelTree_complete (hv : Vocabulary cfg) (force : Bool) (hlineage : Lineage cfg root s)
    (hends : EndsBelow cfg root s) (hok : (cancelTree cfg force root s).1 = some true)
    (hd : Descends (child s) n root d) :
    ended (forTask cfg d) (cancelTree cfg force root s).2 = true := by
  obtain ⟨s', htouches, hroot, hstable, heq⟩ := cancelTree_of_open hv force hlineage hok
  rw [heq]
  have hheight : ∀ c, ¬Descends (child s) (maxCascadeDepth + 1) root c := by
    intro c hc
    have hle := hlineage.height _ c hc
    omega
  apply descend_complete (settling_cascade hv force root s) hstable ⟨0, .refl root⟩ hheight hroot
    ?_ hd
  rintro x ⟨k, hx⟩ hne hxended b hxb
  rw [htouches.ended_ne hne] at hxended
  by_cases hb : b = root
  · rw [hb]
    exact hroot
  · rw [htouches.ended_ne hb]
    cases hx with
    | refl => exact absurd rfl hne
    | head hab hbc => exact hends _ x b (.head hab hbc) hxended hxb

theorem cancelTree_leaves (hv : Vocabulary cfg) (force : Bool) (hlineage : Lineage cfg root s)
    (hok : (cancelTree cfg force root s).1 = some true) {c : String}
    (hd : Descends (child s) (n + 1) root d) (hended : ended (forTask cfg d) s = true)
    (hc : child s d c) (hopen : ended (forTask cfg c) s ≠ true) :
    ended (forTask cfg c) (cancelTree cfg force root s).2 ≠ true := by
  obtain ⟨s', htouches, hroot, hstable, heq⟩ := cancelTree_of_open hv force hlineage hok
  rw [heq]
  have hdroot : d ≠ root := hd.ne_of_bounded hlineage.height
  have hcroot : c ≠ root := (hd.snoc hc).ne_of_bounded hlineage.height
  rw [← htouches.ended_ne hdroot] at hended
  rw [← htouches.ended_ne hcroot] at hopen
  refine (descend_leaves (settling_cascade hv force root s) maxCascadeDepth ?_ hstable
    ⟨0, .refl root⟩ hdroot.symm hended hopen).2.2
  rintro x ⟨k, hx⟩ hxc
  exact hlineage.parent k (n + 1) x d c hx hd hxc hc

theorem cancelTree_complete_iff (hv : Vocabulary cfg) (force : Bool)
    (hlineage : Lineage cfg root s) (hok : (cancelTree cfg force root s).1 = some true) :
    (∀ n d, Descends (child s) (n + 1) root d →
      ended (forTask cfg d) (cancelTree cfg force root s).2 = true) ↔ EndsBelow cfg root s := by
  constructor
  · intro hall n d c hd hended hc
    by_contra hopen
    exact cancelTree_leaves hv force hlineage hok hd hended hc hopen (hall (n + 1) c (hd.snoc hc))
  · intro hends n d hd
    exact cancelTree_complete hv force hlineage hends hok hd

/-- A cancellation or termination that returns `True` leaves every task below its root ended
exactly if whatever was right below an ended task had ended too. -/
theorem cascade_reaches_all (cfg : Config) (hv : Vocabulary cfg) (root : String) (s : Store ν)
    (hlineage : Lineage cfg root s) :
    ((cancel cfg root s).1 = some true →
      ((∀ n d, Descends (child s) (n + 1) root d →
        ended (forTask cfg d) (cancel cfg root s).2 = true) ↔ EndsBelow cfg root s)) ∧
    ((terminate cfg root s).1 = some true →
      ((∀ n d, Descends (child s) (n + 1) root d →
        ended (forTask cfg d) (terminate cfg root s).2 = true) ↔ EndsBelow cfg root s)) :=
  ⟨cancelTree_complete_iff hv false hlineage, cancelTree_complete_iff hv true hlineage⟩

end

/-! ## A task, its child and its grandchild -/

def family (inner : TaskStatus) : Store Int :=
  let s : Store Int := ⟨0, fun _ => none, fun _ => none, fun _ => none⟩
  let add (taskId status : String) (parent : Option String) (s : Store Int) : Store Int :=
    (TaskStore.taskInit (TaskStore.initialData "2026-01-01T00:00:00+00:00" status parent) 604800
      taskId true status (parent.getD "") ("exec-" ++ taskId) s).2
  let s := add "mid" inner.value (some "top") (add "top" "running" none s)
  add "leaf" "running" (some "mid") s

theorem child_family (h : child (family inner) a b) :
    (a = "top" ∧ b = "mid") ∨ (a = "mid" ∧ b = "leaf") := by
  unfold child at h
  by_cases htop : a = "top"
  · subst htop
    have hlist : (listChildren "top" (family inner)).1 = ["mid"] := by cases inner <;> decide
    rw [hlist, List.mem_singleton] at h
    exact Or.inl ⟨rfl, h⟩
  · by_cases hmid : a = "mid"
    · subst hmid
      have hlist : (listChildren "mid" (family inner)).1 = ["leaf"] := by cases inner <;> decide
      rw [hlist, List.mem_singleton] at h
      exact Or.inr ⟨rfl, h⟩
    · obtain ⟨score, hfind, -⟩ := TaskStore.Proofs.mem_listChildren.mp h
      have hnone : (family inner).childrenIndex a = none := by
        cases inner <;> exact
          (Function.update_of_ne hmid _ _).trans (Function.update_of_ne htop _ _)
      simp [hnone] at hfind

theorem descends_family (h : Descends (child (family inner)) n "top" d) :
    (n = 0 ∧ d = "top") ∨ (n = 1 ∧ d = "mid") ∨ (n = 2 ∧ d = "leaf") := by
  cases h with
  | refl => exact Or.inl ⟨rfl, rfl⟩
  | head hmid h =>
    obtain rfl := by simpa using child_family hmid
    cases h with
    | refl => exact Or.inr (Or.inl ⟨rfl, rfl⟩)
    | head hleaf h =>
      obtain rfl := by simpa using child_family hleaf
      cases h with
      | refl => exact Or.inr (Or.inr ⟨rfl, rfl⟩)
      | head hnone => simpa using child_family hnone

theorem leaf_family (inner : TaskStatus) : Descends (child (family inner)) 2 "top" "leaf" := by
  have htop : child (family inner) "top" "mid" := by cases inner <;> decide
  have hmid : child (family inner) "mid" "leaf" := by cases inner <;> decide
  exact .head htop (.head hmid (.refl "leaf"))

theorem lineage_family (inner : TaskStatus) :
    Lineage Executor.Proofs.plain "top" (family inner) := by
  constructor
  · intro n d hd
    show n ≤ 32
    have hn := descends_family hd
    omega
  · intro _ _ a b c _ _ ha hb
    rcases child_family ha with ⟨rfl, rfl⟩ | ⟨rfl, rfl⟩
    · exact (by simpa using child_family hb : b = "top").symm
    · exact (by simpa using child_family hb : b = "mid").symm
  · intro n d hd
    rcases descends_family hd with ⟨-, rfl⟩ | ⟨-, rfl⟩ | ⟨-, rfl⟩
    · exact ⟨.running, by cases inner <;> decide⟩
    · exact ⟨inner, by cases inner <;> decide⟩
    · exact ⟨.running, by cases inner <;> decide⟩

theorem endsBelow_family : EndsBelow Executor.Proofs.plain "top" (family .running) := by
  intro n d c hd hended
  rcases descends_family hd with ⟨-, rfl⟩ | ⟨-, rfl⟩ | ⟨-, rfl⟩
  all_goals exact absurd hended (by decide)

theorem cascade_reaches_all_running :
    (cancel Executor.Proofs.plain "top" (family .running)).1 = some true ∧
      ended (forTask Executor.Proofs.plain "leaf")
        (cancel Executor.Proofs.plain "top" (family .running)).2 = true := by
  have hok : (cancel Executor.Proofs.plain "top" (family .running)).1 = some true := by decide
  exact ⟨hok, ((cascade_reaches_all Executor.Proofs.plain
    (Executor.Proofs.vocabulary_defaultStorage rfl) "top" (family .running)
    (lineage_family .running)).1 hok).mpr endsBelow_family 1 "leaf" (leaf_family .running)⟩

/-- The child has succeeded, so the cascade does not look below it. -/
theorem cascade_stops_at_ended :
    Lineage Executor.Proofs.plain "top" (family .succeeded) ∧
      Descends (child (family .succeeded)) 2 "top" "leaf" ∧
      (cancel Executor.Proofs.plain "top" (family .succeeded)).1 = some true ∧
      status (forTask Executor.Proofs.plain "leaf")
        (cancel Executor.Proofs.plain "top" (family .succeeded)).2 = some .running ∧
      (terminate Executor.Proofs.plain "top" (family .succeeded)).1 = some true ∧
      status (forTask Executor.Proofs.plain "leaf")
        (terminate Executor.Proofs.plain "top" (family .succeeded)).2 = some .running :=
  ⟨lineage_family .succeeded, leaf_family .succeeded, by decide, by decide, by decide, by decide⟩

end Orditect.Orchestrator.Proofs
