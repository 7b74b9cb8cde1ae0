import Orditect.Support.Digraph
import Orditect.Governance.Tools
import Mathlib.Data.Prod.Lex
/-!
# The cycle scan finds a cycle exactly when there is one

The nodes in the stack are a path of the graph, and an edge back to one of them closes
it.  As long as nothing was reported, the visited nodes are closed under the edges and on
no cycle, and every parent of a node in the stack is still ahead in its iterator, visited,
or the node of the next frame up.
-/

namespace Orditect.Governance.Scan

def grey (scan : Scan) : List String := scan.stack.map Frame.node

def white (edges : List DependencyEdge) (scan : Scan) : Finset String :=
  (nodes edges).filter fun n => n ∉ scan.visited ∧ n ∉ scan.inStack

def ahead (scan : Scan) : Nat :=
  scan.roots.length + (scan.stack.flatMap fun f => f.node :: f.parentsIter).length

def variant (edges : List DependencyEdge) (scan : Scan) : ℕ ×ₗ ℕ :=
  toLex ((scan.white edges).card, scan.ahead)

end Orditect.Governance.Scan

namespace Orditect.Governance.Proofs

open Relation Support.PlainSet Support.Loop Support.Digraph

variable {edges : List DependencyEdge} {scan scan' : Scan}

def Edge (edges : List DependencyEdge) (child parent : String) : Prop :=
  ⟨child, parent⟩ ∈ edges

variable {child parent node : String} {fs : List Frame}

@[simp] theorem mem_parentsOf :
    parent ∈ parentsOf edges child ↔ Edge edges child parent := by
  constructor
  · intro h
    obtain ⟨⟨c, p⟩, he, rfl⟩ := List.mem_map.mp h
    obtain ⟨hmem, hc⟩ := List.mem_filter.mp he
    obtain rfl : c = child := by simpa using hc
    exact hmem
  · intro h
    exact List.mem_map.mpr ⟨⟨child, parent⟩, List.mem_filter.mpr ⟨h, by simp⟩, rfl⟩

theorem mem_nodes :
    node ∈ nodes edges ↔ ∃ e ∈ edges, node = e.childId ∨ node = e.parentId := by
  simp [nodes]

theorem Edge.child_mem (h : Edge edges child parent) :
    child ∈ nodes edges :=
  mem_nodes.mpr ⟨_, h, Or.inl rfl⟩

theorem Edge.parent_mem (h : Edge edges child parent) :
    parent ∈ nodes edges :=
  mem_nodes.mpr ⟨_, h, Or.inr rfl⟩

/-! ## The invariant of the search -/

/-- Every parent of a node in the stack is ahead in its iterator, visited, or the node of
the frame `above`. -/
def Explored (edges : List DependencyEdge) (visited : Finset String) :
    Option String → List Frame → Prop
  | _, [] => True
  | above, f :: fs =>
    (∀ parent, Edge edges f.node parent →
      parent ∈ f.parentsIter ∨ parent ∈ visited ∨ above = some parent) ∧
    Explored edges visited (some f.node) fs

theorem Explored.mono {visited visited' : Finset String} (hsub : visited ⊆ visited')
    {above : Option String} (h : Explored edges visited above fs) :
    Explored edges visited' above fs := by
  induction fs generalizing above with
  | nil => trivial
  | cons f fs ih =>
    refine ⟨fun parent hp => ?_, ih h.2⟩
    rcases h.1 parent hp with hiter | hv | habove
    · exact Or.inl hiter
    · exact Or.inr (Or.inl (hsub hv))
    · exact Or.inr (Or.inr habove)

theorem Explored.finish {visited : Finset String} (h : Explored edges visited (some node) fs) :
    Explored edges (insert node visited) none fs := by
  cases fs with
  | nil => trivial
  | cons f fs =>
    refine ⟨fun parent hp => ?_, h.2.mono (Finset.subset_insert node visited)⟩
    rcases h.1 parent hp with hiter | hv | habove
    · exact Or.inl hiter
    · exact Or.inr (Or.inl (Finset.mem_insert_of_mem hv))
    · obtain rfl := Option.some.inj habove
      exact Or.inr (Or.inl (Finset.mem_insert_self _ _))

structure Searching (edges : List DependencyEdge) (scan : Scan) : Prop where
  inStack_eq : scan.inStack = scan.grey.toFinset
  nodup : scan.grey.Nodup
  chain : scan.grey.reverse.IsChain (Edge edges)
  paths : ∀ f fs, (f :: fs) <:+ scan.stack → f.path = ((f :: fs).map Frame.node).reverse
  iters : ∀ f ∈ scan.stack, ∀ parent ∈ f.parentsIter, Edge edges f.node parent
  greyNodes : ∀ node ∈ scan.grey, node ∈ nodes edges
  notVisited : ∀ node ∈ scan.grey, node ∉ scan.visited
  rootNodes : ∀ root ∈ scan.roots, root ∈ nodes edges
  covered : ∀ node ∈ nodes edges,
    node ∈ scan.roots ∨ node ∈ scan.visited ∨ node ∈ scan.grey
  closedPaths : ∀ cycle ∈ scan.cycles, ClosedPath (Edge edges) cycle
  seen : scan.seenCycles.Nonempty → scan.cycles ≠ []

theorem searching_start (edges : List DependencyEdge) : Searching edges (Scan.start edges) where
  inStack_eq := rfl
  nodup := List.nodup_nil
  chain := List.IsChain.nil
  paths := fun f fs h => absurd (List.suffix_nil.mp h) (List.cons_ne_nil f fs)
  iters := fun _ h => absurd h (List.not_mem_nil)
  greyNodes := fun _ h => absurd h (List.not_mem_nil)
  notVisited := fun _ h => absurd h (List.not_mem_nil)
  rootNodes := fun _ h => mem_sortedMembers.mp h
  covered := fun _ h => Or.inl (mem_sortedMembers.mpr h)
  closedPaths := fun _ h => absurd h (List.not_mem_nil)
  seen := fun h => absurd h Finset.not_nonempty_empty

namespace Searching

theorem mem_inStack (h : Searching edges scan) :
    node ∈ scan.inStack ↔ node ∈ scan.grey := by
  rw [h.inStack_eq, List.mem_toFinset]

variable {f : Frame}

section

variable (h : Searching edges scan)
include h

theorem path_top (hstack : scan.stack = f :: fs) :
    f.path = scan.grey.reverse := by
  have hpath := h.paths f fs (hstack ▸ List.suffix_refl _)
  rw [Scan.grey, hstack]
  exact hpath

theorem mem_path (hstack : scan.stack = f :: fs) (hin : parent ∈ scan.inStack) :
    parent ∈ f.path := by
  rw [h.path_top hstack, List.mem_reverse]
  exact h.mem_inStack.mp hin

theorem closedPath (hstack : scan.stack = f :: fs) (hedge : Edge edges f.node parent)
    (hin : parent ∈ scan.inStack) :
    ClosedPath (Edge edges) (f.path.drop (f.path.idxOf parent) ++ [parent]) := by
  have hmem := h.mem_path hstack hin
  have hnodup := List.nodup_reverse.mpr h.nodup
  have hchain := h.chain
  rw [← h.path_top hstack] at hnodup hchain
  have hsplit : f.path = (fs.map Frame.node).reverse ++ [f.node] := by
    rw [h.path_top hstack, Scan.grey, hstack, List.map_cons, List.reverse_cons]
  rw [hsplit] at hmem hnodup hchain ⊢
  exact ClosedPath.of_back_edge hchain hnodup hmem hedge

theorem advance {path rest : List String}
    (hstack : scan.stack = ⟨node, path, parent :: rest⟩ :: fs) :
    Searching edges { scan with stack := ⟨node, path, rest⟩ :: fs } := by
  have hgrey : Scan.grey { scan with stack := ⟨node, path, rest⟩ :: fs } = scan.grey := by
    simp [Scan.grey, hstack]
  refine ⟨?_, ?_, ?_, ?_, ?_, ?_, ?_, h.rootNodes, ?_, h.closedPaths, h.seen⟩
  · rw [hgrey]; exact h.inStack_eq
  · rw [hgrey]; exact h.nodup
  · rw [hgrey]; exact h.chain
  · intro f gs hsuffix
    rcases List.suffix_cons_iff.mp hsuffix with heq | htail
    · obtain ⟨rfl, rfl⟩ := List.cons.inj heq
      exact h.paths ⟨node, path, parent :: rest⟩ gs (hstack ▸ List.suffix_refl _)
    · exact h.paths f gs (hstack ▸ htail.trans (List.suffix_cons _ _))
  · intro f hf p hp
    rcases List.mem_cons.mp hf with rfl | hf
    · exact h.iters ⟨node, path, parent :: rest⟩ (by simp [hstack]) p (List.mem_cons_of_mem _ hp)
    · exact h.iters f (by simp [hstack, hf]) p hp
  · rw [hgrey]; exact h.greyNodes
  · rw [hgrey]; exact h.notVisited
  · rw [hgrey]; exact h.covered

theorem push (hnode : node ∈ nodes edges) (hvisited : node ∉ scan.visited)
    (hgrey : node ∉ scan.grey) (hedge : ∀ top ∈ scan.grey.head?, Edge edges top node) :
    Searching edges (scan.push edges node (scan.grey.reverse ++ [node])) := by
  refine ⟨?_, ?_, ?_, ?_, ?_, ?_, ?_, h.rootNodes, ?_, h.closedPaths, h.seen⟩
  · simp [Scan.push, Scan.grey, h.inStack_eq]
  · exact List.nodup_cons.mpr ⟨hgrey, h.nodup⟩
  · change (node :: scan.grey).reverse.IsChain (Edge edges)
    rw [List.reverse_cons]
    refine List.isChain_append.mpr ⟨h.chain, List.isChain_singleton node, ?_⟩
    intro top htop target htarget
    rw [List.getLast?_reverse] at htop
    obtain rfl : node = target := by simpa using htarget
    exact hedge top htop
  · intro f fs hsuffix
    rcases List.suffix_cons_iff.mp hsuffix with heq | htail
    · obtain ⟨rfl, rfl⟩ := List.cons.inj heq
      simp [Scan.grey]
    · exact h.paths f fs htail
  · intro f hf p hp
    rcases List.mem_cons.mp hf with rfl | hf
    · exact mem_parentsOf.mp hp
    · exact h.iters f hf p hp
  · intro n hn
    rcases List.mem_cons.mp hn with rfl | hn
    · exact hnode
    · exact h.greyNodes n hn
  · intro n hn
    rcases List.mem_cons.mp hn with rfl | hn
    · exact hvisited
    · exact h.notVisited n hn
  · intro n hn
    rcases h.covered n hn with hr | hv | hg
    · exact Or.inl hr
    · exact Or.inr (Or.inl hv)
    · exact Or.inr (Or.inr (List.mem_cons_of_mem _ hg))

theorem pop {path : List String} (hstack : scan.stack = ⟨node, path, []⟩ :: fs) :
    Searching edges { scan with
      stack := fs
      inStack := scan.inStack.erase node
      visited := insert node scan.visited } := by
  have hgrey : scan.grey = node :: fs.map Frame.node := by simp [Scan.grey, hstack]
  have hnot : node ∉ fs.map Frame.node := (List.nodup_cons.mp (hgrey ▸ h.nodup)).1
  refine ⟨?_, ?_, ?_, ?_, ?_, ?_, ?_, h.rootNodes, ?_, h.closedPaths, h.seen⟩
  · change scan.inStack.erase node = (fs.map Frame.node).toFinset
    rw [h.inStack_eq, hgrey, List.toFinset_cons, Finset.erase_insert]
    rwa [List.mem_toFinset]
  · exact (List.nodup_cons.mp (hgrey ▸ h.nodup)).2
  · have hchain := h.chain
    rw [hgrey, List.reverse_cons] at hchain
    exact (List.isChain_append.mp hchain).1
  · intro f gs hsuffix
    exact h.paths f gs (hstack ▸ hsuffix.trans (List.suffix_cons _ _))
  · intro f hf
    exact h.iters f (by simp [hstack, show f ∈ fs from hf])
  · intro n hn
    exact h.greyNodes n (hgrey ▸ List.mem_cons_of_mem _ hn)
  · intro n hn hv
    rcases Finset.mem_insert.mp hv with rfl | hv
    · exact hnot hn
    · exact h.notVisited n (hgrey ▸ List.mem_cons_of_mem _ hn) hv
  · intro n hn
    rcases h.covered n hn with hr | hv | hg
    · exact Or.inl hr
    · exact Or.inr (Or.inl (Finset.mem_insert_of_mem hv))
    · rcases List.mem_cons.mp (hgrey ▸ hg) with rfl | hg
      · exact Or.inr (Or.inl (Finset.mem_insert_self _ _))
      · exact Or.inr (Or.inr hg)

theorem report {cycle : List String} (hcycle : ClosedPath (Edge edges) cycle) :
    Searching edges (scan.report cycle) := by
  by_cases hseen : sortedMembers cycle.toFinset ∈ scan.seenCycles
  · rwa [Scan.report, if_pos hseen]
  · rw [Scan.report, if_neg hseen]
    refine ⟨h.inStack_eq, h.nodup, h.chain, h.paths, h.iters, h.greyNodes, h.notVisited,
      h.rootNodes, h.covered, ?_, fun _ => by simp⟩
    intro c hc
    rcases List.mem_append.mp hc with hc | hc
    · exact h.closedPaths c hc
    · obtain rfl := List.mem_singleton.mp hc
      exact hcycle

/-- After a report there is a cycle: the same nodes are only passed over when they were
reported before. -/
theorem report_ne_nil (cycle : List String) :
    (scan.report cycle).cycles ≠ [] := by
  by_cases hseen : sortedMembers cycle.toFinset ∈ scan.seenCycles
  · rw [Scan.report, if_pos hseen]
    exact h.seen ⟨_, hseen⟩
  · simp [Scan.report, hseen]

theorem nextRoot {root : String} {roots : List String} (hroots : scan.roots = root :: roots)
    (hroot : root ∈ scan.visited ∨ root ∈ scan.grey) :
    Searching edges { scan with roots := roots } := by
  refine ⟨h.inStack_eq, h.nodup, h.chain, h.paths, h.iters, h.greyNodes, h.notVisited, ?_, ?_,
    h.closedPaths, h.seen⟩
  · exact fun r hr => h.rootNodes r (hroots ▸ List.mem_cons_of_mem _ hr)
  · intro n hn
    rcases h.covered n hn with hr | hrest
    · rcases List.mem_cons.mp (hroots ▸ hr) with rfl | hr
      · exact Or.inr hroot
      · exact Or.inl hr
    · exact Or.inr hrest

end

end Searching

/-! ## The rounds -/

inductive Round (edges : List DependencyEdge) (scan : Scan) : Scan → Prop
  | skipRoot {root : String} {roots : List String} (hstack : scan.stack = [])
      (hroots : scan.roots = root :: roots) (hvisited : root ∈ scan.visited) :
      Round edges scan { scan with roots := roots }
  | startRoot {root : String} {roots : List String} (hstack : scan.stack = [])
      (hroots : scan.roots = root :: roots) (hvisited : root ∉ scan.visited) :
      Round edges scan { scan.push edges root [root] with roots := roots }
  | backEdge {node parent : String} {path rest : List String} {fs : List Frame}
      (hstack : scan.stack = ⟨node, path, parent :: rest⟩ :: fs) (hin : parent ∈ scan.inStack) :
      Round edges scan
        (Scan.report (path.drop (path.idxOf parent) ++ [parent])
          { scan with stack := ⟨node, path, rest⟩ :: fs })
  | passOver {node parent : String} {path rest : List String} {fs : List Frame}
      (hstack : scan.stack = ⟨node, path, parent :: rest⟩ :: fs)
      (hvisited : parent ∈ scan.visited) :
      Round edges scan { scan with stack := ⟨node, path, rest⟩ :: fs }
  | descend {node parent : String} {path rest : List String} {fs : List Frame}
      (hstack : scan.stack = ⟨node, path, parent :: rest⟩ :: fs)
      (hin : parent ∉ scan.inStack) (hvisited : parent ∉ scan.visited) :
      Round edges scan
        (Scan.push edges parent (path ++ [parent])
          { scan with stack := ⟨node, path, rest⟩ :: fs })
  | leave {node : String} {path : List String} {fs : List Frame}
      (hstack : scan.stack = ⟨node, path, []⟩ :: fs) :
      Round edges scan
        { scan with
          stack := fs
          inStack := scan.inStack.erase node
          visited := insert node scan.visited }

theorem round_of_next (hnext : scan.next edges = some scan') : Round edges scan scan' := by
  unfold Scan.next at hnext
  split at hnext
  next hstack =>
    split at hnext
    · exact absurd hnext (by simp)
    next root roots hroots =>
      split at hnext
      next hv => exact Option.some.inj hnext ▸ .skipRoot hstack hroots hv
      next hv => exact Option.some.inj hnext ▸ .startRoot hstack hroots hv
  next node path parent rest fs hstack =>
    split at hnext
    next hin => exact Option.some.inj hnext ▸ .backEdge hstack hin
    next hin =>
      split at hnext
      next hv => exact Option.some.inj hnext ▸ .passOver hstack hv
      next hv => exact Option.some.inj hnext ▸ .descend hstack hin hv
  next node path fs hstack => exact Option.some.inj hnext ▸ .leave hstack

theorem next_eq_none (hnext : scan.next edges = none) : scan.stack = [] ∧ scan.roots = [] := by
  unfold Scan.next at hnext
  split at hnext
  next hstack =>
    split at hnext
    next hroots => exact ⟨hstack, hroots⟩
    next => split at hnext <;> exact absurd hnext (by simp)
  next =>
    split at hnext
    · exact absurd hnext (by simp)
    · split at hnext <;> exact absurd hnext (by simp)
  next => exact absurd hnext (by simp)

theorem Searching.round (h : Searching edges scan) (hround : Round edges scan scan') :
    Searching edges scan' := by
  cases hround with
  | skipRoot hstack hroots hvisited => exact h.nextRoot hroots (Or.inl hvisited)
  | startRoot hstack hroots hvisited =>
    rename_i root roots
    have hempty : scan.grey = [] := by simp [Scan.grey, hstack]
    have hpushed := h.push (h.rootNodes root (hroots ▸ List.mem_cons_self)) hvisited
      (by simp [hempty]) (by simp [hempty])
    rw [hempty] at hpushed
    exact hpushed.nextRoot hroots (Or.inr List.mem_cons_self)
  | backEdge hstack hin =>
    have hedge := h.iters _ (hstack ▸ List.mem_cons_self) _ List.mem_cons_self
    exact (h.advance hstack).report (h.closedPath hstack hedge hin)
  | passOver hstack hvisited => exact h.advance hstack
  | descend hstack hin hvisited =>
    rename_i node parent path rest fs
    have hedge := h.iters _ (hstack ▸ List.mem_cons_self) _ List.mem_cons_self
    have hpath := (h.advance hstack).path_top rfl
    have hgrey : Scan.grey { scan with stack := ⟨node, path, rest⟩ :: fs } = scan.grey := by
      simp [Scan.grey, hstack]
    have hpushed := (h.advance hstack).push hedge.parent_mem hvisited
      (by rw [hgrey]; exact fun hg => hin (h.mem_inStack.mpr hg))
      (by simpa [Scan.grey] using hedge)
    rwa [← hpath] at hpushed
  | leave hstack => exact h.pop hstack

def Thorough (edges : List DependencyEdge) (scan : Scan) : Prop :=
  scan.cycles = [] →
    Finished (Edge edges) (scan.visited : Set String) ∧
      Explored edges scan.visited none scan.stack

theorem thorough_start (edges : List DependencyEdge) : Thorough edges (Scan.start edges) :=
  fun _ => ⟨by simpa [Scan.start] using finished_empty, trivial⟩

theorem Thorough.round (h : Searching edges scan) (ht : Thorough edges scan)
    (hround : Round edges scan scan') : Thorough edges scan' := by
  intro hnil
  cases hround with
  | skipRoot hstack hroots hvisited => exact ht hnil
  | startRoot hstack hroots hvisited =>
    refine ⟨(ht hnil).1, fun parent hp => Or.inl (mem_parentsOf.mpr hp), ?_⟩
    rw [hstack]
    trivial
  | backEdge hstack hin => exact absurd hnil ((h.advance hstack).report_ne_nil _)
  | passOver hstack hvisited =>
    obtain ⟨hfin, hexplored⟩ := ht hnil
    rw [hstack] at hexplored
    refine ⟨hfin, fun p hp => ?_, hexplored.2⟩
    rcases hexplored.1 p hp with hiter | hrest
    · rcases List.mem_cons.mp hiter with rfl | hiter
      · exact Or.inr (Or.inl hvisited)
      · exact Or.inl hiter
    · exact Or.inr hrest
  | descend hstack hin hvisited =>
    obtain ⟨hfin, hexplored⟩ := ht hnil
    rw [hstack] at hexplored
    refine ⟨hfin, fun p hp => Or.inl (mem_parentsOf.mpr hp), fun p hp => ?_, hexplored.2⟩
    rcases hexplored.1 p hp with hiter | hv | habove
    · rcases List.mem_cons.mp hiter with rfl | hiter
      · exact Or.inr (Or.inr rfl)
      · exact Or.inl hiter
    · exact Or.inr (Or.inl hv)
    · exact absurd habove (by simp)
  | leave hstack =>
    rename_i node path fs
    obtain ⟨hfin, hexplored⟩ := ht hnil
    rw [hstack] at hexplored
    have hgrey : node ∈ scan.grey := by simp [Scan.grey, hstack]
    refine ⟨?_, hexplored.2.finish⟩
    rw [Finset.coe_insert]
    refine hfin.insert (h.notVisited node hgrey) fun parent hp => ?_
    -- nothing is ahead in the iterator and there is no frame above
    rcases hexplored.1 parent hp with hiter | hv | habove
    · exact absurd hiter List.not_mem_nil
    · exact hv
    · exact absurd habove (by simp)

/-! ## Termination -/

theorem variant_lt_of_white (hnode : node ∈ nodes edges) (hvisited : node ∉ scan.visited)
    (hin : node ∉ scan.inStack) (hv : scan'.visited = scan.visited)
    (hi : scan'.inStack = insert node scan.inStack) :
    scan'.variant edges < scan.variant edges := by
  suffices hlt : scan'.white edges ⊂ scan.white edges from
    Prod.Lex.toLex_lt_toLex.mpr (Or.inl (Finset.card_lt_card hlt))
  refine Finset.ssubset_iff_subset_ne.mpr ⟨fun n hn => ?_, fun heq => ?_⟩
  · simp only [Scan.white, Finset.mem_filter, hv, hi, Finset.mem_insert, not_or] at hn ⊢
    exact ⟨hn.1, hn.2.1, hn.2.2.2⟩
  · have hmem : node ∈ scan.white edges := by
      simp [Scan.white, hnode, hvisited, hin]
    rw [← heq] at hmem
    simp [Scan.white, hi] at hmem

theorem variant_lt_of_ahead (hwhite : scan'.white edges ⊆ scan.white edges)
    (hahead : scan'.ahead < scan.ahead) : scan'.variant edges < scan.variant edges := by
  refine Prod.Lex.toLex_lt_toLex.mpr ?_
  rcases (Finset.card_le_card hwhite).lt_or_eq with hlt | heq
  · exact Or.inl hlt
  · exact Or.inr ⟨heq, hahead⟩

@[simp] theorem report_visited (scan : Scan) (cycle : List String) :
    (scan.report cycle).visited = scan.visited := by
  unfold Scan.report; dsimp only; split <;> rfl

@[simp] theorem report_inStack (scan : Scan) (cycle : List String) :
    (scan.report cycle).inStack = scan.inStack := by
  unfold Scan.report; dsimp only; split <;> rfl

@[simp] theorem report_stack (scan : Scan) (cycle : List String) :
    (scan.report cycle).stack = scan.stack := by
  unfold Scan.report; dsimp only; split <;> rfl

@[simp] theorem report_roots (scan : Scan) (cycle : List String) :
    (scan.report cycle).roots = scan.roots := by
  unfold Scan.report; dsimp only; split <;> rfl

theorem variant_round (h : Searching edges scan) (hround : Round edges scan scan') :
    scan'.variant edges < scan.variant edges := by
  cases hround with
  | skipRoot hstack hroots hvisited =>
    exact variant_lt_of_ahead (Finset.Subset.refl _) (by simp [Scan.ahead, hroots, hstack])
  | startRoot hstack hroots hvisited =>
    have hgrey : scan.grey = [] := by simp [Scan.grey, hstack]
    exact variant_lt_of_white (h.rootNodes _ (hroots ▸ List.mem_cons_self)) hvisited
      (by rw [h.mem_inStack, hgrey]; exact List.not_mem_nil) rfl rfl
  | backEdge hstack hin =>
    refine variant_lt_of_ahead ?_ (by simp [Scan.ahead, hstack])
    simp [Scan.white]
  | passOver hstack hvisited =>
    exact variant_lt_of_ahead (Finset.Subset.refl _) (by simp [Scan.ahead, hstack])
  | descend hstack hin hvisited =>
    have hedge := h.iters _ (hstack ▸ List.mem_cons_self) _ List.mem_cons_self
    exact variant_lt_of_white hedge.parent_mem hvisited hin rfl rfl
  | leave hstack =>
    refine variant_lt_of_ahead (fun n hn => ?_) (by simp [Scan.ahead, hstack])
    simp only [Scan.white, Finset.mem_filter, Finset.mem_insert, Finset.mem_erase] at hn ⊢
    obtain ⟨hnode, hvisited, hin⟩ := hn
    refine ⟨hnode, fun hv => hvisited (Or.inr hv), fun hi => hin ⟨?_, hi⟩⟩
    exact fun heq => hvisited (Or.inl heq)

/-! ## The result -/

theorem Searching.acyclic (h : Searching edges scan) (ht : Thorough edges scan)
    (hdone : scan.next edges = none) (hnil : scan.cycles = []) (v : String) :
    ¬ TransGen (Edge edges) v v := by
  intro hcycle
  obtain ⟨hstack, hroots⟩ := next_eq_none hdone
  obtain ⟨w, hvw, -⟩ := TransGen.head'_iff.mp hcycle
  have hvisited : v ∈ scan.visited := by
    rcases h.covered v hvw.child_mem with hr | hv | hg
    · exact absurd hr (by simp [hroots])
    · exact hv
    · exact absurd hg (by simp [Scan.grey, hstack])
  exact (ht hnil).1.acyclic v hvisited hcycle

/-- The scan returns; what it returns is empty exactly when the graph has no cycle, and
holds closed paths only. -/
theorem scanDependencyCycles_exact (edges : List DependencyEdge) :
    ∃ cycles, (∃ n, ∀ fuel, n ≤ fuel → scanDependencyCycles fuel edges = some cycles) ∧
      (cycles ≠ [] ↔ ∃ v, TransGen (Edge edges) v v) ∧
      ∀ cycle ∈ cycles, ClosedPath (Edge edges) cycle := by
  have hround : ∀ s s', (Searching edges s ∧ Thorough edges s) → s.next edges = some s' →
      (Searching edges s' ∧ Thorough edges s') ∧ s'.variant edges < s.variant edges := by
    rintro s s' ⟨h, ht⟩ hnext
    have hr := round_of_next hnext
    exact ⟨⟨h.round hr, ht.round h hr⟩, variant_round h hr⟩
  obtain ⟨t, ⟨h, ht⟩, hdone, n, hn⟩ := loop_terminates (Scan.variant edges) hround
    ⟨searching_start edges, thorough_start edges⟩
  refine ⟨t.cycles, ⟨n, fun fuel hfuel => ?_⟩, ⟨fun hne => ?_, ?_⟩, h.closedPaths⟩
  · rw [scanDependencyCycles, hn fuel hfuel, Option.map_some]
  · obtain ⟨cycle, hmem⟩ := List.exists_mem_of_ne_nil _ hne
    exact (h.closedPaths cycle hmem).transGen
  · rintro ⟨v, hcycle⟩ hnil
    exact h.acyclic ht hdone hnil v hcycle

example :
    scanDependencyCycles 20 [⟨"a", "b"⟩, ⟨"b", "c"⟩, ⟨"b", "a"⟩] = some [["a", "b", "a"]] := by
  decide +kernel

end Orditect.Governance.Proofs
