import Mathlib.Data.String.Basic
import Orditect.Support.Transition
import Orditect.Support.PlainSet
import Orditect.Support.SortedSet
/-!
# The dependency governor

`register_dependency`, `notify_task_terminal`, `vote_cancel` and `get_ready_tasks` of
`governance/dependency.py` over the dependency keys of the task store: a hot record per
task, the set of active children of a parent, the remaining-deps counter and the set of
cancel votes of a child.  Storage calls are atomic and keys do not expire; between two
storage calls of one coroutine every other one may act, so each coroutine is a program
counter that stands before its next storage call.
-/

namespace Orditect.Governance

open Support.PlainSet Support.SortedSet

def maxLineageDepth : Nat := 32

def maxExemptResources : Nat := 10

def defaultTerminalWords : List String := ["succeeded", "failed", "cancelled"]

def defaultReadyStatus : String := "pending"

/-- One governor and the dependency it registers: the words it was constructed with,
whether a lifecycle is injected, the child and the parents as the caller lists them. -/
structure Config where
  successWords : List String
  terminalWords : List String := defaultTerminalWords
  readyStatus : String := defaultReadyStatus
  lifecycle : Bool
  child : String
  parents : List String
  successWords_ne_nil : successWords ≠ []

namespace Config

def isTerminal (cfg : Config) (status : String) : Bool := decide (status ∈ cfg.terminalWords)

def isSuccess (cfg : Config) (status : String) : Bool := decide (status ∈ cfg.successWords)

/-- `list(dict.fromkeys(parents))`. -/
def distinctParents (cfg : Config) : List String := cfg.parents.eraseDups

def flow (child : String) (parents : List String) : Config where
  successWords := ["succeeded"]
  lifecycle := true
  child := child
  parents := parents
  successWords_ne_nil := List.cons_ne_nil _ _

end Config

/-- The fields of a hot record the governor reads or writes; an absent one has its
default. -/
structure Record where
  status : String := ""
  dependsOn : List String := []
  primaryParent : Option String := none
  exemptResourcesSnapshot : Option (List String) := none
  parentTaskId : Option String := none
  resource : Option String := none
  deriving DecidableEq

structure Store where
  records : String → Option Record
  activeChildren : String → Finset String
  remainingDeps : Hash String Int
  cancelVotes : String → Finset String

namespace Store

def created (taskIds : List String) : Store where
  records := fun t => if t ∈ taskIds then some { status := defaultReadyStatus } else none
  activeChildren := fun _ => ∅
  remainingDeps := ∅
  cancelVotes := fun _ => ∅

/-- `get_task`: a missing record reads as the empty one. -/
def getTask (s : Store) (taskId : String) : Record := (s.records taskId).getD {}

def saddActiveChild (parentId childId : String) (s : Store) : Store :=
  { s with
    activeChildren := Function.update s.activeChildren parentId
      (insert childId (s.activeChildren parentId)) }

def sremActiveChild (parentId childId : String) (s : Store) : Store :=
  { s with
    activeChildren := Function.update s.activeChildren parentId
      ((s.activeChildren parentId).erase childId) }

def getActiveChildren (parentId : String) (s : Store) : List String :=
  sortedMembers (s.activeChildren parentId)

def setRemainingDeps (taskId : String) (n : Nat) (s : Store) : Store :=
  { s with remainingDeps := s.remainingDeps.insert taskId n }

/-- `DECR`: a missing counter counts from 0. -/
def decrRemainingDeps (taskId : String) (s : Store) : Store :=
  { s with
    remainingDeps := s.remainingDeps.insert taskId
      ((s.remainingDeps.lookup taskId).getD 0 - 1) }

/-- `list_ready_dep_tasks`: the counters at most 0 whose hot record has the status. -/
def listReadyDepTasks (status : String) (s : Store) : List String :=
  let candidates := (s.remainingDeps.entries.filter fun e => decide (e.2 ≤ 0)).map Sigma.fst
  (candidates.filter fun taskId =>
    decide ((s.records taskId).map Record.status = some status)).insertionSort (· ≤ ·)

/-- `vote_and_check_threshold`: `SADD` and `SCARD` in one transaction. -/
def voteAndCheckThreshold (childId parentId : String) (threshold : Nat) (s : Store) :
    Bool × Store :=
  let votes := insert parentId (s.cancelVotes childId)
  (decide (threshold ≤ votes.card),
    { s with cancelVotes := Function.update s.cancelVotes childId votes })

def clearCancelVotes (childId : String) (s : Store) : Store :=
  { s with cancelVotes := Function.update s.cancelVotes childId ∅ }

def updateTask (taskId : String) (f : Record → Record) (s : Store) : Store :=
  { s with records := Function.update s.records taskId ((s.records taskId).map f) }

end Store

def getReadyTasks (cfg : Config) (s : Store) : List String := s.listReadyDepTasks cfg.readyStatus

/-! ## Registration -/

inductive RegistrationError where
  | emptyParents
  | taskNotFound (taskId : String)
  | cycle (childId : String)
  | primaryNotInParents (primary : String)
  | exemptCapExceeded
  deriving DecidableEq

def RegistrationError.message : RegistrationError → String
  | .emptyParents => "register_dependency requires a non-empty parents list"
  | .taskNotFound taskId => "task_id not found: " ++ taskId
  | .cycle childId =>
    "dependency cycle detected: " ++ childId ++ " is an ancestor of its own parent"
  | .primaryNotInParents primary => "primary_parent '" ++ primary ++ "' is not in parents"
  | .exemptCapExceeded => "exempt_resources exceeds the cap of " ++ toString maxExemptResources

structure Request where
  primaryParent : Option String := none
  exemptResources : Option (List String) := none
  deriving DecidableEq

/-- What the reads of a registration settle: steps 3 to 5. -/
structure Plan where
  primary : String
  snapshot : List String
  counted : List String
  abnormal : List String
  deriving DecidableEq

/-- Where `register_dependency` stands; every constructor up to `finish` names what it
does next. -/
inductive Registration where
  | idle
  | readChild (req : Request)
  | readParents (req : Request) (todo : List String) (recs : List (String × Record))
  | checkCycle (req : Request) (recs : List (String × Record)) (stack : List (String × Nat))
      (visited : List String)
  | collectChain (recs : List (String × Record)) (primary : String) (hops : Nat)
      (current : Option String) (visited resources : List String)
  | addActive (plan : Plan) (todo : List String)
  | castVotes (plan : Plan) (todo : List String) (triggered : Bool)
  | writeRecord (plan : Plan) (triggered : Bool)
  | setCounter (plan : Plan) (triggered : Bool)
  | recheck (todo : List String) (triggered : Bool)
  | compensate (parent current : String) (todo : List String) (triggered : Bool)
  | recastVote (parent : String) (todo : List String) (triggered : Bool)
  | finish (triggered : Bool)
  | returned
  | raised (error : RegistrationError)
  deriving DecidableEq

def choosePrimary (cfg : Config) (req : Request) : String :=
  match req.primaryParent with
  | some primary => if primary = "" then cfg.distinctParents.headD "" else primary
  | none => cfg.distinctParents.headD ""

/-- Step 5: the parents read as non-terminal are counted, those read as terminal and not
successful are already-cast votes. -/
def classify (cfg : Config) (recs : List (String × Record)) (primary : String)
    (snapshot : List String) : Plan where
  primary := primary
  snapshot := snapshot
  counted := (recs.filter fun r => !cfg.isTerminal r.2.status).map Prod.fst
  abnormal := (recs.filter fun r =>
    cfg.isTerminal r.2.status && !cfg.isSuccess r.2.status).map Prod.fst

def startWrites (cfg : Config) (recs : List (String × Record)) (primary : String)
    (snapshot : List String) : Registration :=
  let plan := classify cfg recs primary snapshot
  .addActive plan plan.counted

/-- Steps 3 and 4, up to the first read of the chain. -/
def prepare (cfg : Config) (req : Request) (recs : List (String × Record)) : Registration :=
  let primary := choosePrimary cfg req
  if primary ∈ cfg.distinctParents then
    match req.exemptResources with
    | some resources =>
      if maxExemptResources < resources.length then .raised .exemptCapExceeded
      else startWrites cfg recs primary resources
    | none => .collectChain recs primary maxLineageDepth (some primary) [] []
  else .raised (.primaryNotInParents primary)

/-- One round of `_assert_no_cycle` at a node that is not the child.  `stack.append`
pushes the parent reference first, so the last dependency is popped first. -/
def pushAncestors (record : Record) (depth : Nat) (stack : List (String × Nat)) :
    List (String × Nat) :=
  let parentRef := (record.parentTaskId.filter fun ref => decide (ref ≠ "")).toList
  (record.dependsOn.reverse ++ parentRef).map (fun ref => (ref, depth + 1)) ++ stack

def followChain (cfg : Config) (s : Store) (recs : List (String × Record)) (primary : String)
    (hops : Nat) (current : Option String) (visited resources : List String) : Registration :=
  match hops, current with
  | hops + 1, some node =>
    if node ∈ visited then startWrites cfg recs primary resources
    else
      match s.records node with
      | none => startWrites cfg recs primary resources
      | some record =>
        match record.resource with
        | some resource =>
          if resource = "" ∨ resource ∈ resources then
            .collectChain recs primary hops record.parentTaskId (node :: visited) resources
          else if maxExemptResources ≤ (resources ++ [resource]).length then
            startWrites cfg recs primary (resources ++ [resource])
          else
            .collectChain recs primary hops record.parentTaskId (node :: visited)
              (resources ++ [resource])
        | none =>
          .collectChain recs primary hops record.parentTaskId (node :: visited) resources
  | _, _ => startWrites cfg recs primary resources

structure Move (π : Type) where
  next : π
  store : Store
  cancels : Option String := none

def Registration.next (cfg : Config) (s : Store) : Registration → Option (Move Registration)
  | .idle | .returned | .raised _ => none
  | .readChild req =>
    match s.records cfg.child with
    | none => some ⟨.raised (.taskNotFound cfg.child), s, none⟩
    | some _ => some ⟨.readParents req cfg.distinctParents [], s, none⟩
  | .readParents req [] recs =>
    some ⟨.checkCycle req recs (cfg.distinctParents.reverse.map fun p => (p, 0)) [], s, none⟩
  | .readParents req (p :: todo) recs =>
    match s.records p with
    | none => some ⟨.raised (.taskNotFound p), s, none⟩
    | some record => some ⟨.readParents req todo (recs ++ [(p, record)]), s, none⟩
  | .checkCycle req recs [] _ => some ⟨prepare cfg req recs, s, none⟩
  | .checkCycle req recs ((node, depth) :: stack) visited =>
    if node = cfg.child then some ⟨.raised (.cycle cfg.child), s, none⟩
    else if node ∈ visited ∨ maxLineageDepth ≤ depth then
      some ⟨.checkCycle req recs stack visited, s, none⟩
    else
      some ⟨.checkCycle req recs (pushAncestors (s.getTask node) depth stack) (node :: visited),
        s, none⟩
  | .collectChain recs primary hops current visited resources =>
    some ⟨followChain cfg s recs primary hops current visited resources, s, none⟩
  | .addActive plan [] => some ⟨.castVotes plan plan.abnormal false, s, none⟩
  | .addActive plan (p :: todo) =>
    some ⟨.addActive plan todo, s.saddActiveChild p cfg.child, none⟩
  | .castVotes plan [] triggered => some ⟨.writeRecord plan triggered, s, none⟩
  | .castVotes plan (p :: todo) triggered =>
    let (reached, store) := s.voteAndCheckThreshold cfg.child p cfg.distinctParents.length
    some ⟨.castVotes plan todo (triggered || reached), store, none⟩
  | .writeRecord plan triggered =>
    some ⟨.setCounter plan triggered, s.updateTask cfg.child fun record => { record with
      dependsOn := cfg.distinctParents
      primaryParent := some plan.primary
      exemptResourcesSnapshot := some plan.snapshot }, none⟩
  | .setCounter plan triggered =>
    some ⟨.recheck plan.counted triggered,
      s.setRemainingDeps cfg.child plan.counted.length, none⟩
  | .recheck [] triggered => some ⟨.finish triggered, s, none⟩
  | .recheck (p :: todo) triggered =>
    let current := (s.getTask p).status
    if cfg.isTerminal current then some ⟨.compensate p current todo triggered, s, none⟩
    else some ⟨.recheck todo triggered, s, none⟩
  | .compensate p current todo triggered =>
    let store := s.decrRemainingDeps cfg.child
    if cfg.isSuccess current then some ⟨.recheck todo triggered, store, none⟩
    else some ⟨.recastVote p todo triggered, store, none⟩
  | .recastVote p todo triggered =>
    let (reached, store) := s.voteAndCheckThreshold cfg.child p cfg.distinctParents.length
    some ⟨.recheck todo (triggered || reached), store, none⟩
  | .finish triggered =>
    some ⟨.returned, s, if triggered && cfg.lifecycle then some cfg.child else none⟩

/-! ## Terminal notification -/

/-- Where `notify_task_terminal` stands, for a task that ended in `status`. -/
inductive Notification where
  | idle
  | readChildren (status : String)
  | children (todo : List String) (status : String)
  | readChild (child : String) (todo : List String) (status : String)
  | castVote (child : String) (threshold : Nat) (todo : List String) (status : String)
  | cancel (child : String) (todo : List String) (status : String)
  | readOwn
  | leaveParents (todo : List String)
  | completed
  deriving DecidableEq

def Notification.next (cfg : Config) (taskId : String) (s : Store) :
    Notification → Option (Move Notification)
  | .idle | .completed => none
  | .readChildren status => some ⟨.children (s.getActiveChildren taskId) status, s, none⟩
  | .children [] _ => some ⟨.readOwn, s, none⟩
  | .children (c :: todo) status =>
    let store := s.decrRemainingDeps c
    if cfg.isSuccess status then some ⟨.children todo status, store, none⟩
    else some ⟨.readChild c todo status, store, none⟩
  | .readChild c todo status =>
    match s.records c with
    | none => some ⟨.children todo status, s, none⟩
    | some record =>
      if cfg.isTerminal record.status then some ⟨.children todo status, s, none⟩
      else if taskId ∈ record.dependsOn then
        some ⟨.castVote c record.dependsOn.length todo status, s, none⟩
      else some ⟨.children todo status, s, none⟩
  | .castVote c threshold todo status =>
    let (reached, store) := s.voteAndCheckThreshold c taskId threshold
    if reached && cfg.lifecycle then some ⟨.cancel c todo status, store, none⟩
    else some ⟨.children todo status, store, none⟩
  | .cancel c todo status => some ⟨.children todo status, s, some c⟩
  | .readOwn =>
    match (s.getTask taskId).dependsOn with
    | [] => some ⟨.completed, s, none⟩
    | p :: rest => some ⟨.leaveParents (p :: rest), s, none⟩
  | .leaveParents [] => some ⟨.completed, s.clearCancelVotes taskId, none⟩
  | .leaveParents (p :: todo) => some ⟨.leaveParents todo, s.sremActiveChild p taskId, none⟩

/-! ## Explicit votes -/

/-- Where one call of `vote_cancel` against the child stands. -/
inductive Vote where
  | idle
  | read (parent : String)
  | cast (parent : String) (threshold : Nat)
  | cancel
  | finished (reached : Bool)
  deriving DecidableEq

def Vote.next (cfg : Config) (s : Store) : Vote → Option (Move Vote)
  | .idle | .finished _ => none
  | .read parent =>
    match s.records cfg.child with
    | none => some ⟨.finished false, s, none⟩
    | some record =>
      if cfg.isTerminal record.status then some ⟨.finished false, s, none⟩
      else if parent ∈ record.dependsOn then
        some ⟨.cast parent record.dependsOn.length, s, none⟩
      else some ⟨.finished false, s, none⟩
  | .cast parent threshold =>
    let (reached, store) := s.voteAndCheckThreshold cfg.child parent threshold
    if reached && cfg.lifecycle then some ⟨.cancel, store, none⟩
    else some ⟨.finished reached, store, none⟩
  | .cancel => some ⟨.finished true, s, some cfg.child⟩

/-! ## The system -/

/-- The store, the coroutines, and the history: the invocations of `lifecycle.cancel`
(latest first), the parents that had a `vote_cancel` accepted, and the counted parents
the recheck of the current registration has found non-terminal. -/
structure State where
  store : Store
  registration : Registration
  notifications : String → Notification
  votes : Nat → Vote
  cancelled : List String
  accepted : List String
  awaited : List String

inductive Event where
  | register (req : Request)
  | registration
  | write (taskId status : String)
  | notification (taskId : String)
  | voteCancel (voter : Nat) (parent : String)
  | vote (voter : Nat)

def Registration.over : Registration → Bool
  | .idle | .returned | .raised _ => true
  | _ => false

def Registration.awaits (cfg : Config) (s : Store) (awaited : List String) :
    Registration → List String
  | .setCounter _ _ => []
  | .recheck (p :: _) _ => if cfg.isTerminal (s.getTask p).status then awaited else p :: awaited
  | _ => awaited

def Vote.accepts (accepted : List String) : Vote → List String
  | .cast parent _ => parent :: accepted
  | _ => accepted

/-- The status write of a parent that ends it is followed by its notification; a task
that has ended is not written again. -/
def write (cfg : Config) (taskId status : String) (s : State) : Option State :=
  match s.store.records taskId with
  | none => none
  | some record =>
    if cfg.isTerminal record.status then none
    else some { s with
      store := s.store.updateTask taskId fun record => { record with status := status }
      notifications :=
        if cfg.isTerminal status ∧ taskId ∈ cfg.parents then
          Function.update s.notifications taskId (.readChildren status)
        else s.notifications }

def step (cfg : Config) (s : State) : Event → Option State
  | .register req =>
    if s.registration.over then
      some { s with
        registration := if cfg.parents = [] then .raised .emptyParents else .readChild req }
    else none
  | .registration =>
    (s.registration.next cfg s.store).map fun move => { s with
      store := move.store
      registration := move.next
      cancelled := move.cancels.toList ++ s.cancelled
      awaited := s.registration.awaits cfg s.store s.awaited }
  | .write taskId status => write cfg taskId status s
  | .notification taskId =>
    ((s.notifications taskId).next cfg taskId s.store).map fun move => { s with
      store := move.store
      notifications := Function.update s.notifications taskId move.next
      cancelled := move.cancels.toList ++ s.cancelled }
  | .voteCancel voter parent =>
    match s.votes voter with
    | .idle | .finished _ => some { s with votes := Function.update s.votes voter (.read parent) }
    | _ => none
  | .vote voter =>
    ((s.votes voter).next cfg s.store).map fun move => { s with
      store := move.store
      votes := Function.update s.votes voter move.next
      cancelled := move.cancels.toList ++ s.cancelled
      accepted := (s.votes voter).accepts s.accepted }

/-- The child as it was created, before any registration: nothing depends on it yet and
it depends on nothing. -/
def unregistered (cfg : Config) (s : Store) : Store where
  records := Function.update s.records cfg.child
    ((s.records cfg.child).map fun record => { record with dependsOn := [] })
  activeChildren := fun p => (s.activeChildren p).erase cfg.child
  remainingDeps := s.remainingDeps.erase cfg.child
  cancelVotes := Function.update s.cancelVotes cfg.child ∅

/-- Before the first registration: any records, sets and counters of the other tasks;
the notification of a parent that has ended may still be `due`. -/
def start (cfg : Config) (store : Store) (due : String → Bool) : State where
  store := unregistered cfg store
  registration := .idle
  notifications := fun t =>
    match store.records t with
    | some record =>
      if t ∈ cfg.parents ∧ cfg.isTerminal record.status then
        if due t then .readChildren record.status else .completed
      else .idle
    | none => .idle
  votes := fun _ => .idle
  cancelled := []
  accepted := []
  awaited := []

def Ended (cfg : Config) (s : Store) (taskId : String) : Prop :=
  ∃ record ∈ s.records taskId, cfg.isTerminal record.status = true

def Abnormal (cfg : Config) (s : Store) (taskId : String) : Prop :=
  ∃ record ∈ s.records taskId,
    cfg.isTerminal record.status = true ∧ cfg.isSuccess record.status = false

instance (cfg : Config) (s : Store) (taskId : String) : Decidable (Ended cfg s taskId) :=
  inferInstanceAs (Decidable (∃ record ∈ s.records taskId, cfg.isTerminal record.status = true))

instance (cfg : Config) (s : Store) (taskId : String) : Decidable (Abnormal cfg s taskId) :=
  inferInstanceAs (Decidable (∃ record ∈ s.records taskId,
    cfg.isTerminal record.status = true ∧ cfg.isSuccess record.status = false))

end Orditect.Governance
