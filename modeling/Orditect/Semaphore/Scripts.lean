import Orditect.Support.Transition
import Orditect.Support.SortedSet
/-!
# The lease semaphore

`sem_acquire.lua`, `sem_refresh.lua` and `sem_release.lua` over the sorted set
of one semaphore key, and the water-level query `in_use`, whose clock reading
and clean-up are two round trips.  Times are the server's milliseconds; the
lease is a whole number of them.
-/

namespace Orditect.Semaphore

open Support.Expiring Support.SortedSet

structure Config where
  limit : Nat
  leaseMs : Nat
  limit_pos : 1 ≤ limit
  lease_pos : 0 < leaseMs

structure Store where
  now : Nat
  key : Cell (ZSet String)

def keyTtl (leaseMs : Nat) : Nat := max 1 (leaseMs * 2 / 1000)

/-- `sem_acquire.lua`: the granted token, or `none`. -/
def semAcquire (cfg : Config) (token : String) (s : Store) : Option String × Store :=
  let key := remRangeByScore ((s.now : Int) - cfg.leaseMs) s.key
  if card key < cfg.limit then
    (some token, { s with key := (put token s.now key).expire s.now (keyTtl cfg.leaseMs) })
  else
    (none, { s with key := key })

/-- `sem_refresh.lua`: 1 when the token was still in the set. -/
def semRefresh (cfg : Config) (token : String) (s : Store) : Nat × Store :=
  match find token s.key with
  | some _ => (1, { s with key := (put token s.now s.key).expire s.now (keyTtl cfg.leaseMs) })
  | none => (0, s)

def semRelease (token : String) (s : Store) : Store := { s with key := del token s.key }

/-- The second round trip of `in_use`: clean up against the reading `nowMs`
taken in the first, then count. -/
def inUse (cfg : Config) (nowMs : Nat) (s : Store) : Nat × Store :=
  let key := remRangeByScore ((nowMs : Int) - cfg.leaseMs) s.key
  (card key, { s with key := key })

/-! ## Runs -/

/-- The store, the clock readings of the `in_use` calls that have not cleaned
up yet, and the history: when each token that was granted and not released was
granted or last refreshed successfully. -/
structure State where
  store : Store
  readings : List Nat
  held : String → Option Nat

inductive Event where
  | acquire (token : String)
  | refresh (token : String)
  | release (token : String)
  | readClock
  | cleanUp (nowMs : Nat)
  | advance (ms : Nat)
  deriving DecidableEq

def start (now : Nat) : State := ⟨⟨now, none⟩, [], fun _ => none⟩

def note (held : String → Option Nat) (token : String) (since : Option Nat) :
    String → Option Nat :=
  fun t => if t = token then since else held t

def step (cfg : Config) (s : State) : Event → Option State
  | .acquire token =>
    match semAcquire cfg token s.store with
    | (some _, store) => some { s with store, held := note s.held token (some s.store.now) }
    | (none, store) => some { s with store }
  | .refresh token =>
    match semRefresh cfg token s.store with
    | (0, store) => some { s with store }
    | (_, store) => some { s with store, held := note s.held token (some s.store.now) }
  | .release token =>
    some { s with store := semRelease token s.store, held := note s.held token none }
  | .readClock => some { s with readings := s.store.now :: s.readings }
  | .cleanUp nowMs =>
    if nowMs ∈ s.readings then
      some { s with store := (inUse cfg nowMs s.store).2, readings := s.readings.erase nowMs }
    else none
  | .advance ms =>
    some { s with store := ⟨s.store.now + ms, s.store.key.purge (s.store.now + ms)⟩ }

/-- Granted, not released, and granted or last refreshed less than a lease ago. -/
def Holds (cfg : Config) (s : State) (token : String) : Prop :=
  ∃ since, s.held token = some since ∧ s.store.now < since + cfg.leaseMs

def InSet (s : State) (token : String) : Prop := ∃ score, find token s.store.key = some score

def Grants (cfg : Config) (token : String) (s : State) (e : Event) : Prop :=
  e = .acquire token ∧ (semAcquire cfg token s.store).1 = some token

end Orditect.Semaphore
