import Orditect.Semaphore.Scripts
/-!
# One call of the semaphore's client

`AsyncLeaseSemaphore.acquire` and `try_acquire` as a coroutine whose program counter stands
at its next `await`, the watchdog (`LeaseGuard`) that it starts, and the server, which other
clients use all the time.  At an `await` the call is resumed, or something is raised there;
only the release script of the clean-up handler always completes.  A script call that was
given up may still reach the server.  The monotonic clock of the client and the clock of the
server advance together.
-/

namespace Orditect.Semaphore.Client

open Support.SortedSet

/-- What is raised at an `await`; `except Exception` catches the first only. -/
inductive Fault where
  | exception
  | cancelled
  deriving DecidableEq

inductive Mode where
  | acquire (timeout : Option Nat)
  | tryAcquire
  deriving DecidableEq

/-- The call: its token is the `uuid4` it made up, `hooks` the number of hooks. -/
structure Config extends Semaphore.Config where
  mode : Mode
  token : String
  renewInterval : Nat
  hooks : Nat

inductive Notice where
  | acquired (waited inUse : Nat)
  | timeout (waited : Nat)
  | rejected
  deriving DecidableEq

inductive Outcome where
  | token
  | refused
  | timedOut (waited : Nat)
  | raised (fault : Fault)
  deriving DecidableEq

inductive Pc where
  | script (delay : Nat)
  | sleeping (wakeAt delay : Nat)
  | clock (waited : Nat)
  | cleanUp (waited nowMs : Nat)
  | count (waited : Nat)
  | guardStart (waited inUse : Nat)
  | releasing (fault : Fault)
  | hook (notice : Notice) (left : Nat)
  | ended (outcome : Outcome)
  deriving DecidableEq

inductive Watchdog where
  | absent
  | created
  | waiting (expiresAt : Nat)
  | refreshing
  | ended
  deriving DecidableEq

/-- `sent`: an acquire script is on its way to the server; `reply`: its answer, not read yet.
`strays` counts the refresh scripts that were given up before the server ran them.
`grantedAt` is history: when the server granted the token. -/
structure State where
  store : Store
  started : Nat
  pc : Pc
  sent : Bool
  reply : Option (Option String)
  watchdog : Watchdog
  stopEvent : Bool
  registered : Bool
  strays : Nat
  grantedAt : Option Nat

inductive Event where
  | serve
  | resume
  | throw (fault : Fault) (served : Bool)
  | wake
  | renew
  | renewFails (fault : Fault) (served : Bool)
  | stray
  | cancelWatchdog
  | stop
  | handBack
  | other (event : Semaphore.Event)
  deriving DecidableEq

def start (store : Store) : State where
  store := store
  started := store.now
  pc := .script 50
  sent := true
  reply := none
  watchdog := .absent
  stopEvent := false
  registered := false
  strays := 0
  grantedAt := none

/-! ## The call -/

def Notice.outcome : Notice → Outcome
  | .acquired _ _ => .token
  | .timeout waited => .timedOut waited
  | .rejected => .refused

def callHooks (notice : Notice) : Nat → Pc
  | 0 => .ended notice.outcome
  | left + 1 => .hook notice left

def waited (cfg : Config) (s : State) : Nat :=
  match cfg.mode with
  | .acquire _ => s.store.now - s.started
  | .tryAcquire => 0

def notGranted (cfg : Config) (delay : Nat) (s : State) : Pc :=
  match cfg.mode with
  | .tryAcquire => callHooks .rejected cfg.hooks
  | .acquire timeout =>
    let waited := s.store.now - s.started
    if timeout.any (· ≤ waited) then callHooks (.timeout waited) cfg.hooks
    else .sleeping (s.store.now + delay) (min 500 (delay * 2))

def serve (cfg : Config) (s : State) : Option State :=
  if s.sent then
    match semAcquire cfg.toConfig cfg.token s.store with
    | (some token, store) =>
      some { s with
        store := store, sent := false, reply := some (some token)
        grantedAt := some s.store.now }
    | (none, store) => some { s with store := store, sent := false, reply := some none }
  else none

def cleaned (cfg : Config) (nowMs : Nat) (s : State) : State :=
  { s with store := (inUse cfg.toConfig nowMs s.store).2 }

def guarded (s : State) : State := { s with watchdog := .created }

def resume (cfg : Config) (s : State) : Option State :=
  match s.pc with
  | .script delay =>
    s.reply.map fun reply =>
      { s with
        reply := none
        pc := if reply = some cfg.token then .clock (waited cfg s) else notGranted cfg delay s }
  | .sleeping wakeAt delay =>
    if wakeAt ≤ s.store.now then
      some { s with pc := .script delay, sent := true, reply := none }
    else none
  | .clock waited => some { s with pc := .cleanUp waited s.store.now }
  | .cleanUp waited nowMs => some { cleaned cfg nowMs s with pc := .count waited }
  | .count waited => some { s with pc := .guardStart waited (card s.store.key) }
  | .guardStart waited inUse =>
    some { guarded s with
      registered := true
      pc := callHooks (.acquired waited inUse) cfg.hooks }
  | .releasing fault =>
    some { s with store := semRelease cfg.token s.store, pc := .ended (.raised fault) }
  | .hook notice left => some { s with pc := callHooks notice left }
  | .ended _ => none

/-- Something is raised where the call awaits; `served` says whether what it awaited has
taken effect nevertheless. -/
def throw (cfg : Config) (fault : Fault) (served : Bool) (s : State) : Option State :=
  match s.pc with
  | .script _ | .sleeping _ _ => some { s with pc := .ended (.raised fault) }
  | .clock _ | .count _ => some { s with pc := .releasing fault }
  | .cleanUp _ nowMs =>
    some { (if served then cleaned cfg nowMs s else s) with pc := .releasing fault }
  | .guardStart _ _ => some { (if served then guarded s else s) with pc := .releasing fault }
  | .hook notice left =>
    -- `except Exception: pass` goes on to the next hook
    match fault with
    | .exception => some { s with pc := callHooks notice left }
    | .cancelled => some { s with pc := .ended (.raised .cancelled) }
  | .releasing _ | .ended _ => none

/-! ## The watchdog -/

def leave (s : State) : State := { s with watchdog := .ended, registered := false }

def loop (cfg : Config) (s : State) : State :=
  if s.stopEvent then leave s
  else { s with watchdog := .waiting (s.store.now + cfg.renewInterval) }

def wake (cfg : Config) (s : State) : Option State :=
  match s.watchdog with
  | .created => some (loop cfg s)
  | .waiting expiresAt =>
    if s.stopEvent then some (leave s)
    else if expiresAt ≤ s.store.now then some { s with watchdog := .refreshing }
    else none
  | _ => none

def refreshed (cfg : Config) (s : State) : State :=
  { s with store := (semRefresh cfg.toConfig cfg.token s.store).2 }

def renew (cfg : Config) (s : State) : Option State :=
  match s.watchdog with
  | .refreshing =>
    if (semRefresh cfg.toConfig cfg.token s.store).1 = 0 then some (leave (refreshed cfg s))
    else some (loop cfg (refreshed cfg s))
  | _ => none

/-- A call of the refresh script that raised: the server has run it, or still may. -/
def attempted (cfg : Config) (served : Bool) (s : State) : State :=
  if served then refreshed cfg s else { s with strays := s.strays + 1 }

def renewFails (cfg : Config) (fault : Fault) (served : Bool) (s : State) : Option State :=
  match s.watchdog, fault with
  | .refreshing, .exception => some (loop cfg (attempted cfg served s))
  | .refreshing, .cancelled => some (leave (attempted cfg served s))
  | _, _ => none

def stray (cfg : Config) (s : State) : Option State :=
  if 0 < s.strays then some { refreshed cfg s with strays := s.strays - 1 } else none

/-- A task that is cancelled before its first step never gets to its `finally`. -/
def cancelWatchdog (s : State) : Option State :=
  match s.watchdog with
  | .created => some { s with watchdog := .ended }
  | .waiting _ => some (leave s)
  | _ => none

/-! ## The rest of the world -/

/-- The two effects of `release`, which takes the token the call has returned. -/
def stop (s : State) : Option State :=
  if s.pc = .ended .token then
    some (if s.registered then { s with stopEvent := true, registered := false } else s)
  else none

def handBack (cfg : Config) (s : State) : Option State :=
  if s.pc = .ended .token then some { s with store := semRelease cfg.token s.store } else none

/-- What other calls do at the server: they use tokens of their own, and clean up against
clock readings of the past. -/
def other (cfg : Config) (s : Store) : Semaphore.Event → Option Store
  | .acquire token =>
    if token = cfg.token then none else some (semAcquire cfg.toConfig token s).2
  | .refresh token =>
    if token = cfg.token then none else some (semRefresh cfg.toConfig token s).2
  | .release token => if token = cfg.token then none else some (semRelease token s)
  | .readClock => some s
  | .cleanUp nowMs => if nowMs ≤ s.now then some (inUse cfg.toConfig nowMs s).2 else none
  | .advance ms => some ⟨s.now + ms, s.key.purge (s.now + ms)⟩

def step (cfg : Config) (s : State) : Event → Option State
  | .serve => serve cfg s
  | .resume => resume cfg s
  | .throw fault served => throw cfg fault served s
  | .wake => wake cfg s
  | .renew => renew cfg s
  | .renewFails fault served => renewFails cfg fault served s
  | .stray => stray cfg s
  | .cancelWatchdog => cancelWatchdog s
  | .stop => stop s
  | .handBack => handBack cfg s
  | .other event => (other cfg s.store event).map fun store => { s with store := store }

/-! ## What a call leaves behind -/

def Pc.failed : Pc → Bool
  | .ended .token => false
  | .ended _ => true
  | _ => false

/-- An acquisition at this time would count the token. -/
def Occupies (cfg : Config) (s : State) : Prop :=
  ∃ score, find cfg.token
    (remRangeByScore ((s.store.now : Int) - cfg.leaseMs) s.store.key) = some score

/-- No watchdog can renew the token, and once a lease has passed since its grant no
acquisition counts it any more. -/
structure NothingLeft (cfg : Config) (s : State) : Prop where
  unrenewed : s.watchdog = .absent ∨ (semRefresh cfg.toConfig cfg.token s.store).1 = 0
  lapses : Occupies cfg s →
    ∃ granted, s.grantedAt = some granted ∧ s.store.now < granted + cfg.leaseMs

/-- A cancellation, or another exception that is no `Exception`, is raised in an
`on_acquired` hook. -/
def cancelsHook (s : State) : Event → Bool
  | .throw .cancelled _ => match s.pc with | .hook (.acquired _ _) _ => true | _ => false
  | _ => false

def HooksUncancelled (s : State) (e : Event) : Prop := cancelsHook s e = false

instance (s : State) (e : Event) : Decidable (HooksUncancelled s e) :=
  inferInstanceAs (Decidable (_ = _))

end Orditect.Semaphore.Client
