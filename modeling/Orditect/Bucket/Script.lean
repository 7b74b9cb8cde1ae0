import Orditect.Support.Expiring
/-!
# The token bucket

`bucket_acquire.lua` over the state key of one bucket, and the wait that
`AsyncTokenBucket.acquire` makes of its reply.  Times are the server's
milliseconds, the slot length is a whole number of them, and every number of
the script is an integer.
-/

namespace Orditect.Bucket

open Support.Expiring

/-- What all clients of one bucket share. -/
structure Config where
  capacity : Int
  refillAmount : Int
  timeBetweenSlots : Int
  refill_pos : 1 ≤ refillAmount
  refill_le : refillAmount ≤ capacity
  slot_pos : 1 ≤ timeBetweenSlots

structure Data where
  slot : Int
  tokens : Int
  deriving DecidableEq, Repr

/-- `{status, slot_ms, server_now_ms}`. -/
structure Reply where
  granted : Bool
  slot : Int
  serverNow : Int
  deriving DecidableEq, Repr

/-- The slot and the tokens a call at `now` goes by: those of the key, with what was
refilled since. -/
def Data.refilled (cfg : Config) (now : Int) : Option Data → Data
  | none => ⟨now, cfg.capacity⟩
  | some data =>
    let slotsPassed := (now - data.slot) / cfg.timeBetweenSlots
    if 0 < slotsPassed then
      ⟨now, min (data.tokens + slotsPassed * cfg.refillAmount) cfg.capacity⟩
    else data

def Data.reserved (cfg : Config) (data : Data) : Data :=
  if data.tokens ≤ 0 then ⟨data.slot + cfg.timeBetweenSlots, cfg.refillAmount⟩ else data

/-- `math.ceil(a / b)` for a positive `b`. -/
def ceilDiv (a b : Int) : Int := (a + b - 1) / b

def stateTtlSec (cfg : Config) (now : Int) (data : Data) : Int :=
  let refillToFullMs :=
    ceilDiv (cfg.capacity - data.tokens) cfg.refillAmount * cfg.timeBetweenSlots
  let stateTtlMs := max 0 (data.slot - now) + refillToFullMs + 5000
  max 1 (ceilDiv stateTtlMs 1000)

/-- What the script decides on the value of the key: its reply, and the state to write. -/
def decision (cfg : Config) (maxSleepMs now : Int) (data : Option Data) : Reply × Option Data :=
  let next := (Data.refilled cfg now data).reserved cfg
  if next.slot - now > maxSleepMs then (⟨false, next.slot, now⟩, none)
  else (⟨true, next.slot, now⟩, some { next with tokens := next.tokens - 1 })

def bucketAcquire (cfg : Config) (maxSleepMs : Int) (now : Nat) (key : Cell Data) :
    Reply × Cell Data :=
  match decision cfg maxSleepMs now key.get with
  | (reply, none) => (reply, key)
  | (reply, some data) => (reply, Cell.setEx now (stateTtlSec cfg now data).toNat data)

/-- The same script with `SET` for `SETEX`. -/
def bucketAcquireForever (cfg : Config) (maxSleepMs : Int) (now : Nat) (key : Cell Data) :
    Reply × Cell Data :=
  match decision cfg maxSleepMs now key.get with
  | (reply, none) => (reply, key)
  | (reply, some data) => (reply, Cell.set data)

def Reply.waitMs (reply : Reply) : Int := max 0 (reply.slot - reply.serverNow)

def Reply.effective (reply : Reply) : Int := reply.serverNow + reply.waitMs

/-! ## Sequences of calls -/

structure Call where
  elapsed : Nat
  maxSleepMs : Int
  deriving DecidableEq, Repr

structure State where
  now : Nat
  key : Cell Data

def start (now : Nat) : State := ⟨now, none⟩

def serve (script : Int → Nat → Cell Data → Reply × Cell Data) (call : Call) (s : State) :
    Reply × State :=
  let now := s.now + call.elapsed
  let (reply, key) := script call.maxSleepMs now (s.key.purge now)
  (reply, ⟨now, key⟩)

def replies (script : Int → Nat → Cell Data → Reply × Cell Data) : State → List Call → List Reply
  | _, [] => []
  | s, call :: calls =>
    let (reply, s) := serve script call s
    reply :: replies script s calls

end Orditect.Bucket
