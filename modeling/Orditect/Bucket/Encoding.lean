import Orditect.Bucket.Script
import Orditect.Support.Double
import Orditect.Support.JsonText
/-!
# The state key as text

`bucket_acquire.lua` once more, with the text that it stores and the doubles that it
computes with.  `refill_frequency` is any positive number of seconds, so a slot need not be
a whole number of milliseconds.
-/

namespace Orditect.Bucket.Encoding

open Support.Double Support.Expiring Support.JsonText

structure Config where
  capacity : Int
  refillAmount : Int
  /-- In seconds. -/
  refillFrequency : ℚ
  refill_pos : 1 ≤ refillAmount
  refill_le : refillAmount ≤ capacity
  capacity_lt : capacity < 2 ^ 53
  frequency_pos : 0 < refillFrequency

def Config.timeBetweenSlots (cfg : Config) : ℚ := double (double cfg.refillFrequency * 1000)

/-- The two numbers of the state. -/
structure Data where
  slot : ℚ
  tokens : ℚ
  deriving DecidableEq

/-- The conversion of `%d`, and of a number in a reply: toward zero. -/
def truncate (x : ℚ) : Int := x.num.tdiv x.den

def Data.format (data : Data) : List Char :=
  intText (truncate data.slot) ++ ' ' :: intText (truncate data.tokens)

def nonSpace (c : Char) : Bool :=
  c ∉ [' ', '\t', '\n', Char.ofNat 11, Char.ofNat 12, '\r']

/-- `data:match('(%S+) (%S+)')`, where the text has no blank before the first number, with
`tonumber` of both. -/
def Data.parse (data : List Char) : Option Data :=
  match data.dropWhile nonSpace with
  | ' ' :: rest => do
    let slot ← readInt (data.takeWhile nonSpace)
    let tokens ← readInt (rest.takeWhile nonSpace)
    some ⟨double slot, double tokens⟩
  | _ => none

def Data.refilled (cfg : Config) (now : ℚ) (data : Data) : Data :=
  let slotsPassed := ⌊double (double (now - data.slot) / cfg.timeBetweenSlots)⌋
  if 0 < slotsPassed then
    ⟨now, min (double (data.tokens + double (slotsPassed * cfg.refillAmount))) cfg.capacity⟩
  else data

def Data.reserved (cfg : Config) (data : Data) : Data :=
  if data.tokens ≤ 0 then ⟨double (data.slot + cfg.timeBetweenSlots), cfg.refillAmount⟩ else data

/-- The state a call at `now` goes by; `none` when the key does not parse. -/
def Data.found (cfg : Config) (now : ℚ) : Option (List Char) → Option Data
  | none => some ⟨now, cfg.capacity⟩
  | some text => (Data.parse text).map (Data.refilled cfg now)

def stateTtlSec (cfg : Config) (now : ℚ) (data : Data) : Int :=
  let refillToFullMs :=
    double (⌈double (double (cfg.capacity - data.tokens) / cfg.refillAmount)⌉ *
      cfg.timeBetweenSlots)
  let stateTtlMs := double (double (max 0 (double (data.slot - now)) + refillToFullMs) + 5000)
  max 1 ⌈double (stateTtlMs / 1000)⌉

/-- What the script decides: its reply, and the state that a grant computes. -/
def decision (cfg : Config) (maxSleepMs : Int) (now : ℚ) (key : Option (List Char)) :
    Option (Reply × Option Data) :=
  (Data.found cfg now key).map fun data =>
    let next := data.reserved cfg
    if double (next.slot - now) > maxSleepMs then (⟨false, truncate next.slot, truncate now⟩, none)
    else (⟨true, truncate next.slot, truncate now⟩, some ⟨next.slot, double (next.tokens - 1)⟩)

structure State where
  now : Nat
  key : Cell (List Char)

def start (now : Nat) : State := ⟨now, none⟩

def decided (cfg : Config) (call : Call) (s : State) : Option (Reply × Option Data) :=
  decision cfg call.maxSleepMs (s.now + call.elapsed : Nat)
    (s.key.purge (s.now + call.elapsed)).get

/-- A script that raises leaves the key alone. -/
def serve (cfg : Config) (s : State) (call : Call) : State :=
  let now := s.now + call.elapsed
  match decided cfg call s with
  | some (_, some data) =>
    ⟨now, Cell.setEx now (stateTtlSec cfg now data).toNat data.format⟩
  | _ => ⟨now, s.key.purge now⟩

def after (cfg : Config) (now : Nat) (calls : List Call) : State :=
  calls.foldl (serve cfg) (start now)

end Orditect.Bucket.Encoding
