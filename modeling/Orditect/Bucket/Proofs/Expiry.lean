import Mathlib.Tactic.Linarith
import Orditect.Bucket.Script
/-!
# The state key may expire

`SETEX` gives the state the time until it would have refilled to capacity.  When the key
is gone, a call finds what it would have made of the old state: a full bucket whose slot
is the present instant.
-/

namespace Orditect.Bucket.Proofs

open Support.Expiring

theorem le_ceilDiv_mul (a : Int) {b : Int} (hb : 1 ≤ b) : a ≤ ceilDiv a b * b := by
  have hdiv := Int.emod_add_mul_ediv (a + b - 1) b
  have hmod := Int.emod_lt_of_pos (a + b - 1) (show 0 < b by omega)
  have hcomm : ceilDiv a b * b = b * ((a + b - 1) / b) := Int.mul_comm _ _
  omega

theorem ceilDiv_pos {a b : Int} (ha : 1 ≤ a) (hb : 1 ≤ b) : 1 ≤ ceilDiv a b := by
  apply Int.le_ediv_of_mul_le (by omega)
  omega

def fullAt (cfg : Config) (data : Data) : Int :=
  data.slot + ceilDiv (cfg.capacity - data.tokens) cfg.refillAmount * cfg.timeBetweenSlots

variable {cfg : Config} {s t : State}

theorem refilled_of_fullAt_le {data : Data} {now : Int} (hspent : data.tokens < cfg.capacity)
    (hfull : fullAt cfg data ≤ now) :
    Data.refilled cfg now (some data) = Data.refilled cfg now none := by
  have hslots : ceilDiv (cfg.capacity - data.tokens) cfg.refillAmount ≤
      (now - data.slot) / cfg.timeBetweenSlots := by
    apply Int.le_ediv_of_mul_le (by have := cfg.slot_pos; omega)
    unfold fullAt at hfull
    omega
  have hpos := ceilDiv_pos (show 1 ≤ cfg.capacity - data.tokens by omega) cfg.refill_pos
  have henough : cfg.capacity - data.tokens ≤
      (now - data.slot) / cfg.timeBetweenSlots * cfg.refillAmount :=
    calc cfg.capacity - data.tokens
        ≤ ceilDiv (cfg.capacity - data.tokens) cfg.refillAmount * cfg.refillAmount :=
          le_ceilDiv_mul _ cfg.refill_pos
      _ ≤ (now - data.slot) / cfg.timeBetweenSlots * cfg.refillAmount :=
          Int.mul_le_mul_of_nonneg_right hslots (by have := cfg.refill_pos; omega)
  simp only [Data.refilled]
  rw [if_pos (by omega), min_eq_right (by omega)]

theorem fullAt_le_deadline (cfg : Config) (now : Nat) (data : Data) :
    fullAt cfg data ≤ ((now + (stateTtlSec cfg now data).toNat * 1000 : Nat) : Int) := by
  unfold fullAt stateTtlSec
  generalize ceilDiv (cfg.capacity - data.tokens) cfg.refillAmount * cfg.timeBetweenSlots = full
  have hceil := le_ceilDiv_mul (max 0 (data.slot - now) + full + 5000) (show (1 : Int) ≤ 1000 by
    decide)
  push_cast
  omega

theorem tokens_lt_of_decision {maxSleepMs now : Int} {key : Option Data} {reply : Reply}
    {data : Data} (hkey : ∀ d, key = some d → d.tokens < cfg.capacity)
    (h : decision cfg maxSleepMs now key = (reply, some data)) : data.tokens < cfg.capacity := by
  have hrefill := cfg.refill_le
  have hrefilled : (Data.refilled cfg now key).tokens ≤ cfg.capacity := by
    cases key with
    | none => exact le_refl _
    | some d =>
      simp only [Data.refilled]
      split
      · exact min_le_right _ _
      · exact (hkey d rfl).le
  have hreserved : ((Data.refilled cfg now key).reserved cfg).tokens ≤ cfg.capacity := by
    unfold Data.reserved
    split
    · exact hrefill
    · exact hrefilled
  unfold decision at h
  dsimp only at h
  split at h
  · simp at h
  · obtain ⟨-, hdata⟩ := Prod.mk.inj h
    obtain rfl := Option.some.inj hdata
    dsimp only
    omega

/-! ## The simulation -/

/-- The server whose key expires, beside the one whose key does not: they hold the same
state, or the first has dropped one that has refilled. -/
structure Agree (cfg : Config) (s t : State) : Prop where
  now : s.now = t.now
  spent : ∀ data, t.key.get = some data → data.tokens < cfg.capacity
  persists : t.key.deadline = none
  lives : ∀ data e, s.key.get = some data → s.key.deadline = some e → fullAt cfg data ≤ e
  state : s.key.get = t.key.get ∨
    s.key = none ∧ ∃ data, t.key.get = some data ∧ fullAt cfg data ≤ t.now

theorem agree_start (cfg : Config) (now : Nat) : Agree cfg (start now) (start now) where
  now := rfl
  spent := by simp [start]
  persists := rfl
  lives := by simp [start]
  state := Or.inl rfl

theorem Agree.elapse (h : Agree cfg s t) (elapsed : Nat) :
    Agree cfg ⟨s.now + elapsed, s.key.purge (s.now + elapsed)⟩
      ⟨t.now + elapsed, t.key.purge (t.now + elapsed)⟩ := by
  have hkeep : t.key.purge (t.now + elapsed) = t.key :=
    purge_of_live fun e he => by simp [h.persists] at he
  rw [hkeep]
  have hnow := h.now
  rcases purge_eq_or (s.now + elapsed) s.key with ⟨hlive, -⟩ | ⟨hgone, e, he, hle⟩
  · rw [hlive]
    refine ⟨by simp [hnow], h.spent, h.persists, h.lives, ?_⟩
    rcases h.state with hsame | ⟨hnone, data, hdata, hfull⟩
    · exact Or.inl hsame
    · refine Or.inr ⟨hnone, data, hdata, ?_⟩
      dsimp only
      omega
  · rw [hgone]
    refine ⟨by simp [hnow], h.spent, h.persists, by simp, ?_⟩
    rcases h.state with hsame | ⟨hnone, data, hdata, hfull⟩
    · cases hdata : t.key.get with
      | none => exact Or.inl rfl
      | some data =>
        -- the key has run out, so the surviving state has refilled
        have hlives := h.lives data e (hsame.trans hdata) he
        refine Or.inr ⟨rfl, data, rfl, ?_⟩
        dsimp only
        omega
    · refine Or.inr ⟨rfl, data, hdata, ?_⟩
      dsimp only
      omega

theorem Agree.decision_eq (h : Agree cfg s t) (maxSleepMs : Int) :
    decision cfg maxSleepMs s.now s.key.get = decision cfg maxSleepMs t.now t.key.get := by
  rw [h.now]
  rcases h.state with hsame | ⟨hnone, data, hdata, hfull⟩
  · rw [hsame]
  · have hrefilled := refilled_of_fullAt_le (h.spent data hdata) hfull
    rw [hnone, hdata, get_none]
    unfold decision
    rw [hrefilled]

theorem Agree.serve (h : Agree cfg s t) (call : Call) :
    (serve (bucketAcquire cfg) call s).1 = (serve (bucketAcquireForever cfg) call t).1 ∧
      Agree cfg (serve (bucketAcquire cfg) call s).2
        (serve (bucketAcquireForever cfg) call t).2 := by
  have helapse := h.elapse call.elapsed
  have heq := helapse.decision_eq call.maxSleepMs
  dsimp only at heq
  simp only [Bucket.serve, bucketAcquire, bucketAcquireForever]
  rw [heq]
  cases hd : decision cfg call.maxSleepMs ((t.now + call.elapsed : Nat) : Int)
    (t.key.purge (t.now + call.elapsed)).get with
  | mk reply written =>
    cases written with
    | none => exact ⟨rfl, helapse⟩
    | some data =>
      have hspent := tokens_lt_of_decision helapse.spent hd
      refine ⟨rfl, helapse.now, ?_, rfl, ?_, Or.inl rfl⟩
      · intro d hd'
        obtain rfl : data = d := by simpa using hd'
        exact hspent
      · intro d e hd' he
        obtain rfl : data = d := by simpa using hd'
        obtain rfl := Option.some.inj he
        exact fullAt_le_deadline cfg (s.now + call.elapsed) data

theorem Agree.replies (h : Agree cfg s t) (calls : List Call) :
    replies (bucketAcquire cfg) s calls = replies (bucketAcquireForever cfg) t calls := by
  induction calls generalizing s t with
  | nil => rfl
  | cons call calls ih =>
    obtain ⟨hreply, hagree⟩ := h.serve call
    simp only [Bucket.replies]
    rw [hreply, ih hagree]

/-- The expiry of the state key is unobservable: whatever the calls and the clock, each reply is
the one of the script whose key never expires. -/
theorem expiry_unobservable (cfg : Config) (now : Nat) (calls : List Call) :
    replies (bucketAcquire cfg) (start now) calls =
      replies (bucketAcquireForever cfg) (start now) calls :=
  (agree_start cfg now).replies calls

end Orditect.Bucket.Proofs
