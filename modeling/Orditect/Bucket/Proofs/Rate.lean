import Mathlib.Data.List.Basic
import Orditect.Bucket.Proofs.Expiry
/-!
# The rate bound

The script whose key never expires is the one to count with.  From a state with slot `s`
and `t` tokens, at most `t` grants and one refill for each whole slot length up to the
instant `x` have a slot up to `x`: opening a slot and refilling both pay for their tokens
with slot lengths.  A window starts less than one slot length after the slot of its first
grant.
-/

namespace Orditect.Bucket.Proofs

open Support.Expiring

theorem effective_eq_max (reply : Reply) : reply.effective = max reply.slot reply.serverNow := by
  unfold Reply.effective Reply.waitMs
  omega

def grants (replies : List Reply) : List Reply := replies.filter Reply.granted

theorem ediv_add_ediv_le {a b c T : Int} (hT : 1 ≤ T) :
    (c - b) / T + (b - a) / T ≤ (c - a) / T := by
  apply Int.le_ediv_of_mul_le (by omega)
  have h₁ := Int.ediv_mul_le (c - b) (show T ≠ 0 by omega)
  have h₂ := Int.ediv_mul_le (b - a) (show T ≠ 0 by omega)
  rw [Int.add_mul]
  omega

def allowance (cfg : Config) (x : Int) (data : Data) : Int :=
  data.tokens + cfg.refillAmount * ((x - data.slot) / cfg.timeBetweenSlots)

structure Advances (cfg : Config) (now : Int) (data next : Data) : Prop where
  slot : data.slot ≤ next.slot
  recent : now < next.slot + cfg.timeBetweenSlots
  available : 1 ≤ next.tokens
  allowed : ∀ x, next.slot ≤ x → allowance cfg x next ≤ allowance cfg x data

variable {data : Data} {now x : Int} {cfg : Config} {s : State}

theorem allowance_refilled :
    allowance cfg x (Data.refilled cfg now (some data)) ≤ allowance cfg x data := by
  simp only [Data.refilled]
  split
  · have hslots := ediv_add_ediv_le (a := data.slot) (b := now) (c := x) cfg.slot_pos
    have hmul := Int.mul_le_mul_of_nonneg_left hslots
      (show 0 ≤ cfg.refillAmount by have := cfg.refill_pos; omega)
    rw [Int.mul_add] at hmul
    have hmin := min_le_left
      (data.tokens + (now - data.slot) / cfg.timeBetweenSlots * cfg.refillAmount) cfg.capacity
    have hcomm := Int.mul_comm ((now - data.slot) / cfg.timeBetweenSlots) cfg.refillAmount
    simp only [allowance]
    omega
  · exact le_refl _

theorem advances_refilled (cfg : Config) (now : Int) (data : Data) :
    data.slot ≤ (Data.refilled cfg now (some data)).slot ∧
      now < (Data.refilled cfg now (some data)).slot + cfg.timeBetweenSlots := by
  have hT := cfg.slot_pos
  simp only [Data.refilled]
  split
  · rename_i hpassed
    have hle : 1 * cfg.timeBetweenSlots ≤ now - data.slot :=
      (Int.le_ediv_iff_mul_le (by omega)).mp hpassed
    constructor
    · dsimp only
      omega
    · dsimp only
      omega
  · rename_i hpassed
    have hlt : now - data.slot < 1 * cfg.timeBetweenSlots :=
      (Int.ediv_lt_iff_lt_mul (by omega)).mp (by omega)
    exact ⟨le_refl _, by omega⟩

theorem advances_reserved (hnonneg : 0 ≤ data.tokens)
    (hrecent : now < data.slot + cfg.timeBetweenSlots) :
    Advances cfg now data (data.reserved cfg) := by
  have hT := cfg.slot_pos
  have hrefill := cfg.refill_pos
  unfold Data.reserved
  split
  · refine ⟨by dsimp only; omega, by dsimp only; omega, hrefill, ?_⟩
    intro x hx
    have hshift : (x - data.slot) / cfg.timeBetweenSlots =
        (x - (data.slot + cfg.timeBetweenSlots)) / cfg.timeBetweenSlots + 1 := by
      rw [← Int.add_mul_ediv_right _ 1 (by omega)]
      congr 1
      omega
    simp only [allowance]
    rw [hshift, Int.mul_add]
    omega
  · exact ⟨le_refl _, hrecent, by omega, fun x _ => le_refl _⟩

theorem advances (cfg : Config) (now : Int) (hnonneg : 0 ≤ data.tokens) :
    Advances cfg now data ((Data.refilled cfg now (some data)).reserved cfg) := by
  have hkept : 0 ≤ (Data.refilled cfg now (some data)).tokens := by
    have hrefill := cfg.refill_pos
    have hcapacity := cfg.refill_le
    simp only [Data.refilled]
    split
    · rename_i hpassed
      have hmul : 0 ≤ (now - data.slot) / cfg.timeBetweenSlots * cfg.refillAmount :=
        Int.mul_nonneg hpassed.le (by omega)
      exact le_min (by omega) (by omega)
    · exact hnonneg
  obtain ⟨hslot, hrecent⟩ := advances_refilled cfg now data
  have hres := advances_reserved hkept hrecent
  exact ⟨hslot.trans hres.slot, hres.recent, hres.available,
    fun x hx => (hres.allowed x hx).trans allowance_refilled⟩

/-! ## One call -/

def Written (cfg : Config) (s : State) : Prop :=
  s.key = none ∨ ∃ data, s.key = Cell.set data ∧ 0 ≤ data.tokens ∧ data.tokens < cfg.capacity

structure Granted (cfg : Config) (now : Int) (s : State) (next : Data) : Prop where
  recent : now < next.slot + cfg.timeBetweenSlots
  available : 1 ≤ next.tokens
  capacity : next.tokens ≤ cfg.capacity
  advances : ∀ data, s.key = Cell.set data → Advances cfg now data next

theorem granted_of_written (h : Written cfg s) (now : Int) :
    Granted cfg now s ((Data.refilled cfg now s.key.get).reserved cfg) := by
  have hT := cfg.slot_pos
  have hpos := cfg.refill_pos
  have hrefill := cfg.refill_le
  rcases h with hnone | ⟨data, hdata, hnonneg, hspent⟩
  · have hfull : (Data.refilled cfg now s.key.get).reserved cfg = ⟨now, cfg.capacity⟩ := by
      simp only [hnone, get_none, Data.refilled, Data.reserved]
      rw [if_neg (by omega)]
    rw [hfull]
    exact ⟨by dsimp only; omega, by dsimp only; omega, le_refl _, by simp [hnone, Cell.set]⟩
  · rw [hdata, get_set]
    have hadv := advances cfg now hnonneg
    refine ⟨hadv.recent, hadv.available, ?_, ?_⟩
    · have hle : (Data.refilled cfg now (some data)).tokens ≤ cfg.capacity := by
        simp only [Data.refilled]
        split
        · exact min_le_right _ _
        · exact hspent.le
      unfold Data.reserved
      split
      · exact hrefill
      · exact hle
    · intro d hd
      obtain rfl : data = d := by simpa [hdata, Cell.set] using hd
      exact hadv

theorem serve_cases (h : Written cfg s) (call : Call) :
    (∃ slot, serve (bucketAcquireForever cfg) call s =
      (⟨false, slot, (s.now + call.elapsed : Nat)⟩, ⟨s.now + call.elapsed, s.key⟩)) ∨
    ∃ next, Granted cfg (s.now + call.elapsed : Nat) s next ∧
      serve (bucketAcquireForever cfg) call s =
        (⟨true, next.slot, (s.now + call.elapsed : Nat)⟩,
          ⟨s.now + call.elapsed, Cell.set { next with tokens := next.tokens - 1 }⟩) := by
  have hkeep : s.key.purge (s.now + call.elapsed) = s.key := by
    apply purge_of_live
    rcases h with hnone | ⟨data, hdata, -⟩
    · rw [hnone]
      exact live_none _
    · intro e he
      simp [hdata] at he
  have hgranted := granted_of_written h (s.now + call.elapsed : Nat)
  simp only [serve, hkeep, bucketAcquireForever, decision]
  split
  · rename_i heq
    split at heq
    · obtain ⟨rfl, -⟩ := Prod.mk.inj heq
      exact Or.inl ⟨_, rfl⟩
    · simp at heq
  · rename_i heq
    split at heq
    · simp at heq
    · obtain ⟨rfl, hdata⟩ := Prod.mk.inj heq
      obtain rfl := Option.some.inj hdata
      exact Or.inr ⟨_, hgranted, rfl⟩

theorem Granted.written {next : Data} (h : Granted cfg now s next) (clock : Nat) :
    Written cfg ⟨clock, Cell.set { next with tokens := next.tokens - 1 }⟩ := by
  have hcapacity := h.capacity
  have havailable := h.available
  exact Or.inr ⟨_, rfl, by dsimp only; omega, by dsimp only; omega⟩

/-! ## Every sequence of calls -/

theorem grants_cons_granted (slot serverNow : Int) (rs : List Reply) :
    grants (⟨true, slot, serverNow⟩ :: rs) = ⟨true, slot, serverNow⟩ :: grants rs := rfl

theorem grants_cons_rejected (slot serverNow : Int) (rs : List Reply) :
    grants (⟨false, slot, serverNow⟩ :: rs) = grants rs := rfl

theorem slot_le_of_mem_grants (h : Written cfg s) (hdata : s.key = Cell.set data)
    (calls : List Call) :
    ∀ r ∈ grants (replies (bucketAcquireForever cfg) s calls), data.slot ≤ r.slot := by
  induction calls generalizing s data with
  | nil => simp [replies, grants]
  | cons call calls ih =>
    rcases serve_cases h call with ⟨slot, hserve⟩ | ⟨next, hnext, hserve⟩
    · simp only [replies, hserve, grants_cons_rejected]
      exact ih (s := ⟨s.now + call.elapsed, s.key⟩) h hdata
    · simp only [replies, hserve, grants_cons_granted]
      intro r hr
      have hslot := (hnext.advances data hdata).slot
      rcases List.mem_cons.mp hr with rfl | hr
      · exact hslot
      · exact hslot.trans (ih (hnext.written _) rfl r hr)

theorem pairwise_slot (h : Written cfg s) (calls : List Call) :
    (grants (replies (bucketAcquireForever cfg) s calls)).Pairwise fun r r' =>
      r.slot ≤ r'.slot := by
  induction calls generalizing s with
  | nil => exact List.Pairwise.nil
  | cons call calls ih =>
    rcases serve_cases h call with ⟨slot, hserve⟩ | ⟨next, hnext, hserve⟩
    · simp only [replies, hserve, grants_cons_rejected]
      exact ih (s := ⟨s.now + call.elapsed, s.key⟩) h
    · simp only [replies, hserve, grants_cons_granted]
      apply List.Pairwise.cons
      · exact slot_le_of_mem_grants (hnext.written _) rfl calls
      · exact ih (hnext.written _)

def upTo (x : Int) (rs : List Reply) : List Reply :=
  (grants rs).filter fun r => decide (r.slot ≤ x)

theorem upTo_eq_nil (h : Written cfg s) (hdata : s.key = Cell.set data) (hx : x < data.slot)
    (calls : List Call) :
    upTo x (replies (bucketAcquireForever cfg) s calls) = [] := by
  apply List.filter_eq_nil_iff.mpr
  intro r hr
  have hslot := slot_le_of_mem_grants h hdata calls r hr
  simp only [decide_eq_true_eq]
  omega

theorem allowance_spent (cfg : Config) (x : Int) (next : Data) :
    allowance cfg x { next with tokens := next.tokens - 1 } = allowance cfg x next - 1 := by
  simp only [allowance]
  omega

theorem allowance_nonneg (h : Written cfg s) (hdata : s.key = Cell.set data) (hx : data.slot ≤ x) :
    0 ≤ allowance cfg x data := by
  have hnonneg : 0 ≤ data.tokens := by
    rcases h with hnone | ⟨d, hd, hnonneg, -⟩
    · simp [hnone, Cell.set] at hdata
    · obtain rfl : d = data := by simpa [hdata, Cell.set] using hd.symm
      exact hnonneg
  have hT := cfg.slot_pos
  have hrefill := cfg.refill_pos
  have hslots : 0 ≤ (x - data.slot) / cfg.timeBetweenSlots :=
    Int.ediv_nonneg (by omega) (by omega)
  have hmul := Int.mul_nonneg (show 0 ≤ cfg.refillAmount by omega) hslots
  unfold allowance
  omega

theorem length_upTo_le (h : Written cfg s) (hdata : s.key = Cell.set data) (hx : data.slot ≤ x)
    (calls : List Call) :
    ((upTo x (replies (bucketAcquireForever cfg) s calls)).length : Int) ≤
      allowance cfg x data := by
  induction calls generalizing s data with
  | nil => exact allowance_nonneg h hdata hx
  | cons call calls ih =>
    rcases serve_cases h call with ⟨slot, hserve⟩ | ⟨next, hnext, hserve⟩
    · simp only [replies, hserve, upTo, grants_cons_rejected]
      exact ih (s := ⟨s.now + call.elapsed, s.key⟩) h hdata hx
    · simp only [replies, hserve]
      by_cases hle : next.slot ≤ x
      · have hrest := ih (hnext.written (s.now + call.elapsed)) rfl hle
        have hallowed := (hnext.advances data hdata).allowed x hle
        have hspent := allowance_spent cfg x next
        simp only [upTo, grants_cons_granted] at hrest ⊢
        rw [List.filter_cons_of_pos (by simpa using hle), List.length_cons]
        push_cast
        omega
      · have hnil := upTo_eq_nil (hnext.written (s.now + call.elapsed)) rfl
          (show x < next.slot by omega) calls
        simp only [upTo, grants_cons_granted] at hnil ⊢
        rw [List.filter_cons_of_neg (by simpa using hle), hnil]
        exact allowance_nonneg h hdata hx

def within (a : Int) (w : Nat) (rs : List Reply) : List Reply :=
  (grants rs).filter fun r => decide (a ≤ r.effective ∧ r.effective ≤ a + w)

theorem length_within_le_upTo (a : Int) (w : Nat) (rs : List Reply) :
    (within a w rs).length ≤ (upTo (a + w) rs).length := by
  apply List.Sublist.length_le
  apply List.monotone_filter_right
  intro r hr
  rw [decide_eq_true_eq, effective_eq_max] at hr
  rw [decide_eq_true_eq]
  omega

theorem allowance_le_of_recent {a : Int} {w : Nat} {next : Data} (hnext : Granted cfg now s next)
    (heffective : a ≤ max next.slot now) :
    allowance cfg (a + w) next ≤
      cfg.capacity + cfg.refillAmount * ((w : Int) / cfg.timeBetweenSlots + 1) := by
  have hT := cfg.slot_pos
  have hrefill := cfg.refill_pos
  have hrecent := hnext.recent
  have hcapacity := hnext.capacity
  have hslots : (a + w - next.slot) / cfg.timeBetweenSlots ≤
      (w : Int) / cfg.timeBetweenSlots + 1 :=
    calc (a + w - next.slot) / cfg.timeBetweenSlots
        ≤ ((w : Int) + 1 * cfg.timeBetweenSlots) / cfg.timeBetweenSlots :=
          Int.ediv_le_ediv (by omega) (by omega)
      _ = (w : Int) / cfg.timeBetweenSlots + 1 := Int.add_mul_ediv_right _ 1 (by omega)
  have hmul := Int.mul_le_mul_of_nonneg_left hslots (show 0 ≤ cfg.refillAmount by omega)
  unfold allowance
  omega

theorem length_within_le (h : Written cfg s) (a : Int) (w : Nat) (calls : List Call) :
    ((within a w (replies (bucketAcquireForever cfg) s calls)).length : Int) ≤
      cfg.capacity + cfg.refillAmount * ((w : Int) / cfg.timeBetweenSlots + 1) := by
  induction calls generalizing s with
  | nil =>
    have hT := cfg.slot_pos
    have hrefill := cfg.refill_pos
    have hcapacity := cfg.refill_le
    have hslots : 0 ≤ (w : Int) / cfg.timeBetweenSlots := Int.ediv_nonneg (by omega) (by omega)
    have hmul := Int.mul_nonneg (show 0 ≤ cfg.refillAmount by omega)
      (show 0 ≤ (w : Int) / cfg.timeBetweenSlots + 1 by omega)
    simp only [replies, within, grants, List.filter_nil, List.length_nil]
    omega
  | cons call calls ih =>
    rcases serve_cases h call with ⟨slot, hserve⟩ | ⟨next, hnext, hserve⟩
    · simp only [replies, hserve, within, grants_cons_rejected]
      exact ih (s := ⟨s.now + call.elapsed, s.key⟩) h
    · have hrest := ih (hnext.written (s.now + call.elapsed))
      simp only [replies, hserve]
      simp only [within, grants_cons_granted] at hrest ⊢
      by_cases hin : a ≤ max next.slot (s.now + call.elapsed : Nat) ∧
          max next.slot (s.now + call.elapsed : Nat) ≤ a + w
      · -- the first grant of the window: what follows is paid for by the state it leaves
        have hcount := (Int.ofNat_le.mpr (length_within_le_upTo a w _)).trans
          (length_upTo_le (hnext.written (s.now + call.elapsed)) rfl
            (show next.slot ≤ a + w by omega) calls)
        have hbound := allowance_le_of_recent (w := w) hnext hin.1
        have hspent := allowance_spent cfg (a + w) next
        rw [List.filter_cons_of_pos (by simpa [effective_eq_max] using hin), List.length_cons]
        simp only [within] at hcount
        push_cast
        omega
      · rw [List.filter_cons_of_neg (by simpa [effective_eq_max] using hin)]
        exact hrest

/-- The rate bound of the token bucket, with the expiry of its key: the granted slots never go
back, and a window of `w` milliseconds holds at most `capacity` grants and one refill for each
slot length that is begun in it. -/
theorem rate_bounded (cfg : Config) (now : Nat) (calls : List Call) :
    (grants (replies (bucketAcquire cfg) (start now) calls)).Pairwise
        (fun r r' => r.slot ≤ r'.slot) ∧
      ∀ (a : Int) (w : Nat),
        ((within a w (replies (bucketAcquire cfg) (start now) calls)).length : Int) ≤
          cfg.capacity + cfg.refillAmount * ((w : Int) / cfg.timeBetweenSlots + 1) := by
  rw [(agree_start cfg now).replies calls]
  have hwritten : Written cfg (start now) := Or.inl rfl
  exact ⟨pairwise_slot hwritten calls, fun a w => length_within_le hwritten a w calls⟩

/-- A burst, and the calls that wait for the next two slots. -/
example : (within 0 1000 (replies (bucketAcquire ⟨3, 2, 1000, by decide, by decide, by decide⟩)
    (start 0) (List.replicate 9 ⟨0, 2000⟩))).map Reply.effective =
      [0, 0, 0, 1000, 1000] := by decide

end Orditect.Bucket.Proofs
