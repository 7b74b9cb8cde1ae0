import Mathlib.Data.List.TakeWhile
import Orditect.Bucket.Encoding
/-!
# What the state key keeps

The text holds whole numbers.  Where the time between two slots comes out as a whole number
of milliseconds, the doubles of the script are the integers of `Bucket.decision`, and these
survive.
-/

namespace Orditect.Bucket.Encoding.Proofs

open Support.Double Support.Expiring Support.JsonText

def ofWhole (data : Bucket.Data) : Data := ⟨data.slot, data.tokens⟩

theorem ofWhole_slot (data : Bucket.Data) : (ofWhole data).slot = data.slot := rfl

theorem ofWhole_tokens (data : Bucket.Data) : (ofWhole data).tokens = data.tokens := rfl

def whole (cfg : Config) {n : Int} (hn : 1 ≤ n) : Bucket.Config :=
  ⟨cfg.capacity, cfg.refillAmount, n, cfg.refill_pos, cfg.refill_le, hn⟩

/-- What a grant leaves in the key while clock and waits are below `2 ^ 50` milliseconds. -/
structure Sound (cfg : Config) (data : Bucket.Data) : Prop where
  slot_nonneg : 0 ≤ data.slot
  slot_le : data.slot ≤ 2 ^ 51
  tokens_nonneg : 0 ≤ data.tokens
  tokens_le : data.tokens ≤ cfg.capacity

variable {cfg : Config} {n now : Int} {data : Bucket.Data}

/-! ## The text -/

theorem truncate_intCast (n : Int) : truncate n = n := by simp [truncate]

theorem nonSpace_of_isNumeric {c : Char} (h : isNumeric c = true) : nonSpace c = true := by
  by_contra hspace
  simp only [nonSpace, decide_eq_true_eq, not_not, List.mem_cons, List.not_mem_nil, or_false]
    at hspace
  rcases hspace with rfl | rfl | rfl | rfl | rfl | rfl <;> exact absurd h (by decide)

theorem parse_format (h : Sound cfg data) :
    Data.parse (ofWhole data).format = some (ofWhole data) := by
  have hword : ∀ (n : Int), ∀ c ∈ intText n, nonSpace c = true := fun n c hc =>
    nonSpace_of_isNumeric (NumberText.numeric n c hc)
  have hblank : ¬nonSpace ' ' = true := by decide
  have hslot : |data.slot| < 2 ^ 53 := by
    have := h.slot_nonneg; have := h.slot_le
    rw [abs_lt]
    omega
  have htokens : |data.tokens| < 2 ^ 53 := by
    have := h.tokens_nonneg; have := h.tokens_le; have := cfg.capacity_lt
    rw [abs_lt]
    omega
  unfold Data.format Data.parse ofWhole
  rw [truncate_intCast, truncate_intCast, List.dropWhile_append_of_pos (hword _),
    List.takeWhile_append_of_pos (hword _), List.dropWhile_cons_of_neg hblank,
    List.takeWhile_cons_of_neg hblank, List.append_nil]
  simp only
  rw [List.takeWhile_eq_self_iff.mpr (hword _), readInt_intText, readInt_intText]
  simp [double_intCast hslot, double_intCast htokens]

/-! ## The integers of the script -/

theorem double_sub {a b : Int} (h : |a - b| < 2 ^ 53) : double (a - b : ℚ) = (a - b : Int) := by
  rw [← Int.cast_sub, double_intCast h]

theorem double_add {a b : Int} (h : |a + b| < 2 ^ 53) : double (a + b : ℚ) = (a + b : Int) := by
  rw [← Int.cast_add, double_intCast h]

/-- Where the sum is rounded, the capacity is less anyway. -/
theorem min_refill {tokens amount capacity : Int} (htokens : 0 ≤ tokens) (hamount : 0 ≤ amount)
    (hcapacity : capacity < 2 ^ 53) :
    min (double (tokens + double amount)) capacity = (min (tokens + amount) capacity : Int) := by
  by_cases hsmall : tokens + amount < 2 ^ 53
  · have ha : |amount| < 2 ^ 53 := by rw [abs_lt]; omega
    rw [double_intCast ha, double_add (by rw [abs_lt]; omega), Int.cast_min]
  · have hlarge : ((2 ^ 53 : Int) : ℚ) ≤ tokens + double amount := by
      by_cases ha : amount < 2 ^ 53
      · rw [double_intCast (by rw [abs_lt]; omega)]
        exact_mod_cast not_lt.mp hsmall
      · have hdouble := le_double (n := 2 ^ 53) (x := amount) (by norm_num) le_rfl
          (by exact_mod_cast not_lt.mp ha)
        have hnonneg : (0 : ℚ) ≤ tokens := by exact_mod_cast htokens
        linarith
    have hcap : (capacity : ℚ) ≤ ((2 ^ 53 : Int) : ℚ) := by exact_mod_cast hcapacity.le
    rw [min_eq_right (hcap.trans (le_double (by norm_num) le_rfl hlarge)), min_eq_right (by omega)]

section

variable (hn : 1 ≤ n) (hsize : n ≤ 2 ^ 50) (htime : cfg.timeBetweenSlots = n)
include hn hsize htime

theorem floor_slotsPassed (hnow : 0 ≤ now) (hclock : now ≤ 2 ^ 50) (h : Sound cfg data) :
    max 0 ⌊double (double ((now : ℚ) - data.slot) / cfg.timeBetweenSlots)⌋ =
      max 0 ((now - data.slot) / n) := by
  have hslot := h.slot_nonneg
  have hslotle := h.slot_le
  rw [htime, double_sub (by rw [abs_lt]; omega)]
  rcases lt_or_ge now data.slot with hahead | hbehind
  · have hdouble : double (((now - data.slot : Int) : ℚ) / n) ≤ 0 := by
      refine double_nonpos (div_nonpos_of_nonpos_of_nonneg ?_ ?_)
      · exact_mod_cast (by omega : now - data.slot ≤ 0)
      · exact_mod_cast (by omega : 0 ≤ n)
    rw [max_eq_left (by exact_mod_cast (Int.floor_le _).trans hdouble),
      max_eq_left (Int.ediv_neg_of_neg_of_pos (by omega) (by omega)).le]
  · rw [floor_double_div (by omega) (by omega) (by omega) (by omega)]

theorem refilled_ofWhole (hnow : 0 ≤ now) (hclock : now ≤ 2 ^ 50) (h : Sound cfg data) :
    (ofWhole data).refilled cfg now =
      ofWhole (Bucket.Data.refilled (whole cfg hn) now (some data)) := by
  have hpassed := floor_slotsPassed hn hsize htime hnow hclock h
  unfold Data.refilled Bucket.Data.refilled
  dsimp only [ofWhole]
  generalize ⌊double (double ((now : ℚ) - data.slot) / cfg.timeBetweenSlots)⌋ = passed at hpassed ⊢
  change max 0 passed = max 0 ((now - data.slot) / (whole cfg hn).timeBetweenSlots) at hpassed
  generalize (now - data.slot) / (whole cfg hn).timeBetweenSlots = slots at hpassed ⊢
  by_cases hpos : 0 < slots
  · obtain rfl : passed = slots := by omega
    have hamount : 0 ≤ passed * cfg.refillAmount :=
      mul_nonneg hpos.le (by have := cfg.refill_pos; omega)
    rw [if_pos hpos, if_pos hpos, ← Int.cast_mul,
      min_refill h.tokens_nonneg hamount cfg.capacity_lt]
    rfl
  · rw [if_neg hpos, if_neg (by omega)]

theorem reserved_ofWhole (h : Sound cfg data) :
    (ofWhole data).reserved cfg = ofWhole (data.reserved (whole cfg hn)) := by
  have hnext : double ((data.slot : ℚ) + n) = (data.slot + n : Int) := by
    have := h.slot_nonneg
    have := h.slot_le
    exact double_add (by rw [abs_lt]; omega)
  unfold Data.reserved Bucket.Data.reserved
  have hcast : (ofWhole data).tokens ≤ 0 ↔ data.tokens ≤ 0 := Int.cast_nonpos
  by_cases hspent : data.tokens ≤ 0
  · rw [if_pos (hcast.mpr hspent), if_pos hspent, htime]
    exact congrArg (Data.mk · _) hnext
  · rw [if_neg (mt hcast.mp hspent), if_neg hspent]

omit hsize htime in
theorem sound_refilled (hnow : 0 ≤ now) (hclock : now ≤ 2 ^ 50) {stored : Option Bucket.Data}
    (h : ∀ d ∈ stored, Sound cfg d) :
    Sound cfg (Bucket.Data.refilled (whole cfg hn) now stored) := by
  have hrefill := cfg.refill_pos
  have hle := cfg.refill_le
  cases stored with
  | none =>
    refine ⟨hnow, ?_, ?_, le_rfl⟩
    · change now ≤ _
      omega
    · change 0 ≤ cfg.capacity
      omega
  | some data =>
    have hdata := h data rfl
    unfold Bucket.Data.refilled
    dsimp only
    split
    · rename_i hpassed
      refine ⟨hnow, ?_, ?_, min_le_right _ _⟩
      · change now ≤ _
        omega
      · have hamount : 0 ≤ _ * cfg.refillAmount := mul_nonneg hpassed.le (by omega)
        have htokens := hdata.tokens_nonneg
        exact le_min (add_nonneg htokens hamount) (by change 0 ≤ cfg.capacity; omega)
    · exact hdata

omit htime in
theorem reserved_bounds (h : Sound cfg data) :
    0 ≤ (data.reserved (whole cfg hn)).slot ∧
      (data.reserved (whole cfg hn)).slot ≤ 2 ^ 51 + 2 ^ 50 ∧
      1 ≤ (data.reserved (whole cfg hn)).tokens ∧
      (data.reserved (whole cfg hn)).tokens ≤ cfg.capacity := by
  obtain ⟨hslot, hslotle, -, htokensle⟩ := h
  unfold Bucket.Data.reserved
  split
  · exact ⟨add_nonneg hslot (by change 0 ≤ n; omega), add_le_add hslotle hsize, cfg.refill_pos,
      cfg.refill_le⟩
  · exact ⟨hslot, by omega, by omega, htokensle⟩

/-- On whole slots the script decides as it does on integers. -/
theorem decision_ofWhole (hnow : 0 ≤ now) (hclock : now ≤ 2 ^ 50) {stored : Option Bucket.Data}
    (h : ∀ d ∈ stored, Sound cfg d) (maxSleepMs : Int) :
    decision cfg maxSleepMs now (stored.map fun d => (ofWhole d).format) =
      some ((Bucket.decision (whole cfg hn) maxSleepMs now stored).map id
        (Option.map ofWhole)) := by
  have hsound := sound_refilled hn hnow hclock h
  have hfound : Data.found cfg now (stored.map fun d => (ofWhole d).format) =
      some (ofWhole (Bucket.Data.refilled (whole cfg hn) now stored)) := by
    cases stored with
    | none => rfl
    | some data =>
      have hdata := h data rfl
      rw [Option.map_some, Data.found, parse_format hdata, Option.map_some,
        refilled_ofWhole hn hsize htime hnow hclock hdata]
  rw [decision, hfound, Option.map_some, reserved_ofWhole hn hsize htime hsound]
  obtain ⟨hslot, hslotle, htokens, htokensle⟩ := reserved_bounds hn hsize hsound
  unfold Bucket.decision
  generalize (Bucket.Data.refilled (whole cfg hn) now stored).reserved (whole cfg hn) = next at *
  have hwait : double ((next.slot : ℚ) - now) = (next.slot - now : Int) :=
    double_sub (by rw [abs_lt]; omega)
  have hspend : double ((next.tokens : ℚ) - 1) = (next.tokens - 1 : Int) := by
    have := cfg.capacity_lt
    rw [← Int.cast_one, double_sub (by rw [abs_lt]; omega)]
  simp only [ofWhole_slot, ofWhole_tokens, hwait, hspend, gt_iff_lt, Int.cast_lt, truncate_intCast]
  split <;> rfl

/-! ## Whole runs -/

/-- The key has what a grant left there. -/
def Kept (cfg : Config) (key : Cell (List Char)) : Prop :=
  ∃ stored : Option Bucket.Data, key.get = stored.map (fun d => (ofWhole d).format) ∧
    ∀ d ∈ stored, Sound cfg d

omit hn hsize htime in
theorem Kept.purge {key : Cell (List Char)} (h : Kept cfg key) (now : Nat) :
    Kept cfg (key.purge now) := by
  rcases purge_eq_or now key with ⟨hkeep, -⟩ | ⟨hdrop, -⟩
  · rwa [hkeep]
  · rw [hdrop]
    exact ⟨none, rfl, by simp⟩

variable {s : State} {call : Call} {reply : Reply} {data : Data}

theorem decided_whole (h : Kept cfg s.key) (hclock : s.now + call.elapsed ≤ 2 ^ 50)
    (hsleep : call.maxSleepMs ≤ 2 ^ 50) (hgrant : decided cfg call s = some (reply, some data)) :
    ∃ next, data = ofWhole next ∧ Sound cfg next := by
  obtain ⟨stored, hkey, hstored⟩ := h.purge (s.now + call.elapsed)
  have hclock' : ((s.now + call.elapsed : Nat) : Int) ≤ 2 ^ 50 := by exact_mod_cast hclock
  rw [decided, hkey, ← Int.cast_natCast, decision_ofWhole hn hsize htime (by omega) hclock' hstored]
    at hgrant
  have hbounds := reserved_bounds hn hsize (sound_refilled hn (by omega) hclock' hstored)
  unfold Bucket.decision at hgrant
  generalize (Bucket.Data.refilled _ _ stored).reserved (whole cfg hn) = next at hgrant hbounds
  dsimp only at hgrant
  split at hgrant
  · simp at hgrant
  · simp only [Prod.map_apply, Option.map_some, Option.some.injEq, Prod.mk.injEq] at hgrant
    refine ⟨_, hgrant.2.symm, ?_⟩
    exact ⟨hbounds.1, by simp only; omega, by simp only; omega, by simp only; omega⟩

omit hn hsize htime in
theorem now_serve (cfg : Config) (s : State) (call : Call) :
    (serve cfg s call).now = s.now + call.elapsed := by
  unfold serve
  dsimp only
  split <;> rfl

theorem kept_serve (h : Kept cfg s.key) (hclock : s.now + call.elapsed ≤ 2 ^ 50)
    (hsleep : call.maxSleepMs ≤ 2 ^ 50) : Kept cfg (serve cfg s call).key := by
  unfold serve
  dsimp only
  split
  · rename_i hgrant
    obtain ⟨next, rfl, hnext⟩ := decided_whole hn hsize htime h hclock hsleep hgrant
    exact ⟨some next, rfl, by simpa using hnext⟩
  · exact h.purge _

theorem kept_after {start : Nat} {calls : List Call}
    (hclock : (after cfg start calls).now ≤ 2 ^ 50)
    (hsleep : ∀ call ∈ calls, call.maxSleepMs ≤ 2 ^ 50) : Kept cfg (after cfg start calls).key := by
  induction calls using List.reverseRecOn with
  | nil => exact ⟨none, rfl, by simp⟩
  | append_singleton calls call ih =>
    rw [after, List.foldl_append] at hclock ⊢
    have hnow : (after cfg start calls).now + call.elapsed ≤ 2 ^ 50 := by
      rwa [← now_serve cfg]
    obtain ⟨hsleep, hlast⟩ := List.forall_mem_append.mp hsleep
    have hkept := ih (le_trans (Nat.le_add_right _ _) hnow) hsleep
    exact kept_serve hn hsize htime hkept hnow (hlast call (by simp))

end

theorem key_serve {cfg : Config} {s : State} {call : Call} {reply : Reply} {data : Data}
    (h : decided cfg call s = some (reply, some data)) :
    (serve cfg s call).key.get = some data.format := by
  rw [serve, h]
  rfl

/-- While the clock and the waits stay below `2 ^ 50` milliseconds, the state survives its
encoding if the time between two slots comes out as a whole number of them. -/
theorem state_survives (cfg : Config) {n : Int} (hn : 1 ≤ n) (hsize : n ≤ 2 ^ 50)
    (htime : cfg.timeBetweenSlots = n) {now : Nat} {calls : List Call} {call : Call}
    {reply : Reply} {data : Data}
    (hclock : (after cfg now calls).now + call.elapsed ≤ 2 ^ 50)
    (hsleep : ∀ c ∈ call :: calls, c.maxSleepMs ≤ 2 ^ 50)
    (h : decided cfg call (after cfg now calls) = some (reply, some data)) :
    (serve cfg (after cfg now calls) call).key.get.bind Data.parse = some data := by
  obtain ⟨hlast, hsleep⟩ := List.forall_mem_cons.mp hsleep
  have hkept := kept_after hn hsize htime (le_trans (Nat.le_add_right _ _) hclock) hsleep
  obtain ⟨next, rfl, hnext⟩ := decided_whole hn hsize htime hkept hclock hlast h
  rw [key_serve h, Option.bind_some, parse_format hnext]

def quarter : Config := ⟨2, 1, 1 / 4, by decide, by decide, by decide, by norm_num⟩

theorem state_survives_quarter :
    (serve quarter (after quarter 1000 [⟨0, 0⟩, ⟨0, 0⟩]) ⟨100, 500⟩).key.get.bind Data.parse =
      some ⟨1250, 0⟩ :=
  state_survives quarter (n := 250) (by decide) (by decide) (by decide +kernel)
    (by decide +kernel) (by decide) (by decide +kernel :
      decided quarter ⟨100, 500⟩ (after quarter 1000 [⟨0, 0⟩, ⟨0, 0⟩]) =
        some (⟨true, 1250, 1100⟩, some ⟨1250, 0⟩))

def fractional : Config := ⟨1, 1, 3 / 2000, by decide, by decide, by decide, by norm_num⟩

/-- The second call at 0 is granted the slot at 1.5 ms, and the key says 1 ms. -/
theorem slot_truncated :
    decided fractional ⟨0, 2⟩ (after fractional 0 [⟨0, 2⟩]) =
        some (⟨true, 1, 0⟩, some ⟨3 / 2, 0⟩) ∧
      (serve fractional (after fractional 0 [⟨0, 2⟩]) ⟨0, 2⟩).key.get.bind Data.parse =
        some ⟨1, 0⟩ := by
  decide +kernel

end Orditect.Bucket.Encoding.Proofs
