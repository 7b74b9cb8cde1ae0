import Mathlib.Data.Option.Basic
/-!
# Keys with a time to live

A cell holds a value and, possibly, the instant (in milliseconds) at which the
server drops it.  `ttl` is the reply of the integer-second query: the remaining
milliseconds rounded to the nearest second.  The owner of a cell calls `purge`
when its clock moves, so a cell that is present is one the server still serves.
-/

namespace Orditect.Support.Expiring

variable {α : Type*}

structure Entry (α : Type*) where
  value : α
  expireAt : Option Nat

/-- A key of the server: absent, or a value with its expiry instant. -/
abbrev Cell (α : Type*) := Option (Entry α)

namespace Cell

def get (c : Cell α) : Option α := c.map Entry.value

/-- The instant the cell is dropped at; `none` for an absent or persistent cell. -/
def deadline (c : Cell α) : Option Nat := c.bind Entry.expireAt

def set (v : α) : Cell α := some ⟨v, none⟩

def setEx (now sec : Nat) (v : α) : Cell α := some ⟨v, some (now + sec * 1000)⟩

/-- Replace the value in place and keep the time to live, as the commands on
aggregates do. -/
def modify (v : α) (c : Cell α) : Cell α := some ⟨v, c.deadline⟩

/-- `EXPIRE`: a no-op on an absent key, a deletion when no time is left. -/
def expire (now sec : Nat) (c : Cell α) : Cell α :=
  if sec = 0 then none else c.map fun e => ⟨e.value, some (now + sec * 1000)⟩

/-- `TTL`: `-2` for an absent key, `-1` for a persistent one, otherwise the
remaining milliseconds plus 500, divided by 1000. -/
def ttl (now : Nat) : Cell α → Int
  | none => -2
  | some ⟨_, none⟩ => -1
  | some ⟨_, some e⟩ => ((e - now + 500) / 1000 : Nat)

/-- Raise the time to live to `sec` when it is absent or reads as shorter. -/
def bump (now sec : Nat) (c : Cell α) : Cell α :=
  if c.ttl now = -1 ∨ c.ttl now < sec then c.expire now sec else c

def purge (now : Nat) : Cell α → Cell α
  | some ⟨v, some e⟩ => if e ≤ now then none else some ⟨v, some e⟩
  | c => c

def Live (now : Nat) (c : Cell α) : Prop := ∀ e, c.deadline = some e → now < e

end Cell

open Cell

variable {c : Cell α} {now sec : Nat}

@[simp] theorem get_none : Cell.get (none : Cell α) = none := rfl
@[simp] theorem get_some (e : Entry α) : Cell.get (some e) = some e.value := rfl
theorem get_eq_none : c.get = none ↔ c = none := by
  cases c <;> simp

@[simp] theorem deadline_none : Cell.deadline (none : Cell α) = none := rfl
@[simp] theorem deadline_some (e : Entry α) : Cell.deadline (some e) = e.expireAt := rfl
@[simp] theorem get_set (v : α) : (Cell.set v).get = some v := rfl
@[simp] theorem deadline_set (v : α) : (Cell.set v).deadline = none := rfl
@[simp] theorem get_setEx (now sec : Nat) (v : α) : (Cell.setEx now sec v).get = some v := rfl
@[simp] theorem deadline_setEx (now sec : Nat) (v : α) :
    (Cell.setEx now sec v).deadline = some (now + sec * 1000) := rfl
@[simp] theorem get_modify (v : α) (c : Cell α) : (c.modify v).get = some v := rfl
@[simp] theorem deadline_modify (v : α) (c : Cell α) : (c.modify v).deadline = c.deadline := rfl

theorem get_expire (hsec : 0 < sec) (c : Cell α) :
    (c.expire now sec).get = c.get := by
  simp only [Cell.expire, if_neg (Nat.pos_iff_ne_zero.mp hsec)]
  cases c <;> rfl

theorem deadline_expire (hsec : 0 < sec) (hc : c.get ≠ none) :
    (c.expire now sec).deadline = some (now + sec * 1000) := by
  simp only [Cell.expire, if_neg (Nat.pos_iff_ne_zero.mp hsec)]
  cases c with
  | none => exact absurd rfl hc
  | some e => rfl

theorem get_bump (hsec : 0 < sec) (c : Cell α) :
    (c.bump now sec).get = c.get := by
  unfold Cell.bump
  split
  · exact get_expire hsec c
  · rfl

theorem ttl_of_deadline {d : Nat} (h : c.deadline = some d) :
    c.ttl now = ((d - now + 500) / 1000 : Nat) := by
  match c, h with
  | none, h | some ⟨v, none⟩, h => simp at h
  | some ⟨v, some e⟩, h =>
    obtain rfl : e = d := by simpa using h
    rfl

/-- A freshly `SET` key has no time to live, so the bump arms the full one. -/
theorem bump_set (hsec : 0 < sec) (v : α) :
    (Cell.set v).bump now sec = Cell.setEx now sec v := by
  simp [Cell.bump, Cell.set, Cell.ttl, Cell.expire, Cell.setEx, Nat.pos_iff_ne_zero.mp hsec]

/-- After a bump the key lives at least `sec` seconds, less the half second the
rounded reading may hide. -/
theorem le_deadline_bump (hsec : 0 < sec) (hc : c.get ≠ none) :
    ∃ e, (c.bump now sec).deadline = some e ∧ now + sec * 1000 ≤ e + 500 := by
  unfold Cell.bump
  split
  · exact ⟨_, deadline_expire hsec hc, by omega⟩
  · rename_i h
    match c, hc, h with
    | none, hc, _ => exact absurd rfl hc
    | some ⟨v, none⟩, _, h => simp [Cell.ttl] at h
    | some ⟨v, some e⟩, _, h =>
      refine ⟨e, rfl, ?_⟩
      simp only [Cell.ttl, not_or, Int.not_lt] at h
      omega

theorem deadline_le_bump (hsec : 0 < sec) {e : Nat} (he : c.deadline = some e) :
    ∃ e', (c.bump now sec).deadline = some e' ∧ e ≤ e' := by
  unfold Cell.bump
  split
  · rename_i h
    match c, he, h with
    | none, he, _ | some ⟨v, none⟩, he, _ => simp at he
    | some ⟨v, some d⟩, he, h =>
      obtain rfl : d = e := by simpa using he
      refine ⟨now + sec * 1000, deadline_expire hsec (by simp), ?_⟩
      simp only [Cell.ttl] at h
      omega
  · exact ⟨e, he, Nat.le_refl e⟩

@[simp] theorem purge_none (now : Nat) : Cell.purge now (none : Cell α) = none := rfl

theorem live_none (now : Nat) : Cell.Live now (none : Cell α) := by
  intro e he
  simp at he

theorem purge_of_live (h : c.Live now) : c.purge now = c := by
  match c, h with
  | none, _ | some ⟨v, none⟩, _ => rfl
  | some ⟨v, some e⟩, h =>
    have hlt : now < e := h e rfl
    simp [Cell.purge, hlt]

theorem purge_of_lapsed {e : Nat} (he : c.deadline = some e) (hle : e ≤ now) :
    c.purge now = none := by
  match c, he with
  | none, he | some ⟨v, none⟩, he => simp at he
  | some ⟨v, some d⟩, he =>
    obtain rfl : d = e := by simpa using he
    simp [Cell.purge, hle]

/-- Purging leaves the cell alone or drops it whole. -/
theorem purge_eq_or (now : Nat) (c : Cell α) :
    (c.purge now = c ∧ c.Live now) ∨
      (c.purge now = none ∧ ∃ e, c.deadline = some e ∧ e ≤ now) := by
  match c with
  | none | some ⟨v, none⟩ => exact Or.inl ⟨rfl, fun e he => by simp at he⟩
  | some ⟨v, some e⟩ =>
    by_cases h : e ≤ now
    · exact Or.inr ⟨by simp [Cell.purge, h], e, rfl, h⟩
    · refine Or.inl ⟨by simp [Cell.purge, h], fun d hd => ?_⟩
      obtain rfl : e = d := by simpa using hd
      omega

theorem live_purge (now : Nat) (c : Cell α) : (c.purge now).Live now := by
  rcases purge_eq_or now c with ⟨hkeep, hlive⟩ | ⟨hdrop, -⟩
  · rw [hkeep]
    exact hlive
  · rw [hdrop]
    exact live_none now

end Orditect.Support.Expiring
