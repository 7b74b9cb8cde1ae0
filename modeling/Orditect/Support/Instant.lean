import Mathlib.Data.String.Basic
/-!
# Instants and their text

A UTC `datetime` of Python.  Two of them compare field by field, from the year down to the
microsecond.  As text an instant has no fraction when its microsecond is zero.
-/

namespace Orditect.Support.Instant

def isLeap (year : Nat) : Bool := year % 4 == 0 && (year % 100 != 0 || year % 400 == 0)

def daysInMonth (year month : Nat) : Nat :=
  if month = 2 then if isLeap year then 29 else 28
  else if month ∈ [4, 6, 9, 11] then 30 else 31

structure DateTime where
  year : Nat
  month : Nat
  day : Nat
  hour : Nat
  minute : Nat
  second : Nat
  microsecond : Nat
  year_mem : 1 ≤ year ∧ year ≤ 9999
  month_mem : 1 ≤ month ∧ month ≤ 12
  day_mem : 1 ≤ day ∧ day ≤ daysInMonth year month
  hour_lt : hour < 24
  minute_lt : minute < 60
  second_lt : second < 60
  microsecond_lt : microsecond < 1000000
  deriving DecidableEq

theorem daysInMonth_le (year month : Nat) : daysInMonth year month ≤ 31 := by
  unfold daysInMonth
  split_ifs <;> decide

variable {a b : DateTime} {n width : Nat} {c : Char} {m : Nat}

namespace DateTime

theorem day_le (d : DateTime) : d.day ≤ 31 := d.day_mem.2.trans (daysInMonth_le _ _)

def wholeSecond (d : DateTime) : Nat :=
  ((((d.year * 13 + d.month) * 32 + d.day) * 24 + d.hour) * 60 + d.minute) * 60 + d.second

def stamp (d : DateTime) : Nat := d.wholeSecond * 1000000 + d.microsecond

theorem wholeSecond_inj (h : a.wholeSecond = b.wholeSecond) :
    a.year = b.year ∧ a.month = b.month ∧ a.day = b.day ∧ a.hour = b.hour ∧
      a.minute = b.minute ∧ a.second = b.second := by
  have := a.month_mem; have := b.month_mem
  have := a.day_le; have := b.day_le
  have := a.hour_lt; have := b.hour_lt
  have := a.minute_lt; have := b.minute_lt
  have := a.second_lt; have := b.second_lt
  unfold wholeSecond at h
  omega

theorem stamp_injective : Function.Injective stamp := by
  intro a b h
  have hmicro := a.microsecond_lt
  have hmicro' := b.microsecond_lt
  unfold stamp at h
  obtain ⟨h₁, h₂, h₃, h₄, h₅, h₆⟩ :=
    wholeSecond_inj (show a.wholeSecond = b.wholeSecond by omega)
  have h₇ : a.microsecond = b.microsecond := by omega
  cases a
  cases b
  simp only [mk.injEq]
  exact ⟨h₁, h₂, h₃, h₄, h₅, h₆, h₇⟩

instance : LinearOrder DateTime := LinearOrder.lift' stamp stamp_injective

theorem lt_iff : a < b ↔ a.stamp < b.stamp := Iff.rfl

def newYear (microsecond : Nat) : DateTime :=
  ⟨2026, 1, 1, 0, 0, 0, microsecond % 1000000, by decide, by decide, by decide, by decide,
    by decide, by decide, Nat.mod_lt _ (by decide)⟩

end DateTime

/-! ## Text -/

def pad : Nat → Nat → List Char
  | 0, _ => []
  | width + 1, n => pad width (n / 10) ++ [Nat.digitChar (n % 10)]

namespace DateTime

def secondText (d : DateTime) : List Char :=
  pad 4 d.year ++ '-' :: (pad 2 d.month ++ '-' :: (pad 2 d.day ++ 'T' :: (pad 2 d.hour ++
    ':' :: (pad 2 d.minute ++ ':' :: pad 2 d.second))))

def fractionText (d : DateTime) : List Char :=
  if d.microsecond = 0 then [] else '.' :: pad 6 d.microsecond

/-- As a model is dumped in JSON mode. -/
def iso (d : DateTime) : String := String.ofList (d.secondText ++ (d.fractionText ++ ['Z']))

def isoformat (d : DateTime) : String :=
  String.ofList (d.secondText ++ (d.fractionText ++ ['+', '0', '0', ':', '0', '0']))

end DateTime

/-! ## Reading an instant -/

def readDigit (c : Char) : Option Nat :=
  if '0' ≤ c ∧ c ≤ '9' then some (c.toNat - 48) else none

def readPad : Nat → Nat → List Char → Option (Nat × List Char)
  | 0, value, text => some (value, text)
  | width + 1, value, c :: text => (readDigit c).bind fun d => readPad width (10 * value + d) text
  | _, _, [] => none

def expect (c : Char) : List Char → Option (List Char)
  | d :: text => if d = c then some text else none
  | [] => none

def readFraction : List Char → Option (Nat × List Char)
  | '.' :: text => readPad 6 0 text
  | text => some (0, text)

namespace DateTime

def ofFields (year month day hour minute second microsecond : Nat) : Option DateTime :=
  if h : (1 ≤ year ∧ year ≤ 9999) ∧ (1 ≤ month ∧ month ≤ 12) ∧
      (1 ≤ day ∧ day ≤ daysInMonth year month) ∧ hour < 24 ∧ minute < 60 ∧ second < 60 ∧
      microsecond < 1000000 then
    some ⟨year, month, day, hour, minute, second, microsecond, h.1, h.2.1, h.2.2.1, h.2.2.2.1,
      h.2.2.2.2.1, h.2.2.2.2.2.1, h.2.2.2.2.2.2⟩
  else none

/-- `datetime.fromisoformat`, on the form that a model is dumped in. -/
def parse (text : String) : Option DateTime := do
  let (year, s) ← readPad 4 0 text.toList
  let s ← expect '-' s
  let (month, s) ← readPad 2 0 s
  let s ← expect '-' s
  let (day, s) ← readPad 2 0 s
  let s ← expect 'T' s
  let (hour, s) ← readPad 2 0 s
  let s ← expect ':' s
  let (minute, s) ← readPad 2 0 s
  let s ← expect ':' s
  let (second, s) ← readPad 2 0 s
  let (microsecond, s) ← readFraction s
  let s ← expect 'Z' s
  if s = [] then ofFields year month day hour minute second microsecond else none

end DateTime

theorem readDigit_digitChar {d : Nat} (h : d < 10) : readDigit (Nat.digitChar d) = some d := by
  revert d
  decide

@[simp] theorem length_pad (width n : Nat) : (pad width n).length = width := by
  induction width generalizing n with
  | zero => rfl
  | succ width ih => simp [pad, ih]

theorem readPad_append {value : Nat} {text : List Char}
    (h : readPad width value text = some (n, [])) (rest : List Char) :
    readPad width value (text ++ rest) = some (n, rest) := by
  induction width generalizing value text with
  | zero =>
    obtain ⟨rfl, rfl⟩ := Prod.mk.inj (Option.some.inj h)
    rfl
  | succ width ih =>
    cases text with
    | nil => simp [readPad] at h
    | cons c text =>
      rw [readPad] at h
      obtain ⟨d, hd, hread⟩ := Option.bind_eq_some_iff.mp h
      rw [List.cons_append, readPad, hd, Option.bind_some, ih hread]

theorem readPad_concat {value d : Nat} {text : List Char}
    (h : readPad width value text = some (n, [])) (hd : readDigit c = some d) :
    readPad (width + 1) value (text ++ [c]) = some (10 * n + d, []) := by
  induction width generalizing value text with
  | zero =>
    obtain ⟨rfl, rfl⟩ := Prod.mk.inj (Option.some.inj h)
    simp [readPad, hd]
  | succ width ih =>
    cases text with
    | nil => simp [readPad] at h
    | cons e text =>
      rw [readPad] at h
      obtain ⟨m, hm, hread⟩ := Option.bind_eq_some_iff.mp h
      rw [List.cons_append, readPad, hm, Option.bind_some, ih hread]

theorem readPad_pad (width : Nat) (h : n < 10 ^ width) :
    readPad width 0 (pad width n) = some (n, []) := by
  induction width generalizing n with
  | zero =>
    obtain rfl : n = 0 := by simpa using h
    rfl
  | succ width ih =>
    have hdiv : n / 10 < 10 ^ width := by
      rw [pow_succ] at h
      omega
    rw [pad, readPad_concat (ih hdiv) (readDigit_digitChar (by omega))]
    congr 2
    omega

@[simp] theorem expect_cons (c : Char) (text : List Char) : expect c (c :: text) = some text :=
  if_pos rfl

namespace DateTime

theorem readFraction_fractionText (d : DateTime) :
    readFraction (d.fractionText ++ ['Z']) = some (d.microsecond, ['Z']) := by
  unfold fractionText
  split
  next hzero => rw [hzero]; rfl
  next => exact readPad_append (readPad_pad 6 d.microsecond_lt) ['Z']

theorem parse_iso (d : DateTime) : parse d.iso = some d := by
  have hyear := readPad_append (readPad_pad 4
    (show d.year < 10 ^ 4 by have := d.year_mem; omega))
  have hmonth := readPad_append (readPad_pad 2
    (show d.month < 10 ^ 2 by have := d.month_mem; omega))
  have hday := readPad_append (readPad_pad 2
    (show d.day < 10 ^ 2 by have := d.day_le; omega))
  have hhour := readPad_append (readPad_pad 2
    (show d.hour < 10 ^ 2 by have := d.hour_lt; omega))
  have hminute := readPad_append (readPad_pad 2
    (show d.minute < 10 ^ 2 by have := d.minute_lt; omega))
  have hsecond := readPad_append (readPad_pad 2
    (show d.second < 10 ^ 2 by have := d.second_lt; omega))
  have hfields : ofFields d.year d.month d.day d.hour d.minute d.second d.microsecond = some d :=
    dif_pos ⟨d.year_mem, d.month_mem, d.day_mem, d.hour_lt, d.minute_lt, d.second_lt,
      d.microsecond_lt⟩
  simp only [parse, iso, secondText, String.toList_ofList, List.append_assoc, List.cons_append,
    hyear, hmonth, hday, hhour, hminute, hsecond, expect_cons, readFraction_fractionText,
    Option.bind_eq_bind, Option.bind_some, if_pos, hfields]

theorem iso_injective : Function.Injective iso := by
  intro a b h
  apply Option.some.inj
  rw [← parse_iso a, ← parse_iso b, h]

end DateTime

theorem toNat_of_mem_pad (h : c ∈ pad width n) : c.toNat < 128 := by
  induction width generalizing n with
  | zero => simp [pad] at h
  | succ width ih =>
    rcases List.mem_append.mp h with h | h
    · exact ih h
    · obtain rfl := List.mem_singleton.mp h
      rw [Nat.toNat_digitChar_of_lt_ten (by omega)]
      omega

theorem DateTime.toNat_of_mem_isoformat {d : DateTime} (h : c ∈ d.isoformat.toList) :
    c.toNat < 128 := by
  have hpad : ∀ width n, ∀ x ∈ pad width n, x.toNat < 128 := fun _ _ _ hx => toNat_of_mem_pad hx
  have hfraction : ∀ x ∈ d.fractionText, x.toNat < 128 := by
    unfold fractionText
    split
    · simp
    · exact List.forall_mem_cons.mpr ⟨by decide, hpad _ _⟩
  have htext : ∀ x ∈ d.secondText ++ (d.fractionText ++ ['+', '0', '0', ':', '0', '0']),
      x.toNat < 128 := by
    simp only [secondText, List.forall_mem_append, List.forall_mem_cons]
    exact ⟨⟨hpad _ _, by decide, hpad _ _, by decide, hpad _ _, by decide, hpad _ _, by decide,
      hpad _ _, by decide, hpad _ _⟩, hfraction, by decide, by decide, by decide, by decide,
      by decide, by decide, by simp⟩
  exact htext c (by simpa [isoformat] using h)

/-! ## The order of texts -/

theorem append_lt_append {a b : List Char} (h : a.length = b.length) (x y : List Char) :
    a ++ x < b ++ y ↔ a < b ∨ a = b ∧ x < y := by
  induction a generalizing b with
  | nil =>
    obtain rfl : b = [] := by simpa using h.symm
    simp
  | cons c a ih =>
    cases b with
    | nil => simp at h
    | cons d b =>
      simp only [List.cons_append, List.cons_lt_cons_iff, ih (by simpa using h), List.cons.injEq]
      tauto

theorem digitChar_lt (hm : m < 10) (hn : n < 10) :
    Nat.digitChar m < Nat.digitChar n ↔ m < n := by
  have hdigits : ∀ m < 10, ∀ n < 10, Nat.digitChar m < Nat.digitChar n ↔ m < n := by decide
  exact hdigits m hm n hn

theorem pad_inj (hm : m < 10 ^ width) (hn : n < 10 ^ width) :
    pad width m = pad width n ↔ m = n := by
  refine ⟨fun h => ?_, fun h => by rw [h]⟩
  have hread := readPad_pad width hm
  rw [h, readPad_pad width hn] at hread
  exact (Prod.mk.inj (Option.some.inj hread)).1.symm

theorem pad_lt (hm : m < 10 ^ width) (hn : n < 10 ^ width) :
    pad width m < pad width n ↔ m < n := by
  induction width generalizing m n with
  | zero =>
    obtain rfl : m = 0 := by simpa using hm
    obtain rfl : n = 0 := by simpa using hn
    simp [pad]
  | succ width ih =>
    rw [pow_succ] at hm hn
    have hm' : m / 10 < 10 ^ width := by omega
    have hn' : n / 10 < 10 ^ width := by omega
    rw [pad, pad, append_lt_append (by simp), ih hm' hn', pad_inj hm' hn',
      List.cons_lt_cons_iff, digitChar_lt (by omega) (by omega)]
    simp
    omega

/-- Numbers of one width, with something behind them. -/
theorem pad_append_lt (hm : m < 10 ^ width) (hn : n < 10 ^ width) (x y : List Char) :
    pad width m ++ x < pad width n ++ y ↔ m < n ∨ m = n ∧ x < y := by
  rw [append_lt_append (by simp), pad_lt hm hn, pad_inj hm hn]

theorem cons_lt_cons_self (c : Char) (x y : List Char) : c :: x < c :: y ↔ x < y := by
  simp

namespace DateTime

theorem secondText_append_lt (a b : DateTime) (x y : List Char) :
    a.secondText ++ x < b.secondText ++ y ↔
      a.wholeSecond < b.wholeSecond ∨ a.wholeSecond = b.wholeSecond ∧ x < y := by
  have hyear := a.year_mem; have hyear' := b.year_mem
  have hmonth := a.month_mem; have hmonth' := b.month_mem
  have hday := a.day_le; have hday' := b.day_le
  have hhour := a.hour_lt; have hhour' := b.hour_lt
  have hminute := a.minute_lt; have hminute' := b.minute_lt
  have hsecond := a.second_lt; have hsecond' := b.second_lt
  simp only [secondText, List.append_assoc, List.cons_append]
  rw [pad_append_lt (by omega) (by omega), cons_lt_cons_self,
    pad_append_lt (by omega) (by omega), cons_lt_cons_self,
    pad_append_lt (by omega) (by omega), cons_lt_cons_self,
    pad_append_lt (by omega) (by omega), cons_lt_cons_self,
    pad_append_lt (by omega) (by omega), cons_lt_cons_self,
    pad_append_lt (by omega) (by omega)]
  unfold wholeSecond
  by_cases hxy : x < y
  · simp only [hxy, and_true]
    omega
  · simp only [hxy, and_false, or_false]
    omega

/-- Two instants in one second, of which only the first has no fraction. -/
def Clash (a b : DateTime) : Prop :=
  a.wholeSecond = b.wholeSecond ∧ a.microsecond = 0 ∧ b.microsecond ≠ 0

instance (a b : DateTime) : Decidable (Clash a b) := inferInstanceAs (Decidable (_ ∧ _ ∧ _))

theorem Clash.lt (h : Clash a b) : a < b := by
  obtain ⟨hsecond, hzero, hpos⟩ := h
  rw [lt_iff]
  unfold stamp
  omega

theorem iso_lt_iff (a b : DateTime) :
    a.iso < b.iso ↔ a.wholeSecond < b.wholeSecond ∨
      a.wholeSecond = b.wholeSecond ∧ a.fractionText ++ ['Z'] < b.fractionText ++ ['Z'] := by
  rw [String.lt_iff_toList_lt, iso, iso, String.toList_ofList, String.toList_ofList,
    secondText_append_lt]

/-- A point comes before the letter, so that a fraction makes the text smaller. -/
theorem Clash.iso_lt (h : Clash a b) : b.iso < a.iso := by
  obtain ⟨hsecond, hzero, hpos⟩ := h
  refine (iso_lt_iff b a).mpr (Or.inr ⟨hsecond.symm, ?_⟩)
  rw [fractionText, fractionText, if_neg hpos, if_pos hzero, List.cons_append, List.nil_append,
    List.cons_lt_cons_iff]
  exact Or.inl (by decide)

theorem fraction_lt_iff (h : a.microsecond = 0 ↔ b.microsecond = 0) :
    a.fractionText ++ ['Z'] < b.fractionText ++ ['Z'] ↔ a.microsecond < b.microsecond := by
  unfold fractionText
  by_cases hzero : a.microsecond = 0
  · rw [if_pos hzero, if_pos (h.mp hzero), hzero, h.mp hzero]
    simp
  · rw [if_neg hzero, if_neg (mt h.mpr hzero), List.cons_append, List.cons_append,
      cons_lt_cons_self, pad_append_lt a.microsecond_lt b.microsecond_lt]
    simp

/-- But for two instants in one second of which one has a fraction, texts compare as
instants do. -/
theorem iso_lt_iff_lt (hab : ¬Clash a b) (hba : ¬Clash b a) :
    a.iso < b.iso ↔ a < b := by
  have hmicro := a.microsecond_lt
  have hmicro' := b.microsecond_lt
  rw [iso_lt_iff, lt_iff]
  unfold stamp
  by_cases hsecond : a.wholeSecond = b.wholeSecond
  · have hboth : a.microsecond = 0 ↔ b.microsecond = 0 := by
      unfold Clash at hab hba
      omega
    rw [fraction_lt_iff hboth]
    omega
  · simp only [hsecond, false_and, or_false]
    omega

theorem iso_le_iff_le (hab : ¬Clash a b) (hba : ¬Clash b a) :
    a.iso ≤ b.iso ↔ a ≤ b := by
  rw [← not_lt, ← not_lt, iso_lt_iff_lt hba hab]

end DateTime

end Orditect.Support.Instant
