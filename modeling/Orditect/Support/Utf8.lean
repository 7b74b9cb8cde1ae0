import Mathlib.Data.List.Basic
/-!
# UTF-8 with replacement

The decoder of `bytes.decode("utf-8", errors="replace")`, one byte at a time.  A byte that
cannot begin a character is replaced; where a character breaks off, the bytes read of it are
replaced together and the byte that broke it off is read afresh; the same at the end of the
input.
-/

namespace Orditect.Support.Utf8

def replacement : Char := '�'

/-- Where the decoder stands: between two characters, or inside of one that still needs `need`
bytes, the next of them from `low` to `high`; `value` is what was read of it. -/
inductive Reader where
  | between
  | inside (need low high value : Nat)
  deriving DecidableEq

def lead (b : Nat) : Option Reader :=
  if 0xC2 ≤ b ∧ b ≤ 0xDF then some (.inside 1 0x80 0xBF (b - 0xC0))
  else if b = 0xE0 then some (.inside 2 0xA0 0xBF 0)
  else if b = 0xED then some (.inside 2 0x80 0x9F 13)
  else if 0xE1 ≤ b ∧ b ≤ 0xEF then some (.inside 2 0x80 0xBF (b - 0xE0))
  else if b = 0xF0 then some (.inside 3 0x90 0xBF 0)
  else if b = 0xF4 then some (.inside 3 0x80 0x8F 4)
  else if 0xF1 ≤ b ∧ b ≤ 0xF3 then some (.inside 3 0x80 0xBF (b - 0xF0))
  else none

def begin (b : Nat) : Reader × List Char :=
  if b < 0x80 then (.between, [Char.ofNat b])
  else
    match lead b with
    | some r => (r, [])
    | none => (.between, [replacement])

def Reader.step : Reader → UInt8 → Reader × List Char
  | .between, b => begin b.toNat
  | .inside need low high value, b =>
    if low ≤ b.toNat ∧ b.toNat ≤ high then
      if need ≤ 1 then (.between, [Char.ofNat (value * 64 + (b.toNat - 0x80))])
      else (.inside (need - 1) 0x80 0xBF (value * 64 + (b.toNat - 0x80)), [])
    else ((begin b.toNat).1, replacement :: (begin b.toNat).2)

def Reader.feed : Reader → List UInt8 → Reader × List Char
  | r, [] => (r, [])
  | r, b :: bytes => (((r.step b).1.feed bytes).1, (r.step b).2 ++ ((r.step b).1.feed bytes).2)

def Reader.finish : Reader → List Char
  | .between => []
  | .inside .. => [replacement]

def decode (bytes : List UInt8) : List Char :=
  (Reader.between.feed bytes).2 ++ (Reader.between.feed bytes).1.finish

def encode (text : List Char) : List UInt8 := text.flatMap String.utf8EncodeChar

def isContinuation (b : UInt8) : Bool := decide (0x80 ≤ b.toNat) && decide (b.toNat ≤ 0xBF)

@[simp] theorem encode_nil : encode [] = [] := rfl

@[simp] theorem encode_cons (c : Char) (text : List Char) :
    encode (c :: text) = String.utf8EncodeChar c ++ encode text := rfl

theorem Reader.feed_append (r : Reader) (a b : List UInt8) :
    r.feed (a ++ b) = (((r.feed a).1.feed b).1, (r.feed a).2 ++ ((r.feed a).1.feed b).2) := by
  induction a generalizing r with
  | nil => rfl
  | cons x a ih =>
    rw [List.cons_append, Reader.feed, ih]
    simp [Reader.feed]

def accumulate (value : Nat) (rest : List UInt8) : Nat :=
  rest.foldl (fun v b => v * 64 + (b.toNat - 0x80)) value

variable {rest back : List UInt8} {c : Char} {front : List UInt8}

theorem feed_inside (need value : Nat) {low high : Nat} {b : UInt8} (hlow : low ≤ b.toNat)
    (hhigh : b.toNat ≤ high) (hrest : ∀ x ∈ rest, isContinuation x = true) :
    (rest.length + 1 = need → (Reader.inside need low high value).feed (b :: rest) =
        (.between, [Char.ofNat (accumulate value (b :: rest))])) ∧
      (rest.length + 1 < need → ∃ need' low' high' value',
        (Reader.inside need low high value).feed (b :: rest) =
          (.inside need' low' high' value', [])) := by
  induction rest generalizing need low high value b with
  | nil =>
    simp only [Reader.feed, Reader.step, if_pos (And.intro hlow hhigh), List.length_nil]
    constructor
    · intro hneed
      rw [if_pos (by omega)]
      rfl
    · intro hneed
      rw [if_neg (by omega)]
      exact ⟨_, _, _, _, rfl⟩
  | cons x rest ih =>
    have hx : 0x80 ≤ x.toNat ∧ x.toNat ≤ 0xBF := by
      simpa [isContinuation] using hrest x List.mem_cons_self
    obtain ⟨hlast, hmore⟩ := ih (need - 1) (value * 64 + (b.toNat - 0x80)) hx.1
      hx.2 fun y hy => hrest y (List.mem_cons_of_mem _ hy)
    rw [Reader.feed, Reader.step, if_pos ⟨hlow, hhigh⟩]
    constructor
    · intro hneed
      rw [List.length_cons] at hneed
      rw [if_neg (by omega), hlast (by omega)]
      simp [accumulate]
    · intro hneed
      rw [List.length_cons] at hneed
      rw [if_neg (by omega)]
      obtain ⟨need', low', high', value', hfeed⟩ := hmore (by omega)
      exact ⟨need', low', high', value', by rw [hfeed]; rfl⟩

/-- A character of several bytes: the first one leads, and the others continue it. -/
structure Long (c : Char) (a b : UInt8) (rest : List UInt8) : Prop where
  bytes : String.utf8EncodeChar c = a :: b :: rest
  beyond : 0x80 ≤ c.toNat
  leads : ∃ low high value, lead a.toNat = some (.inside (rest.length + 1) low high value) ∧
    low ≤ b.toNat ∧ b.toNat ≤ high ∧ accumulate value (b :: rest) = c.toNat
  above : 0x80 ≤ a.toNat
  continues : ∀ x ∈ b :: rest, isContinuation x = true

theorem valid_toNat (c : Char) :
    c.toNat < 0xD800 ∨ 0xDFFF < c.toNat ∧ c.toNat < 0x110000 := c.valid

theorem lead_two : ∀ h < 32, 2 ≤ h →
    lead (UInt8.ofNat (h + 0xC0)).toNat = some (.inside 1 0x80 0xBF h) := by
  decide

theorem lead_three : ∀ h < 16, lead (UInt8.ofNat (h + 0xE0)).toNat =
    some (.inside 2 (if h = 0 then 0xA0 else 0x80) (if h = 13 then 0x9F else 0xBF) h) := by
  decide

theorem lead_four : ∀ h < 5, lead (UInt8.ofNat (h + 0xF0)).toNat =
    some (.inside 3 (if h = 0 then 0x90 else 0x80) (if h = 4 then 0x8F else 0xBF) h) := by
  decide

theorem isContinuation_ofNat {n : Nat} (h : n < 0x40) :
    isContinuation (UInt8.ofNat (n + 0x80)) = true := by
  simp only [isContinuation, UInt8.toNat_ofNat', Bool.and_eq_true, decide_eq_true_eq]
  omega

theorem utf8EncodeChar_cases (c : Char) :
    (c.toNat < 0x80 ∧ String.utf8EncodeChar c = [UInt8.ofNat c.toNat]) ∨
      ∃ a b rest, Long c a b rest := by
  have hvalid := valid_toNat c
  have hencode : String.utf8EncodeChar c = if c.toNat ≤ 0x7f then [UInt8.ofNat c.toNat]
      else if c.toNat ≤ 0x7ff then
        [UInt8.ofNat (c.toNat / 64 % 0x20 + 0xc0), UInt8.ofNat (c.toNat % 0x40 + 0x80)]
      else if c.toNat ≤ 0xffff then
        [UInt8.ofNat (c.toNat / 4096 % 0x10 + 0xe0), UInt8.ofNat (c.toNat / 64 % 0x40 + 0x80),
          UInt8.ofNat (c.toNat % 0x40 + 0x80)]
      else
        [UInt8.ofNat (c.toNat / 262144 % 0x08 + 0xf0), UInt8.ofNat (c.toNat / 4096 % 0x40 + 0x80),
          UInt8.ofNat (c.toNat / 64 % 0x40 + 0x80), UInt8.ofNat (c.toNat % 0x40 + 0x80)] := rfl
  split at hencode
  · exact Or.inl ⟨by omega, hencode⟩
  right
  split at hencode
  · have hlead := lead_two (c.toNat / 64 % 0x20) (by omega) (by omega)
    refine ⟨_, _, _, hencode, by omega, ⟨_, _, _, hlead, ?_, ?_, ?_⟩, ?_, ?_⟩
    case refine_5 =>
      simp only [List.mem_cons, List.not_mem_nil, or_false, forall_eq]
      exact isContinuation_ofNat (by omega)
    all_goals
      simp only [accumulate, UInt8.toNat_ofNat', List.foldl_cons, List.foldl_nil]
      omega
  split at hencode
  · have hlead := lead_three (c.toNat / 4096 % 0x10) (by omega)
    refine ⟨_, _, _, hencode, by omega, ⟨_, _, _, hlead, ?_, ?_, ?_⟩, ?_, ?_⟩
    all_goals try
      simp only [accumulate, UInt8.toNat_ofNat', List.foldl_cons, List.foldl_nil]
      omega
    · simp only [UInt8.toNat_ofNat']
      split <;> omega
    · simp only [UInt8.toNat_ofNat']
      split <;> omega
    · simp only [List.mem_cons, List.not_mem_nil, or_false, forall_eq_or_imp, forall_eq]
      exact ⟨isContinuation_ofNat (by omega), isContinuation_ofNat (by omega)⟩
  · have hlead := lead_four (c.toNat / 262144 % 0x08) (by omega)
    refine ⟨_, _, _, hencode, by omega, ⟨_, _, _, hlead, ?_, ?_, ?_⟩, ?_, ?_⟩
    all_goals try
      simp only [accumulate, UInt8.toNat_ofNat', List.foldl_cons, List.foldl_nil]
      omega
    · simp only [UInt8.toNat_ofNat']
      split <;> omega
    · simp only [UInt8.toNat_ofNat']
      split <;> omega
    · simp only [List.mem_cons, List.not_mem_nil, or_false, forall_eq_or_imp, forall_eq]
      exact ⟨isContinuation_ofNat (by omega), isContinuation_ofNat (by omega),
        isContinuation_ofNat (by omega)⟩

theorem feed_utf8EncodeChar (c : Char) :
    Reader.between.feed (String.utf8EncodeChar c) = (.between, [c]) := by
  rcases utf8EncodeChar_cases c with ⟨hascii, hbytes⟩ | ⟨a, b, rest, hlong⟩
  · have hbyte : (UInt8.ofNat c.toNat).toNat = c.toNat := by
      rw [UInt8.toNat_ofNat', Nat.mod_eq_of_lt (by omega)]
    rw [hbytes]
    simp [Reader.feed, Reader.step, begin, hbyte, hascii]
  · obtain ⟨low, high, value, hlead, hlow, hhigh, hvalue⟩ := hlong.leads
    have hstep : Reader.between.step a = (.inside (rest.length + 1) low high value, []) := by
      rw [Reader.step, begin, if_neg (by have := hlong.above; omega), hlead]
    have hfeed := (feed_inside _ value hlow hhigh
      fun x hx => hlong.continues x (List.mem_cons_of_mem _ hx)).1 rfl
    rw [hlong.bytes, Reader.feed, hstep, hfeed, hvalue]
    simp

/-- A character that breaks off leaves the decoder inside of it. -/
theorem feed_front (h : String.utf8EncodeChar c = front ++ back) (hfront : front ≠ [])
    (hback : back ≠ []) :
    ∃ need low high value, Reader.between.feed front = (.inside need low high value, []) := by
  rcases utf8EncodeChar_cases c with ⟨-, hbytes⟩ | ⟨a, b, rest, hlong⟩
  · have hlength := congrArg List.length (h.symm.trans hbytes)
    have hfront' := List.length_pos_iff.mpr hfront
    have hback' := List.length_pos_iff.mpr hback
    simp only [List.length_append, List.length_singleton] at hlength
    omega
  · obtain ⟨low, high, value, hlead, hlow, hhigh, -⟩ := hlong.leads
    have hstep : Reader.between.step a = (.inside (rest.length + 1) low high value, []) := by
      rw [Reader.step, begin, if_neg (by have := hlong.above; omega), hlead]
    rw [hlong.bytes] at h
    match front, hfront with
    | [x], _ =>
      obtain ⟨rfl, -⟩ := List.cons.inj h
      exact ⟨_, _, _, _, by rw [Reader.feed, hstep]; rfl⟩
    | x :: y :: front, _ =>
      simp only [List.cons_append, List.cons.injEq] at h
      obtain ⟨rfl, rfl, hrest⟩ := h
      have hlength := congrArg List.length hrest
      have hback' := List.length_pos_iff.mpr hback
      rw [List.length_append] at hlength
      obtain ⟨need, low', high', value', hfeed⟩ := (feed_inside (rest.length + 1) value hlow hhigh
        fun z hz => hlong.continues z (by simp [hrest, hz])).2
        (show front.length + 1 < rest.length + 1 by omega)
      exact ⟨need, low', high', value', by rw [Reader.feed, hstep, hfeed]; rfl⟩

/-- What is left of a broken character is replaced byte by byte. -/
theorem feed_continuations {bytes : List UInt8} (h : ∀ b ∈ bytes, isContinuation b = true) :
    Reader.between.feed bytes = (.between, List.replicate bytes.length replacement) := by
  induction bytes with
  | nil => rfl
  | cons b bytes ih =>
    have hb : 0x80 ≤ b.toNat ∧ b.toNat ≤ 0xBF := by
      simpa [isContinuation] using h b List.mem_cons_self
    have hlead : lead b.toNat = none := by
      unfold lead
      repeat rw [if_neg (by omega)]
    have hstep : Reader.between.step b = (.between, [replacement]) := by
      rw [Reader.step, begin, if_neg (by omega), hlead]
    rw [Reader.feed, hstep, ih fun x hx => h x (List.mem_cons_of_mem _ hx)]
    rfl

theorem continuations_back (h : String.utf8EncodeChar c = front ++ back) (hfront : front ≠ []) :
    ∀ b ∈ back, isContinuation b = true := by
  intro x hx
  match front, hfront with
  | y :: front, _ =>
    rcases utf8EncodeChar_cases c with ⟨-, hbytes⟩ | ⟨a, b, rest, hlong⟩
    · rw [hbytes, List.cons_append] at h
      have hnil := (List.cons.inj h).2.symm
      rw [List.append_eq_nil_iff] at hnil
      simp [hnil.2] at hx
    · rw [hlong.bytes, List.cons_append] at h
      apply hlong.continues
      rw [(List.cons.inj h).2]
      exact List.mem_append_right _ hx

theorem feed_encode (text : List Char) :
    Reader.between.feed (encode text) = (.between, text) := by
  induction text with
  | nil => rfl
  | cons c text ih =>
    rw [encode_cons, Reader.feed_append, feed_utf8EncodeChar, ih]
    rfl

theorem feed_rest (h : ∀ b ∈ rest, isContinuation b = true) (text : List Char) :
    Reader.between.feed (rest ++ encode text) =
      (.between, List.replicate rest.length replacement ++ text) := by
  rw [Reader.feed_append, feed_continuations h, feed_encode]

theorem decode_rest (h : ∀ b ∈ rest, isContinuation b = true) (text : List Char) :
    decode (rest ++ encode text) = List.replicate rest.length replacement ++ text := by
  rw [decode, feed_rest h]
  exact List.append_nil _

theorem decode_encode (text : List Char) : decode (encode text) = text :=
  decode_rest (List.forall_mem_nil _) text

theorem decode_rest_front (h : ∀ b ∈ rest, isContinuation b = true) (text : List Char)
    (hc : String.utf8EncodeChar c = front ++ back) (hfront : front ≠ []) (hback : back ≠ []) :
    decode (rest ++ encode text ++ front) =
      List.replicate rest.length replacement ++ text ++ [replacement] := by
  obtain ⟨need, low, high, value, hfeed⟩ := feed_front hc hfront hback
  rw [decode, Reader.feed_append, feed_rest h, hfeed, List.append_nil, Reader.finish]

end Orditect.Support.Utf8
