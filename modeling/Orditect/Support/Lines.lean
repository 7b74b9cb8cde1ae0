import Mathlib.Data.List.DropRight
/-!
# Lines of a text

How Python cuts a text into lines: a file goes by newlines, after the other line ends have
been translated; `splitlines` goes by every line boundary of Unicode.  A line is given
without its end, and there is no empty line after the last end.
-/

namespace Orditect.Support.Lines

def lines (isBreak : Char → Bool) : List Char → List (List Char)
  | [] => []
  | c :: cs =>
    if isBreak c then [] :: lines isBreak cs
    else
      match lines isBreak cs with
      | [] => [[c]]
      | line :: rest => (c :: line) :: rest

/-- What reading a file as text makes of its line ends. -/
def universalNewlines : List Char → List Char
  | '\r' :: '\n' :: cs => '\n' :: universalNewlines cs
  | '\r' :: cs => '\n' :: universalNewlines cs
  | c :: cs => c :: universalNewlines cs
  | [] => []

def isNewline (c : Char) : Bool := c == '\n'

/-- The boundaries of `str.splitlines`. -/
def isBoundary (c : Char) : Bool :=
  c.toNat ∈ [0x0a, 0x0b, 0x0c, 0x0d, 0x1c, 0x1d, 0x1e, 0x85, 0x2028, 0x2029]

def isSpace (c : Char) : Bool :=
  c.toNat ∈ [0x09, 0x0a, 0x0b, 0x0c, 0x0d, 0x1c, 0x1d, 0x1e, 0x1f, 0x20, 0x85, 0xa0, 0x1680,
    0x2000, 0x2001, 0x2002, 0x2003, 0x2004, 0x2005, 0x2006, 0x2007, 0x2008, 0x2009, 0x200a,
    0x2028, 0x2029, 0x202f, 0x205f, 0x3000]

def strip (text : List Char) : List Char := (text.dropWhile isSpace).rdropWhile isSpace

variable {isBreak : Char → Bool} {text : List Char} {b : Char} {line : List Char}

theorem lines_eq_nil (h : lines isBreak text = []) : text = [] := by
  cases text with
  | nil => rfl
  | cons c text =>
    simp only [lines] at h
    split at h
    · simp at h
    · split at h <;> simp at h

theorem lines_append_cons (text : List Char) (hb : isBreak b = true) (rest : List Char) :
    lines isBreak (text ++ b :: rest) = lines isBreak (text ++ [b]) ++ lines isBreak rest := by
  induction text with
  | nil => simp [lines, hb]
  | cons c text ih =>
    simp only [List.cons_append, lines]
    split
    · rw [ih, List.cons_append]
    · rw [ih]
      cases hlines : lines isBreak (text ++ [b]) with
      | nil => exact absurd (lines_eq_nil hlines) (by simp)
      | cons line more => simp

theorem lines_singleton (h : ∀ c ∈ line, isBreak c = false) (hb : isBreak b = true) :
    lines isBreak (line ++ [b]) = [line] := by
  induction line with
  | nil => simp [lines, hb]
  | cons c line ih =>
    rw [List.cons_append, lines, if_neg (by simp [h c List.mem_cons_self]),
      ih fun d hd => h d (List.mem_cons_of_mem _ hd)]

/-- Where a line stands in the text: what is before it and what is after it. -/
structure Cut (isBreak : Char → Bool) (text before line after : List Char) : Prop where
  text_eq : text = before ++ line ++ after
  clean : ∀ c ∈ line, isBreak c = false
  after_eq : after = [] ∨ ∃ b rest, after = b :: rest ∧ isBreak b = true

theorem Cut.cons {before after : List Char} (h : Cut isBreak text before line after) (c : Char) :
    Cut isBreak (c :: text) (c :: before) line after :=
  ⟨by rw [h.text_eq]; rfl, h.clean, h.after_eq⟩

/-- A line of a text that ends with a line end stands before that. -/
theorem Cut.of_concat {before after : List Char} (hb : isBreak b = true)
    (h : Cut isBreak (text ++ [b]) before line after) (hline : line ≠ [] ∨ before = []) :
    ∃ rest, after = rest ++ [b] ∧ text = before ++ line ++ rest := by
  have heq := h.text_eq
  rcases List.eq_nil_or_concat after with rfl | ⟨rest, d, rfl⟩
  · rcases List.eq_nil_or_concat line with rfl | ⟨line, d, rfl⟩
    · obtain rfl : before = [] := hline.resolve_left fun hne => hne rfl
      simp at heq
    · rw [List.append_nil, List.concat_eq_append, ← List.append_assoc] at heq
      obtain ⟨-, hd⟩ := List.append_inj' heq rfl
      obtain rfl : b = d := by simpa using hd
      rw [h.clean b (by simp)] at hb
      exact absurd hb (by decide)
  · rw [List.concat_eq_append, ← List.append_assoc] at heq
    obtain ⟨htext, hd⟩ := List.append_inj' heq rfl
    obtain rfl : b = d := by simpa using hd
    exact ⟨rest, List.concat_eq_append, htext⟩

/-- The first line stands at the beginning, and before each other one there is a line end. -/
theorem cut_lines (text : List Char) {rest : List (List Char)}
    (h : lines isBreak text = line :: rest) :
    (∃ after, Cut isBreak text [] line after) ∧
      ∀ l ∈ rest, ∃ before b after, isBreak b = true ∧
        Cut isBreak text (before ++ [b]) l after := by
  induction text generalizing line rest with
  | nil => simp [lines] at h
  | cons c text ih =>
    rw [lines] at h
    split at h
    next hc =>
      obtain ⟨rfl, rfl⟩ := List.cons.inj h
      refine ⟨⟨c :: text, rfl, by simp, Or.inr ⟨c, text, rfl, hc⟩⟩, ?_⟩
      intro l hl
      cases hlines : lines isBreak text with
      | nil => simp [hlines] at hl
      | cons first more =>
        obtain ⟨⟨after, hfirst⟩, hmore⟩ := ih hlines
        rw [hlines] at hl
        rcases List.mem_cons.mp hl with rfl | hl
        · exact ⟨[], c, after, hc, hfirst.cons c⟩
        · obtain ⟨before, b, after, hb, hcut⟩ := hmore l hl
          exact ⟨c :: before, b, after, hb, hcut.cons c⟩
    next hc =>
      have hclean : isBreak c = false := by simpa using hc
      split at h
      next hlines =>
        obtain ⟨rfl, rfl⟩ := List.cons.inj h
        obtain rfl := lines_eq_nil hlines
        exact ⟨⟨[], rfl, by simpa using hclean, Or.inl rfl⟩, by simp⟩
      next first more hlines =>
        obtain ⟨rfl, rfl⟩ := List.cons.inj h
        obtain ⟨⟨after, hfirst⟩, hmore⟩ := ih hlines
        refine ⟨⟨after, ?_⟩, ?_⟩
        · refine ⟨by rw [hfirst.text_eq]; rfl, ?_, hfirst.after_eq⟩
          exact List.forall_mem_cons.mpr ⟨hclean, hfirst.clean⟩
        · intro l hl
          obtain ⟨before, b, after, hb, hcut⟩ := hmore l hl
          exact ⟨c :: before, b, after, hb, hcut.cons c⟩

theorem exists_strip (text : List Char) :
    ∃ left right, text = left ++ strip text ++ right ∧ (∀ c ∈ left, isSpace c = true) ∧
      ∀ c ∈ right, isSpace c = true := by
  refine ⟨text.takeWhile isSpace, (text.dropWhile isSpace).rtakeWhile isSpace, ?_, ?_, ?_⟩
  · rw [strip, List.append_assoc, List.rdropWhile_append_rtakeWhile,
      List.takeWhile_append_dropWhile]
  · exact fun c hc => List.mem_takeWhile_imp hc
  · exact fun c hc => List.mem_rtakeWhile_imp hc

theorem strip_of_ends {a : Char} (ha : isSpace a = false) (hb : isSpace b = false)
    (middle : List Char) : strip (a :: middle ++ [b]) = a :: middle ++ [b] := by
  rw [strip, List.cons_append, List.dropWhile_cons_of_neg (by simp [ha]), ← List.cons_append,
    List.rdropWhile_concat_neg _ _ _ (by simp [hb])]

theorem universalNewlines_eq_self (h : '\r' ∉ text) :
    universalNewlines text = text := by
  induction text with
  | nil => rfl
  | cons c text ih =>
    rw [List.mem_cons, not_or] at h
    rw [universalNewlines, ih h.2]
    · exact fun cs hc _ => h.1 hc.symm
    · exact fun hc => h.1 hc.symm

end Orditect.Support.Lines
