import Mathlib.Algebra.Ring.Nat
import Orditect.Stream.Proofs.Severed
/-!
# Chunks of bytes

A line shows if what it says ends up in a frame.  Where no severed line shows, the client makes
the frames of the undivided text; where one does, its frames hold more replacement characters
than those.
-/

namespace Orditect.Stream.Chunking.Proofs

open Support Support.Lines Support.Utf8 Stream.Sse.Proofs

/-! ## Lines that show -/

def isEvent : LineKind → Bool
  | .event _ => true
  | _ => false

def isId : LineKind → Bool
  | .id _ => true
  | _ => false

def surfaces (overwrites : LineKind → Bool) : List (List Char) → Bool
  | [] => false
  | line :: ls =>
    if LineKind.of line = .boundary then true
    else if overwrites (LineKind.of line) then false
    else surfaces overwrites ls

/-- What a line says ends up in a frame: a boundary follows, and an event or an id is not
overwritten before that. -/
def shows (line : List Char) (rest : List (List Char)) : Bool :=
  match LineKind.of line with
  | .event _ => surfaces isEvent rest
  | .id _ => surfaces isId rest
  | .data _ => surfaces (fun _ => false) rest
  | _ => false

/-- No severed character stands in a line that shows. -/
def unharmed : List (List Char × Bool) → Bool
  | [] => true
  | (line, torn) :: ls => !(torn && shows line (ls.map Prod.fst)) && unharmed ls

/-! ## Nothing shows -/

/-- Two frames in the making agree in what still shows. -/
structure Agree (rest : List (List Char)) (cur cur' : RawSSEFrame) : Prop where
  event : surfaces isEvent rest = true → cur'.event = cur.event
  id : surfaces isId rest = true → cur'.id = cur.id
  data : surfaces (fun _ => false) rest = true → cur'.dataLines = cur.dataLines

theorem Agree.refl (rest : List (List Char)) (cur : RawSSEFrame) : Agree rest cur cur :=
  ⟨fun _ => rfl, fun _ => rfl, fun _ => rfl⟩

variable {cur cur' : RawSSEFrame} {line out : List Char} {rest : List (List Char)} {torn : Bool}
  {value value' : List Char}

theorem feedLine_agree (hline : FrayedLine (line, torn) out)
    (hshows : (torn && shows line rest) = false) (h : Agree (line :: rest) cur cur') :
    (feedLine cur line).2 = (feedLine cur' out).2 ∧
      Agree rest (feedLine cur line).1 (feedLine cur' out).1 := by
  obtain ⟨hevent, hid, hdata⟩ := h
  have hbecomes := becomes_of_frayed hline
  unfold feedLine
  rw [surfaces] at hevent hid hdata
  rw [shows] at hshows
  generalize LineKind.of line = kind at *
  generalize LineKind.of out = kind' at *
  cases hbecomes with
  | boundary =>
    obtain rfl : cur' = cur := by
      obtain ⟨event, data, id⟩ := cur'
      rw [RawSSEFrame.mk.injEq]
      exact ⟨hevent rfl, hdata rfl, hid rfl⟩
    exact ⟨rfl, .refl _ _⟩
  | comment | other => exact ⟨rfl, hevent, hid, hdata⟩
  | event hvalue => exact ⟨rfl, hvalue.eq hshows, hid, hdata⟩
  | id hvalue => exact ⟨rfl, hevent, fun hrest => congrArg some (hvalue.eq hshows hrest), hdata⟩
  | data hvalue =>
    refine ⟨rfl, hevent, hid, fun hrest => ?_⟩
    rw [hdata hrest, hvalue.eq hshows hrest]

theorem feedLines_agree {ls : List (List Char × Bool)} {out : List (List Char)}
    (h : List.Forall₂ FrayedLine ls out) (hunharmed : unharmed ls = true)
    (hagree : Agree (ls.map Prod.fst) cur cur') :
    (feedLines cur (ls.map Prod.fst)).2 = (feedLines cur' out).2 := by
  induction h generalizing cur cur' with
  | nil => rfl
  | @cons line outLine ls out hline h ih =>
    obtain ⟨line, torn⟩ := line
    rw [unharmed, Bool.and_eq_true, Bool.not_eq_true'] at hunharmed
    obtain ⟨hframe, hnext⟩ := feedLine_agree hline hunharmed.1 hagree
    rw [List.map_cons, feedLines, feedLines, hframe, ih hunharmed.2 hnext]

/-! ## Something shows -/

def weight (f : RawSSEFrame) : Nat :=
  f.event.count replacement + (f.id.getD []).count replacement +
    f.dataLines.flatten.count replacement

def total (frames : List RawSSEFrame) : Nat := (frames.map weight).sum

theorem total_append (a b : List RawSSEFrame) : total (a ++ b) = total a + total b := by
  simp [total]

def Grown (value value' : List Char) : Prop :=
  value' = value ∨ value.count replacement < value'.count replacement

theorem Grown.count_le (h : Grown value value') :
    value.count replacement ≤ value'.count replacement := by
  rcases h with rfl | h
  · exact Nat.le_refl _
  · exact Nat.le_of_lt h

theorem Grows.grown (h : Grows torn value value') :
    Grown value value' := by
  cases torn with
  | true => exact Or.inr h
  | false => exact Or.inl h

theorem Grows.count_lt {shown : Bool} (h : Grows torn value value')
    (hshown : (torn && shown) = true) :
    shown = true ∧ value.count replacement < value'.count replacement := by
  rw [Bool.and_eq_true] at hshown
  rw [hshown.1] at h
  exact ⟨hshown.2, h⟩

/-- The frame in the making of the client, beside the one of the undivided text. -/
structure Swollen (cur cur' : RawSSEFrame) : Prop where
  event : Grown cur.event cur'.event
  id : Grown (cur.id.getD []) (cur'.id.getD [])
  nil : cur.dataLines = [] ↔ cur'.dataLines = []
  data : cur.dataLines.flatten.count replacement ≤ cur'.dataLines.flatten.count replacement

theorem Swollen.refl (cur : RawSSEFrame) : Swollen cur cur :=
  ⟨Or.inl rfl, Or.inl rfl, Iff.rfl, Nat.le_refl _⟩

theorem Swollen.weight_le (h : Swollen cur cur') :
    weight cur ≤ weight cur' :=
  Nat.add_le_add (Nat.add_le_add h.event.count_le h.id.count_le) h.data

theorem complete_eq_false {f : RawSSEFrame} : f.complete = false ↔
    f.dataLines = [] ∧ f.id.getD [] = [] ∧ f.event = "message".toList := by
  simp [RawSSEFrame.complete, and_assoc]

theorem Swollen.complete (h : Swollen cur cur') (hcomplete : cur'.complete = false) :
    cur.complete = false := by
  rw [complete_eq_false] at hcomplete ⊢
  obtain ⟨hdata, hid, hevent⟩ := hcomplete
  refine ⟨h.nil.mpr hdata, ?_, ?_⟩
  · rcases h.id with heq | hlt
    · rw [← heq, hid]
    · simp [hid] at hlt
  · rcases h.event with heq | hlt
    · rw [← heq, hevent]
    · rw [hevent] at hlt
      exact absurd hlt (by simp +decide)

theorem Swollen.weight_pos (h : Swollen cur cur') (hcur : cur.complete = false)
    (hcur' : cur'.complete = true) : 0 < weight cur' := by
  by_contra hzero
  rw [complete_eq_false] at hcur
  obtain ⟨hdata, hid, hevent⟩ := hcur
  have hweight : weight cur' = 0 := by omega
  simp only [weight, Nat.add_eq_zero_iff] at hweight
  have hincomplete : cur'.complete = false := by
    rw [complete_eq_false]
    refine ⟨h.nil.mp hdata, ?_, ?_⟩
    · rcases h.id with heq | hlt
      · rw [heq, hid]
      · omega
    · rcases h.event with heq | hlt
      · rw [heq, hevent]
      · omega
  rw [hincomplete] at hcur'
  exact absurd hcur' (by decide)

theorem Swollen.close (h : Swollen cur cur') :
    Swollen cur.close.1 cur'.close.1 ∧ total cur.close.2.toList ≤ total cur'.close.2.toList := by
  unfold RawSSEFrame.close
  cases hcur' : cur'.complete with
  | false => simpa [h.complete hcur'] using h
  | true =>
    cases hcur : cur.complete with
    | true => exact ⟨.refl _, by simpa [total] using h.weight_le⟩
    | false =>
      obtain ⟨hdata, hid, hevent⟩ := complete_eq_false.mp hcur
      refine ⟨⟨Or.inl hevent.symm, Or.inl hid.symm, ?_, ?_⟩, Nat.zero_le _⟩
      · simp [hdata]
      · simp [hdata]

theorem feedLine_swollen (hline : FrayedLine (line, torn) out) (h : Swollen cur cur') :
    Swollen (feedLine cur line).1 (feedLine cur' out).1 ∧
      total (feedLine cur line).2.toList ≤ total (feedLine cur' out).2.toList := by
  have hbecomes := becomes_of_frayed hline
  unfold feedLine
  generalize LineKind.of line = kind at *
  generalize LineKind.of out = kind' at *
  cases hbecomes with
  | boundary => exact h.close
  | comment | other => exact ⟨h, Nat.le_refl _⟩
  | event hvalue => exact ⟨⟨hvalue.grown, h.id, h.nil, h.data⟩, Nat.le_refl _⟩
  | id hvalue => exact ⟨⟨h.event, hvalue.grown, h.nil, h.data⟩, Nat.le_refl _⟩
  | data hvalue =>
    refine ⟨⟨h.event, h.id, by simp, ?_⟩, Nat.le_refl _⟩
    have hvalue' := hvalue.grown.count_le
    have hdata := h.data
    simp only [List.flatten_append, List.flatten_singleton, List.count_append]
    omega

def Heavier (rest : List (List Char)) (cur cur' : RawSSEFrame) : Prop :=
  (surfaces isEvent rest = true ∧ cur.event.count replacement < cur'.event.count replacement) ∨
    (surfaces isId rest = true ∧
      (cur.id.getD []).count replacement < (cur'.id.getD []).count replacement) ∨
    (surfaces (fun _ => false) rest = true ∧
      cur.dataLines.flatten.count replacement < cur'.dataLines.flatten.count replacement)

theorem Swollen.weight_lt (h : Swollen cur cur') (hheavier : Heavier rest cur cur') :
    weight cur < weight cur' := by
  have hevent := h.event.count_le
  have hid := h.id.count_le
  have hdata := h.data
  unfold weight
  rcases hheavier with ⟨-, hlt⟩ | ⟨-, hlt⟩ | ⟨-, hlt⟩ <;> omega

theorem Swollen.close_lt (h : Swollen cur cur') (hlt : weight cur < weight cur') :
    total cur.close.2.toList < total cur'.close.2.toList := by
  unfold RawSSEFrame.close
  cases hcur' : cur'.complete with
  | false =>
    -- Neither is complete, so neither holds anything.
    obtain ⟨hdata, hid, hevent⟩ := complete_eq_false.mp hcur'
    have hzero : weight cur' = 0 := by
      rw [weight, hdata, hid, hevent]
      decide
    omega
  | true =>
    cases hcur : cur.complete with
    | true => simpa [total] using hlt
    | false => simpa [total] using h.weight_pos hcur hcur'

theorem feedLine_heavier (hline : FrayedLine (line, torn) out) (h : Swollen cur cur')
    (hheavier : Heavier (line :: rest) cur cur' ∨ (torn && shows line rest) = true) :
    total (feedLine cur line).2.toList < total (feedLine cur' out).2.toList ∨
      Heavier rest (feedLine cur line).1 (feedLine cur' out).1 := by
  have hbecomes := becomes_of_frayed hline
  have hlt : Heavier (line :: rest) cur cur' → weight cur < weight cur' := h.weight_lt
  unfold feedLine
  simp only [Heavier, surfaces, shows] at hheavier hlt ⊢
  generalize LineKind.of line = kind at *
  generalize LineKind.of out = kind' at *
  cases hbecomes with
  | boundary =>
    left
    rcases hheavier with hheavier | hshows
    · exact h.close_lt (hlt hheavier)
    · simp at hshows
  | comment | other => simpa [isEvent, isId] using hheavier
  | event hvalue =>
    right
    rcases hheavier with (⟨hsurfaces, -⟩ | hheavier) | hshows
    · simp [isEvent] at hsurfaces
    · exact Or.inr hheavier
    · exact Or.inl (hvalue.count_lt hshows)
  | id hvalue =>
    right
    rcases hheavier with (hheavier | ⟨hsurfaces, -⟩ | hheavier) | hshows
    · exact Or.inl hheavier
    · simp [isId] at hsurfaces
    · exact Or.inr (Or.inr hheavier)
    · exact Or.inr (Or.inl (hvalue.count_lt hshows))
  | data hvalue =>
    right
    have hvalue' := hvalue.grown.count_le
    have hdata := h.data
    simp only [List.flatten_append, List.flatten_singleton, List.count_append]
    rcases hheavier with (hheavier | hheavier | ⟨hsurfaces, hmore⟩) | hshows
    · exact Or.inl hheavier
    · exact Or.inr (Or.inl hheavier)
    · exact Or.inr (Or.inr ⟨hsurfaces, by omega⟩)
    · obtain ⟨hsurfaces, hmore⟩ := hvalue.count_lt hshows
      exact Or.inr (Or.inr ⟨hsurfaces, by omega⟩)

/-- The frames of the client hold at least as many replacement characters, and more if
something severed shows. -/
theorem feedLines_heavier {ls : List (List Char × Bool)} {out : List (List Char)}
    (h : List.Forall₂ FrayedLine ls out) (hswollen : Swollen cur cur') :
    total (feedLines cur (ls.map Prod.fst)).2 ≤ total (feedLines cur' out).2 ∧
      (Heavier (ls.map Prod.fst) cur cur' ∨ unharmed ls = false →
        total (feedLines cur (ls.map Prod.fst)).2 < total (feedLines cur' out).2) := by
  induction h generalizing cur cur' with
  | nil =>
    refine ⟨Nat.le_refl _, ?_⟩
    rintro ((⟨h, -⟩ | ⟨h, -⟩ | ⟨h, -⟩) | h) <;> simp [surfaces, unharmed] at h
  | @cons line outLine ls out hline h ih =>
    obtain ⟨line, torn⟩ := line
    obtain ⟨hnext, hle⟩ := feedLine_swollen hline hswollen
    obtain ⟨hrest, hstrict⟩ := ih hnext
    simp only [List.map_cons, feedLines, total_append]
    refine ⟨Nat.add_le_add hle hrest, fun hharmed => ?_⟩
    have hcases : (Heavier (line :: ls.map Prod.fst) cur cur' ∨
        (torn && shows line (ls.map Prod.fst)) = true) ∨ unharmed ls = false := by
      rcases hharmed with hheavier | hharmed
      · exact Or.inl (Or.inl hheavier)
      · rw [unharmed, Bool.and_eq_false_iff, Bool.not_eq_false'] at hharmed
        exact hharmed.imp_left Or.inr
    rcases hcases with hnow | hlater
    · rcases feedLine_heavier hline hswollen hnow with hlt | hheavier
      · exact Nat.add_lt_add_of_lt_of_le hlt hrest
      · exact Nat.add_lt_add_of_le_of_lt hle (hstrict (Or.inl hheavier))
    · exact Nat.add_lt_add_of_le_of_lt hle (hstrict (Or.inr hlater))

/-! ## Both together -/

/-- However a text is cut into chunks, the client makes the same frames of it exactly if no
chunk boundary goes through a character of a line that shows. -/
theorem parse_chunks_iff (text : List Char) (chunks : List (List UInt8))
    (h : chunks.flatten = encode text) :
    (parse chunks = parse [encode text] ∧ aparse chunks = aparse [encode text]) ↔
      unharmed (markedLines (marked (boundaries 0 chunks) 0 text)) = true := by
  obtain ⟨decoded, hdecoded, hfrayed⟩ := frayed_chunks 0 (List.forall_mem_nil _) h
  have hparse : parse chunks = (feedLines {} (lines isNewline decoded)).2 := by
    rw [parse_eq, hdecoded]
    rfl
  have hlines := map_fst_markedLines (marked (boundaries 0 chunks) 0 text)
  rw [map_fst_marked] at hlines
  have hwhole : parse [encode text] = (feedLines {}
      ((markedLines (marked (boundaries 0 chunks) 0 text)).map Prod.fst)).2 := by
    rw [parse_encode, hlines]
  constructor
  · rintro ⟨hsame, -⟩
    by_contra hharmed
    have hlt := (feedLines_heavier (frayed_lines hfrayed) (.refl {})).2
      (Or.inr (Bool.eq_false_iff.mpr hharmed))
    rw [hparse, hwhole] at hsame
    rw [List.length_nil, Nat.add_zero, hsame] at hlt
    exact Nat.lt_irrefl _ hlt
  · intro hunharmed
    have hsame : parse chunks = parse [encode text] := by
      rw [hparse, hwhole]
      exact (feedLines_agree (frayed_lines hfrayed) hunharmed (.refl _ {})).symm
    exact ⟨hsame, hsame⟩

def commented : List Char := ":é\ndata: é\n\n".toList

def cutInComment : List (List UInt8) := [(encode commented).take 2, (encode commented).drop 2]

theorem parse_chunks_commented : cutInComment.flatten = encode commented ∧
    parse cutInComment = parse [encode commented] := by
  have hflatten : cutInComment.flatten = encode commented := by decide
  exact ⟨hflatten, ((parse_chunks_iff commented cutInComment hflatten).mpr (by decide)).1⟩

def cutInData : List (List UInt8) :=
  [[0x64, 0x61, 0x74, 0x61, 0x3a, 0x20, 0xc3], [0xa9, 0x0a, 0x0a]]

theorem parse_loses_character : cutInData.flatten = encode "data: é\n\n".toList ∧
    parse cutInData = [{ dataLines := [[replacement, replacement]] }] ∧
    parse [cutInData.flatten] = [{ dataLines := [['é']] }] := by
  have hsevered : cutInData.flatMap decode =
      "data: ".toList ++ [replacement, replacement, '\n', '\n'] := by
    decide
  have hwhole : [cutInData.flatten].flatMap decode = "data: é\n\n".toList := by decide
  rw [parse_eq, parse_eq, hsevered, hwhole]
  decide +kernel

end Orditect.Stream.Chunking.Proofs
