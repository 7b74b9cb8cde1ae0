import Orditect.Stream.Proofs.Sse
/-!
# Severed characters

`SSEClient` decodes each chunk for itself.  A character that a chunk boundary goes through
comes out as replacement characters, one for the bytes before the boundary and one for each
byte after it.  Lines end where they ended before, and each line is of the kind it was.
-/

namespace Orditect.Stream.Chunking.Proofs

open Support Support.Lines Support.Utf8 Stream.Sse.Proofs

/-! ## Severed characters -/

def boundaries : Nat → List (List UInt8) → List Nat
  | start, [] => [start]
  | start, chunk :: chunks => start :: boundaries (start + chunk.length) chunks

def severed (cuts : List Nat) (start : Nat) (c : Char) : Bool :=
  cuts.any fun p => decide (start < p) && decide (p < start + (String.utf8EncodeChar c).length)

def marked (cuts : List Nat) : Nat → List Char → List (Char × Bool)
  | _, [] => []
  | start, c :: text =>
    (c, severed cuts start c) :: marked cuts (start + (String.utf8EncodeChar c).length) text

def markedLines : List (Char × Bool) → List (List Char × Bool)
  | [] => []
  | (c, torn) :: rest =>
    if isNewline c then ([], false) :: markedLines rest
    else
      match markedLines rest with
      | [] => [([c], torn)]
      | (line, torn') :: ls => (c :: line, torn || torn') :: ls

/-! ## What the client decodes -/

/-- The text that comes out where the marked characters are severed. -/
inductive Frayed : List (Char × Bool) → List Char → Prop where
  | nil : Frayed [] []
  | whole (c : Char) {marks : List (Char × Bool)} {text : List Char} (h : Frayed marks text) :
      Frayed ((c, false) :: marks) (c :: text)
  | torn {c : Char} {k : Nat} {marks : List (Char × Bool)} {text : List Char}
      (hc : 0x80 ≤ c.toNat) (hk : 1 < k) (h : Frayed marks text) :
      Frayed ((c, true) :: marks) (List.replicate k replacement ++ text)

variable {marks : List (Char × Bool)} {text : List Char} {start : Nat} {c : Char} {p : Char → Bool}
  {line : List Char}

theorem Frayed.append_whole (h : Frayed marks text) (before : List Char) :
    Frayed (before.map (·, false) ++ marks) (before ++ text) := by
  induction before with
  | nil => exact h
  | cons c before ih => exact .whole c ih

variable {chunks : List (List UInt8)} {back : List UInt8} {front : List Char} {torn : Bool}
  {out : List Char}

theorem le_of_mem_boundaries {p : Nat} (h : p ∈ boundaries start chunks) : start ≤ p := by
  induction chunks generalizing start with
  | nil => exact Nat.le_of_eq (List.mem_singleton.mp h).symm
  | cons chunk chunks ih =>
    rcases List.mem_cons.mp h with rfl | h
    · exact Nat.le_refl _
    · exact Nat.le_trans (Nat.le_add_right _ _) (ih h)

theorem mem_boundaries (start : Nat) (chunks : List (List UInt8)) :
    start ∈ boundaries start chunks := by
  cases chunks <;> exact List.mem_cons_self

theorem marked_cons {p : Nat} (h : p ≤ start) (cuts : List Nat) (text : List Char) :
    marked (p :: cuts) start text = marked cuts start text := by
  induction text generalizing start with
  | nil => rfl
  | cons c text ih =>
    have hsevered : severed (p :: cuts) start c = severed cuts start c := by
      rw [severed, List.any_cons, decide_eq_false (by omega : ¬ start < p)]
      rfl
    rw [marked, marked, hsevered, ih (Nat.le_trans h (Nat.le_add_right _ _))]

theorem marked_append (cuts : List Nat) (start : Nat) (a b : List Char) :
    marked cuts start (a ++ b) = marked cuts start a ++
      marked cuts (start + (encode a).length) b := by
  induction a generalizing start with
  | nil => rfl
  | cons c a ih =>
    rw [List.cons_append, marked, marked, ih, encode_cons, List.length_append, Nat.add_assoc]
    rfl

theorem marked_whole {cuts : List Nat}
    (h : ∀ p ∈ cuts, p ≤ start ∨ start + (encode text).length ≤ p) :
    marked cuts start text = text.map (·, false) := by
  induction text generalizing start with
  | nil => rfl
  | cons c text ih =>
    rw [encode_cons, List.length_append] at h
    have hsevered : severed cuts start c = false := by
      rw [severed, List.any_eq_false]
      intro p hp
      have := h p hp
      simp only [Bool.and_eq_true, decide_eq_true_eq]
      omega
    rw [marked, hsevered, ih fun p hp => ?_]
    · rfl
    · have := h p hp
      omega

theorem utf8EncodeChar_ne_nil (c : Char) : String.utf8EncodeChar c ≠ [] := by
  rcases utf8EncodeChar_cases c with ⟨-, h⟩ | ⟨a, b, rest, h⟩
  · simp [h]
  · simp [h.bytes]

inductive Split (text : List Char) (front back : List UInt8) : Prop where
  | between (a b : List Char) (htext : text = a ++ b) (hfront : front = encode a)
      (hback : back = encode b)
  | inside (a : List Char) (c : Char) (b : List Char) (begun left : List UInt8)
      (htext : text = a ++ c :: b) (hc : String.utf8EncodeChar c = begun ++ left)
      (hbegun : begun ≠ []) (hleft : left ≠ []) (hfront : front = encode a ++ begun)
      (hback : back = left ++ encode b)

theorem split_encode {front : List UInt8} (h : encode text = front ++ back) :
    Split text front back := by
  induction text generalizing front with
  | nil =>
    obtain ⟨rfl, rfl⟩ := List.append_eq_nil_iff.mp h.symm
    exact .between [] [] rfl rfl rfl
  | cons c text ih =>
    rw [encode_cons] at h
    rcases List.append_eq_append_iff.mp h with ⟨more, rfl, hmore⟩ | ⟨left, hc, rfl⟩
    · rcases ih hmore with ⟨a, b, rfl, rfl, rfl⟩ |
        ⟨a, d, b, begun, left, rfl, hd, hbegun, hleft, rfl, rfl⟩
      · exact .between (c :: a) b rfl rfl rfl
      · exact .inside (c :: a) d b begun left rfl hd hbegun hleft
          (by rw [encode_cons, List.append_assoc]) rfl
    · by_cases hleft : left = []
      · rw [hleft, List.append_nil] at hc
        exact .between [c] text rfl (by rw [← hc]; simp) (by rw [hleft]; rfl)
      by_cases hfront : front = []
      · rw [hfront, List.nil_append] at hc
        exact .between [] (c :: text) rfl hfront (by rw [encode_cons, hc])
      · exact .inside [] c text front left rfl hc hfront hleft rfl rfl

theorem beyond_of_split {front : List UInt8} (h : String.utf8EncodeChar c = front ++ back)
    (hfront : front ≠ []) (hback : back ≠ []) :
    0x80 ≤ c.toNat := by
  rcases utf8EncodeChar_cases c with ⟨-, hc⟩ | ⟨a, b, rest, hlong⟩
  · have hlength := congrArg List.length (h.symm.trans hc)
    have hfront' := List.length_pos_iff.mpr hfront
    have hback' := List.length_pos_iff.mpr hback
    simp only [List.length_append, List.length_singleton] at hlength
    omega
  · exact hlong.beyond

theorem frayed_chunks {rest : List UInt8} (start : Nat)
    (hrest : ∀ b ∈ rest, isContinuation b = true) (h : chunks.flatten = rest ++ encode text) :
    ∃ decoded, chunks.flatMap decode = List.replicate rest.length replacement ++ decoded ∧
      Frayed (marked (boundaries start chunks) (start + rest.length) text) decoded := by
  induction chunks generalizing start rest text with
  | nil =>
    obtain ⟨rfl, htext⟩ := List.append_eq_nil_iff.mp h.symm
    cases text with
    | nil => exact ⟨[], rfl, .nil⟩
    | cons c text =>
      rw [encode_cons, List.append_eq_nil_iff] at htext
      exact absurd htext.1 (utf8EncodeChar_ne_nil c)
  | cons chunk chunks ih =>
    rw [List.flatten_cons] at h
    rw [List.flatMap_cons, boundaries, marked_cons (Nat.le_add_right _ _)]
    rcases List.append_eq_append_iff.mp h with ⟨more, rfl, hmore⟩ | ⟨more, rfl, hmore⟩
    · -- The chunk holds nothing but bytes of the severed character.
      obtain ⟨hchunk, hleft⟩ := List.forall_mem_append.mp hrest
      obtain ⟨decoded, hdecoded, hfrayed⟩ := ih (start + chunk.length) hleft hmore
      refine ⟨decoded, ?_, ?_⟩
      · have hdecode := decode_rest hchunk []
        rw [encode_nil, List.append_nil, List.append_nil] at hdecode
        rw [hdecode, hdecoded, ← List.append_assoc, List.replicate_append_replicate,
          List.length_append]
      · rw [List.length_append, ← Nat.add_assoc]
        exact hfrayed
    · rcases split_encode hmore with ⟨a, b, rfl, rfl, hflatten⟩ |
        ⟨a, c, b, begun, left, rfl, hc, hbegun, hleft, rfl, hflatten⟩
      · -- The chunk ends between two characters.
        obtain ⟨decoded, hdecoded, hfrayed⟩ := ih (start + (rest ++ encode a).length)
          (List.forall_mem_nil _) hflatten
        refine ⟨a ++ decoded, ?_, ?_⟩
        · rw [decode_rest hrest, hdecoded, List.append_assoc]
          rfl
        · rw [List.length_append, ← Nat.add_assoc] at hfrayed ⊢
          rw [marked_append, marked_whole fun p hp => Or.inr (le_of_mem_boundaries hp)]
          exact hfrayed.append_whole a
      · -- The chunk ends inside of `c`.
        obtain ⟨decoded, hdecoded, hfrayed⟩ := ih (start + (rest ++ (encode a ++ begun)).length)
          (continuations_back hc hbegun) hflatten
        have hbegun' := List.length_pos_iff.mpr hbegun
        have hleft' := List.length_pos_iff.mpr hleft
        have hlength := congrArg List.length hc
        rw [List.length_append] at hlength
        have hstart : start + (rest ++ (encode a ++ begun)).length =
            start + rest.length + (encode a).length + begun.length := by
          simp only [List.length_append]
          omega
        rw [hstart] at hfrayed ⊢
        refine ⟨a ++ (List.replicate (left.length + 1) replacement ++ decoded), ?_, ?_⟩
        · rw [← List.append_assoc rest, decode_rest_front hrest a hc hbegun hleft, hdecoded,
            Nat.add_comm, List.replicate_add]
          simp only [List.append_assoc, List.replicate_one]
        · have hsevered : severed (boundaries (start + rest.length + (encode a).length +
              begun.length) chunks) (start + rest.length + (encode a).length) c = true := by
            rw [severed, List.any_eq_true]
            refine ⟨_, mem_boundaries _ _, ?_⟩
            simp only [Bool.and_eq_true, decide_eq_true_eq]
            omega
          have hwhole : ∀ p ∈ boundaries (start + rest.length + (encode a).length +
              begun.length) chunks, p ≤ start + rest.length ∨
              start + rest.length + (encode a).length ≤ p := by
            intro p hp
            have := le_of_mem_boundaries hp
            omega
          rw [marked_append, marked_whole hwhole, marked, hsevered, hlength, ← Nat.add_assoc]
          exact (Frayed.torn (beyond_of_split hc hbegun hleft) (by omega) hfrayed).append_whole a

/-! ## Lines -/

def FrayedLine (line : List Char × Bool) (out : List Char) : Prop :=
  ∃ marks, Frayed marks out ∧ marks.map Prod.fst = line.1 ∧ marks.any Prod.snd = line.2

theorem map_fst_marked (cuts : List Nat) (start : Nat) (text : List Char) :
    (marked cuts start text).map Prod.fst = text := by
  induction text generalizing start with
  | nil => rfl
  | cons c text ih => rw [marked, List.map_cons, ih]

theorem map_fst_markedLines (marks : List (Char × Bool)) :
    (markedLines marks).map Prod.fst = lines isNewline (marks.map Prod.fst) := by
  induction marks with
  | nil => rfl
  | cons mark marks ih =>
    obtain ⟨c, torn⟩ := mark
    rw [markedLines, List.map_cons, lines, ← ih]
    split
    · rfl
    · cases markedLines marks <;> rfl

theorem lines_cons_of_not (h : isNewline c = false) (text : List Char) :
    lines isNewline (c :: text) =
      (c :: (lines isNewline text).headD []) :: (lines isNewline text).tail := by
  rw [lines, if_neg (by simp [h])]
  cases lines isNewline text <;> rfl

theorem lines_replicate {k : Nat} (hk : 0 < k) (text : List Char) :
    lines isNewline (List.replicate k replacement ++ text) =
      (List.replicate k replacement ++ (lines isNewline text).headD []) ::
        (lines isNewline text).tail := by
  induction k with
  | zero => omega
  | succ k ih =>
    rw [List.replicate_succ, List.cons_append, lines_cons_of_not (by decide)]
    cases k with
    | zero => rfl
    | succ k => rw [ih (Nat.succ_pos k)]; rfl

theorem markedLines_cons_of_not (h : isNewline c = false) (torn : Bool)
    (marks : List (Char × Bool)) :
    markedLines ((c, torn) :: marks) =
      (c :: ((markedLines marks).headD ([], false)).1,
        torn || ((markedLines marks).headD ([], false)).2) :: (markedLines marks).tail := by
  rw [markedLines, if_neg (by simp [h])]
  cases markedLines marks <;> simp

theorem isNewline_of_beyond (h : 0x80 ≤ c.toNat) : isNewline c = false := by
  rw [isNewline, beq_eq_false_iff_ne]
  rintro rfl
  exact absurd h (by decide)

theorem FrayedLine.headD {ls : List (List Char × Bool)} {out : List (List Char)}
    (h : List.Forall₂ FrayedLine ls out) : FrayedLine (ls.headD ([], false)) (out.headD []) := by
  cases h with
  | nil => exact ⟨[], .nil, rfl, rfl⟩
  | cons h _ => exact h

theorem forall₂_tail {α β : Type} {r : α → β → Prop} {a : List α} {b : List β}
    (h : List.Forall₂ r a b) : List.Forall₂ r a.tail b.tail := by
  cases h with
  | nil => exact .nil
  | cons _ h => exact h

def isLineEnd (c : Char) : Bool := c == '\r' || c == '\n'

def isPlain (c : Char) : Bool := decide (c.toNat < 0x80) && !isLineEnd c

theorem plain_of_mem (hfront : front.all isPlain = true) (hc : c ∈ front) :
    c.toNat < 0x80 ∧ isLineEnd c = false := by
  simpa [isPlain] using List.all_eq_true.mp hfront c hc

section

variable (h : Frayed marks text)
include h

theorem frayed_lines :
    List.Forall₂ FrayedLine (markedLines marks) (lines isNewline text) := by
  induction h with
  | nil => exact .nil
  | @whole c marks text h ih =>
    cases hc : isNewline c with
    | true =>
      rw [markedLines, lines, if_pos hc, if_pos hc]
      exact .cons ⟨[], .nil, rfl, rfl⟩ ih
    | false =>
      rw [markedLines_cons_of_not hc, lines_cons_of_not hc]
      obtain ⟨line, hline, hfst, hsnd⟩ := FrayedLine.headD ih
      exact .cons ⟨_, hline.whole c, by simp [hfst], by simp [hsnd]⟩ (forall₂_tail ih)
  | @torn c k marks text hc hk h ih =>
    rw [markedLines_cons_of_not (isNewline_of_beyond hc), lines_replicate (by omega)]
    obtain ⟨line, hline, hfst, hsnd⟩ := FrayedLine.headD ih
    exact .cons ⟨_, hline.torn hc hk, by simp [hfst], by simp⟩ (forall₂_tail ih)

/-! ## Kinds of lines -/

theorem Frayed.eq_of_whole (hwhole : marks.any Prod.snd = false) :
    text = marks.map Prod.fst := by
  induction h with
  | nil => rfl
  | whole c h ih => rw [List.map_cons, ← ih (by simpa using hwhole)]
  | torn hc hk h ih => simp at hwhole

theorem Frayed.count_le :
    (marks.map Prod.fst).count replacement ≤ text.count replacement := by
  induction h with
  | nil => exact Nat.le_refl _
  | whole c h ih =>
    rw [List.map_cons, List.count_cons, List.count_cons]
    exact Nat.add_le_add_right ih _
  | @torn c k marks text hc hk h ih =>
    rw [List.map_cons, List.count_cons, List.count_append, List.count_replicate_self]
    split <;> omega

/-- A severed character leaves more replacement characters than there were. -/
theorem Frayed.count_lt (htorn : marks.any Prod.snd = true) :
    (marks.map Prod.fst).count replacement < text.count replacement := by
  induction h with
  | nil => simp at htorn
  | whole c h ih =>
    have hlt := ih (by simpa using htorn)
    rw [List.map_cons, List.count_cons, List.count_cons]
    exact Nat.add_lt_add_right hlt _
  | @torn c k marks text hc hk h ih =>
    have hle := h.count_le
    rw [List.map_cons, List.count_cons, List.count_append, List.count_replicate_self]
    split <;> omega

theorem Frayed.isPrefixOf (front : List Char) (hfront : front.all isPlain = true) :
    front.isPrefixOf text = front.isPrefixOf (marks.map Prod.fst) := by
  induction h generalizing front with
  | nil => rfl
  | whole c h ih =>
    cases front with
    | nil => rfl
    | cons d front =>
      rw [List.all_cons, Bool.and_eq_true] at hfront
      rw [List.map_cons, List.isPrefixOf, List.isPrefixOf, ih front hfront.2]
  | @torn c k marks text hc hk h ih =>
    cases front with
    | nil => simp [List.isPrefixOf]
    | cons d front =>
      obtain ⟨hd, -⟩ := plain_of_mem hfront List.mem_cons_self
      have hdc : d ≠ c := by
        rintro rfl
        omega
      have hdr : d ≠ replacement := by
        rintro rfl
        exact absurd hd (by decide)
      obtain ⟨k, rfl⟩ : ∃ n, k = n + 1 := ⟨k - 1, by omega⟩
      rw [List.replicate_succ, List.cons_append, List.map_cons, List.isPrefixOf, List.isPrefixOf,
        beq_false_of_ne hdc, beq_false_of_ne hdr]
      rfl

theorem Frayed.all (hp : ∀ c, p c = true → c.toNat < 0x80) :
    text.all p = (marks.map Prod.fst).all p := by
  induction h with
  | nil => rfl
  | whole c h ih => rw [List.map_cons, List.all_cons, List.all_cons, ih]
  | @torn c k marks text hc hk h ih =>
    have hpc : p c = false := by
      rw [← Bool.not_eq_true]
      exact fun h => absurd (hp c h) (by omega)
    have hpr : p replacement = false := by
      rw [← Bool.not_eq_true]
      exact fun h => absurd (hp _ h) (by decide)
    obtain ⟨k, rfl⟩ : ∃ n, k = n + 1 := ⟨k - 1, by omega⟩
    rw [List.replicate_succ, List.cons_append, List.map_cons, List.all_cons,
      List.all_cons, hpc, hpr]
    rfl

end

theorem count_dropWhile (hp : p replacement = false) (text : List Char) :
    (text.dropWhile p).count replacement = text.count replacement := by
  have hfront : replacement ∉ text.takeWhile p := by
    intro hmem
    rw [List.mem_takeWhile_imp hmem] at hp
    exact absurd hp (by decide)
  conv_rhs => rw [← List.takeWhile_append_dropWhile (p := p) (l := text), List.count_append,
    List.count_eq_zero_of_not_mem hfront, Nat.zero_add]

theorem count_rdropWhile (hp : p replacement = false) (text : List Char) :
    (text.rdropWhile p).count replacement = text.count replacement := by
  rw [List.rdropWhile, List.count_reverse, count_dropWhile hp, List.count_reverse]

theorem count_strip (text : List Char) :
    (strip text).count replacement = text.count replacement := by
  rw [strip, count_rdropWhile (by decide), count_dropWhile (by decide)]

theorem count_dropSpace (text : List Char) :
    (dropSpace text).count replacement = text.count replacement := by
  unfold dropSpace
  split
  · rw [List.count_cons_of_ne (by decide)]
  · rfl

theorem count_drop (h : front.isPrefixOf text = true) (hfront : front.all isPlain = true) :
    (text.drop front.length).count replacement = text.count replacement := by
  obtain ⟨rest, rfl⟩ := List.isPrefixOf_iff_prefix.mp h
  have hmem : replacement ∉ front := fun hmem => absurd (plain_of_mem hfront hmem).1 (by decide)
  rw [List.drop_left, List.count_append, List.count_eq_zero_of_not_mem hmem, Nat.zero_add]

theorem isPrefixOf_rstripNewlines (front : List Char) (hfront : front.all isPlain = true)
    (line : List Char) : front.isPrefixOf (rstripNewlines line) = front.isPrefixOf line := by
  rw [Bool.eq_iff_iff, List.isPrefixOf_iff_prefix, List.isPrefixOf_iff_prefix]
  have hline : rstripNewlines line ++ line.rtakeWhile isLineEnd = line :=
    List.rdropWhile_append_rtakeWhile
  constructor
  · exact fun h => h.trans ⟨_, hline⟩
  · rintro ⟨rest, hrest⟩
    rw [← hline] at hrest
    rcases List.append_eq_append_iff.mp hrest with ⟨more, h, -⟩ | ⟨more, h, htail⟩
    · exact ⟨more, h.symm⟩
    · cases more with
      | nil => exact ⟨[], by rw [h, List.append_nil, List.append_nil]⟩
      | cons d more =>
        have hd : isLineEnd d = true :=
          List.mem_rtakeWhile_imp (by rw [htail]; exact List.mem_cons_self)
        rw [(plain_of_mem hfront (by simp [h])).2] at hd
        exact absurd hd (by decide)

theorem kind_eq (line : List Char) : LineKind.of line =
    if line.all isLineEnd then .boundary
    else if ":".toList.isPrefixOf line then .comment
    else if "event:".toList.isPrefixOf line then .event (strip ((rstripNewlines line).drop 6))
    else if "id:".toList.isPrefixOf line then .id (strip ((rstripNewlines line).drop 3))
    else if "data:".toList.isPrefixOf line then .data (dropSpace ((rstripNewlines line).drop 5))
    else .other := by
  have hblank : rstripNewlines line = [] ↔ line.all isLineEnd = true := by
    rw [List.all_eq_true]
    exact List.rdropWhile_eq_nil_iff
  simp only [LineKind.of, hblank, isPrefixOf_rstripNewlines ":".toList (by decide),
    isPrefixOf_rstripNewlines "event:".toList (by decide),
    isPrefixOf_rstripNewlines "id:".toList (by decide),
    isPrefixOf_rstripNewlines "data:".toList (by decide)]

theorem count_value (hline : front.isPrefixOf line = true) (hfront : front.all isPlain = true) :
    ((rstripNewlines line).drop front.length).count replacement = line.count replacement := by
  rw [← isPrefixOf_rstripNewlines front hfront] at hline
  rw [count_drop hline hfront]
  exact count_rdropWhile (by decide) line

def Grows (torn : Bool) (value value' : List Char) : Prop :=
  if torn then value.count replacement < value'.count replacement else value' = value

theorem Grows.eq {shown : Bool} {value value' : List Char} (h : Grows torn value value')
    (hshown : (torn && shown) = false) (hs : shown = true) : value' = value := by
  rw [hs, Bool.and_true] at hshown
  rwa [hshown] at h

inductive Becomes (torn : Bool) : LineKind → LineKind → Prop where
  | boundary : Becomes torn .boundary .boundary
  | comment : Becomes torn .comment .comment
  | event {value value' : List Char} (h : Grows torn value value') :
      Becomes torn (.event value) (.event value')
  | id {value value' : List Char} (h : Grows torn value value') :
      Becomes torn (.id value) (.id value')
  | data {value value' : List Char} (h : Grows torn value value') :
      Becomes torn (.data value) (.data value')
  | other : Becomes torn .other .other

theorem Becomes.refl (kind : LineKind) : Becomes false kind kind := by
  cases kind with
  | boundary => exact .boundary
  | comment => exact .comment
  | event value => exact .event rfl
  | id value => exact .id rfl
  | data value => exact .data rfl
  | other => exact .other

theorem becomes_of_torn (h : FrayedLine (line, true) out) :
    Becomes true (LineKind.of line) (LineKind.of out) := by
  obtain ⟨marks, hfrayed, rfl, htorn⟩ := h
  have hend : ∀ c, isLineEnd c = true → c.toNat < 0x80 := by
    intro c hc
    rw [isLineEnd, Bool.or_eq_true, beq_iff_eq, beq_iff_eq] at hc
    rcases hc with rfl | rfl <;> decide
  have hvalue : ∀ front : List Char, front.all isPlain = true →
      front.isPrefixOf (marks.map Prod.fst) = true →
      ((rstripNewlines (marks.map Prod.fst)).drop front.length).count replacement <
        ((rstripNewlines out).drop front.length).count replacement := by
    intro front hfront hline
    rw [count_value hline hfront,
      count_value ((hfrayed.isPrefixOf front hfront).trans hline) hfront]
    exact hfrayed.count_lt htorn
  rw [kind_eq, kind_eq, hfrayed.all hend, hfrayed.isPrefixOf ":".toList (by decide),
    hfrayed.isPrefixOf "event:".toList (by decide), hfrayed.isPrefixOf "id:".toList (by decide),
    hfrayed.isPrefixOf "data:".toList (by decide)]
  split
  · exact .boundary
  split
  · exact .comment
  split
  next hline =>
    apply Becomes.event
    rw [Grows, if_pos rfl, count_strip, count_strip]
    exact hvalue _ (by decide) hline
  split
  next hline =>
    apply Becomes.id
    rw [Grows, if_pos rfl, count_strip, count_strip]
    exact hvalue _ (by decide) hline
  split
  next hline =>
    apply Becomes.data
    rw [Grows, if_pos rfl, count_dropSpace, count_dropSpace]
    exact hvalue _ (by decide) hline
  · exact .other

theorem becomes_of_frayed (h : FrayedLine (line, torn) out) :
    Becomes torn (LineKind.of line) (LineKind.of out) := by
  cases torn with
  | true => exact becomes_of_torn h
  | false =>
    obtain ⟨marks, hfrayed, hline, hwhole⟩ := h
    rw [hfrayed.eq_of_whole hwhole, hline]
    exact .refl _

end Orditect.Stream.Chunking.Proofs
