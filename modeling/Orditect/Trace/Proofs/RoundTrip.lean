import Orditect.Support.JsonCut
import Orditect.Trace.File
/-!
# What is read back from a trace file

Both readers return a row as it was written, unless `splitlines` cuts it: it also goes by
three characters that the encoder leaves as they are, and then no part of the row is taken
for a row.
-/

namespace Orditect.Trace.Proofs

open Support.Instant Support.JsonText Support.Lines Support.LuaJson

variable {ν : Type} [NumberText ν] [LuaNumber ν]

def written (rows : List (Envelope ν)) : List Char := rows.foldl appendEnvelope []

def rowText (e : Envelope ν) : List Char := dumps (.obj e.row)

theorem written_eq (rows : List (Envelope ν)) :
    written rows = rows.flatMap fun e => rowText e ++ ['\n'] := by
  have hfold : ∀ file : List Char, rows.foldl appendEnvelope file =
      file ++ rows.flatMap fun e => rowText e ++ ['\n'] := by
    induction rows with
    | nil => simp
    | cons e rows ih =>
      intro file
      rw [List.foldl_cons, ih, List.flatMap_cons, appendEnvelope, rowText, List.append_assoc]
  exact hfold []

omit [NumberText ν] in
theorem distinct_row (e : Envelope ν) : distinct (.obj e.row) = true := by
  have hdata := e.data.2
  simp [Envelope.row, distinct, distinctFields] at hdata ⊢
  exact hdata

theorem loads_rowText (e : Envelope ν) : loads (rowText e) = some (.obj e.row) :=
  loads_dumps (distinct_row e)

theorem loadRow_rowText (e : Envelope ν) : loadRow (rowText e) = some e.row := by
  obtain ⟨middle, hends⟩ : ∃ middle, rowText e = '{' :: middle ++ ['}'] := dumps_obj e.row
  have hstrip : strip (rowText e) = rowText e := by
    rw [hends]
    exact strip_of_ends (by decide) (by decide) middle
  have hne : rowText e ≠ [] := by
    rw [hends]
    simp
  rw [loadRow, hstrip, if_neg hne, loads_rowText]
  rfl

theorem not_return_mem_written (rows : List (Envelope ν)) : '\r' ∉ written rows := by
  rw [written_eq]
  intro h
  obtain ⟨e, -, hc⟩ := List.mem_flatMap.mp h
  rcases List.mem_append.mp hc with hc | hc
  · exact absurd (le_of_mem_dumps hc) (by decide)
  · simp at hc

theorem lines_written (isBreak : Char → Bool) (hbreak : isBreak '\n' = true)
    (rows : List (Envelope ν)) :
    lines isBreak (written rows) = rows.flatMap fun e => lines isBreak (rowText e ++ ['\n']) := by
  rw [written_eq]
  induction rows with
  | nil => rfl
  | cons e rows ih =>
    rw [List.flatMap_cons, List.append_assoc, List.singleton_append,
      lines_append_cons _ hbreak, ih, List.flatMap_cons]

/-! ## A row that is cut -/

/-- The boundaries of `splitlines` that a row may hold. -/
def isCut (c : Char) : Bool := c.toNat ∈ [0x85, 0x2028, 0x2029]

/-- No string that was given for the row has such a character. -/
def intact (e : Envelope ν) : Bool :=
  (e.op :: strings (.obj e.data.1)).all fun s => s.toList.all fun c => !isCut c

variable {c : Char} {e : Envelope ν} {line : List Char}

theorem isBoundary_eq_isCut (h : 32 ≤ c.toNat) : isBoundary c = isCut c := by
  rw [Bool.eq_iff_iff]
  simp only [isBoundary, isCut, decide_eq_true_eq, List.mem_cons, List.not_mem_nil, or_false]
  omega

theorem toNat_of_isCut (h : isCut c = true) : 128 ≤ c.toNat := by
  simp only [isCut, decide_eq_true_eq, List.mem_cons, List.not_mem_nil, or_false] at h
  omega

theorem space_cases (h : isSpace c = true) (hle : 32 ≤ c.toNat) :
    c = ' ' ∨ 128 ≤ c.toNat := by
  have hcode : c.toNat = 32 ∨ 128 ≤ c.toNat := by
    simp only [isSpace, decide_eq_true_eq, List.mem_cons, List.not_mem_nil, or_false] at h
    omega
  exact hcode.imp_left fun hc => Char.toNat_inj.mp hc

theorem intact_iff (e : Envelope ν) :
    intact e = true ↔ ∀ c ∈ rowText e, isBoundary c = false := by
  have hrow : ∀ c, isCut c = true →
      (c ∈ rowText e ↔ ∃ s ∈ e.op :: strings (.obj e.data.1), c ∈ s.toList) := by
    intro c hc
    have hcode := toNat_of_isCut hc
    have hne : ∀ d : Char, d.toNat < 128 → c ≠ d := by
      rintro d hd rfl
      omega
    have hinstant : c ∉ e.ts.isoformat.toList := fun hmem =>
      hne c (DateTime.toNat_of_mem_isoformat hmem) rfl
    rw [rowText, mem_dumps hcode]
    simp [Envelope.row, strings, fieldStrings, hinstant, hne 'v' (by decide), hne 'o' (by decide),
      hne 'p' (by decide), hne 't' (by decide), hne 's' (by decide), hne 'd' (by decide),
      hne 'a' (by decide)]
  constructor
  · intro h c hc
    rw [isBoundary_eq_isCut (le_of_mem_dumps hc), ← Bool.not_eq_true]
    intro hcut
    obtain ⟨s, hs, hmem⟩ := (hrow c hcut).mp hc
    have hnot := List.all_eq_true.mp (List.all_eq_true.mp h s hs) c hmem
    rw [hcut] at hnot
    exact absurd hnot (by decide)
  · intro h
    refine List.all_eq_true.mpr fun s hs => List.all_eq_true.mpr fun c hc => ?_
    rw [Bool.not_eq_true']
    by_contra hcut
    have hcut : isCut c = true := by simpa using hcut
    have hmem := (hrow c hcut).mpr ⟨s, hs, hc⟩
    have hfalse := h c hmem
    rw [isBoundary_eq_isCut (le_of_mem_dumps hmem), hcut] at hfalse
    exact absurd hfalse (by decide)

theorem read_ne_failed {a b : List Char} (h : rowText e = a ++ b) :
    (Lexer.outside [] []).read a ≠ .failed := by
  intro hfail
  obtain ⟨d, w, hread, -⟩ := read_dumps (.obj e.row) []
  rw [show dumps (.obj e.row) = a ++ b from h, Lexer.read_append, hfail, Lexer.read_failed] at hread
  simp at hread

theorem isInside_of_boundary {a b : List Char} (h : rowText e = a ++ [c] ++ b)
    (hc : isBoundary c = true) :
    ((Lexer.outside [] []).read (a ++ [c])).isInside = true := by
  have hmem : c ∈ rowText e := by
    rw [h]
    simp
  have hcut : isCut c = true := by rw [← isBoundary_eq_isCut (le_of_mem_dumps hmem), hc]
  have hgo := read_ne_failed h
  rw [Lexer.read_append] at hgo ⊢
  exact isInside_step (toNat_of_isCut hcut) hgo

omit [LuaNumber ν] in
theorem loadRow_of_loads
    (h : ∀ fields, loads (ν := ν) (strip line) = some (.obj fields) → fields.lookup "data" = none) :
    loadRow (ν := ν) line = none := by
  unfold loadRow
  split
  · rfl
  · split
    next row hrow => rw [h row hrow]
    next => rfl

theorem exists_strip_part (e : Envelope ν) (line : List Char) (h : ∀ c ∈ line, c ∈ rowText e) :
    ∃ left right, line = left ++ strip line ++ right ∧
      (∀ c ∈ left, isSpace c = true ∧ (c = ' ' ∨ 128 ≤ c.toNat)) ∧
        ∀ c ∈ right, c = ' ' ∨ 128 ≤ c.toNat := by
  obtain ⟨left, right, heq, hleft, hright⟩ := exists_strip line
  have hrow : ∀ c ∈ left ++ strip line ++ right, 32 ≤ c.toNat := fun c hc =>
    le_of_mem_dumps (h c (heq ▸ hc))
  refine ⟨left, right, heq, fun c hc => ⟨hleft c hc, space_cases (hleft c hc) ?_⟩,
    fun c hc => space_cases (hright c hc) ?_⟩
  · exact hrow c (by simp [hc])
  · exact hrow c (by simp [hc])

theorem loadRow_first {rest : List Char} (h : rowText e = line ++ [c] ++ rest)
    (hc : isBoundary c = true) :
    loadRow (ν := ν) line = none := by
  have hcode : 128 ≤ c.toNat := by
    have hmem : c ∈ rowText e := by rw [h]; simp
    exact toNat_of_isCut (isBoundary_eq_isCut (le_of_mem_dumps hmem) ▸ hc)
  have hend : ((Lexer.outside [] []).read line).isInside = true := by
    have hafter := isInside_of_boundary h hc
    rw [Lexer.read_append] at hafter
    exact isInside_of_step (Or.inr hcode) hafter
  obtain ⟨left, right, heq, hleft, hright⟩ := exists_strip_part e line
    (fun d hd => by rw [h]; simp [hd])
  -- a row starts with a brace, which is not stripped
  obtain rfl : left = [] := by
    cases left with
    | nil => rfl
    | cons d left =>
      obtain ⟨middle, hrow⟩ : ∃ middle, rowText e = '{' :: middle ++ ['}'] := dumps_obj e.row
      rw [h, heq] at hrow
      obtain ⟨rfl, -⟩ := List.cons.inj hrow
      exact absurd (hleft '{' List.mem_cons_self).1 (by decide)
  rw [heq, List.nil_append, Lexer.read_append] at hend
  obtain ⟨done, text, hinside⟩ := isInside_iff.mp (isInside_of_read hright hend)
  apply loadRow_of_loads
  intro fields hloads
  obtain ⟨ts, hlex, -⟩ := mem_tokens_of_loads hloads
  rw [lex, hinside] at hlex
  simp [Lexer.finish] at hlex

theorem onlyInside_d : OnlyInside 'd' := ⟨by decide, by decide, by decide, by decide⟩

theorem loadRow_other {before rest : List Char} (h : rowText e = before ++ [c] ++ line ++ rest)
    (hc : isBoundary c = true) :
    loadRow (ν := ν) line = none := by
  have hstart := isInside_of_boundary (show rowText e = before ++ [c] ++ (line ++ rest) by
    rw [h, List.append_assoc]) hc
  obtain ⟨left, right, heq, hleft, hright⟩ := exists_strip_part e line
    (fun d hd => by rw [h]; simp [hd])
  obtain ⟨done, text, hinside⟩ := isInside_iff.mp
    (isInside_read (fun d hd => (hleft d hd).2) hstart)
  rw [← Lexer.read_append] at hinside
  have hgo : (Lexer.inside done text).read (strip line) ≠ .failed := by
    rw [← hinside, ← Lexer.read_append]
    apply read_ne_failed (e := e) (b := right ++ rest)
    rw [h]
    nth_rewrite 1 [heq]
    simp
  apply loadRow_of_loads
  intro fields hloads
  rw [List.lookup_eq_none_iff]
  rintro f hf
  have hname := not_mem_of_loads onlyInside_d hgo hloads f hf
  rw [bne_iff_ne]
  intro heq
  rw [← heq] at hname
  exact hname (by decide)

theorem loadRow_of_cut (he : intact e = false) (h : line ∈ lines isBoundary (rowText e ++ ['\n'])) :
    loadRow (ν := ν) line = none := by
  have hend : isBoundary '\n' = true := by decide
  cases hlines : lines isBoundary (rowText e ++ ['\n']) with
  | nil => simp [hlines] at h
  | cons first more =>
    obtain ⟨⟨after, hfirst⟩, hmore⟩ := cut_lines _ hlines
    rw [hlines] at h
    rcases List.mem_cons.mp h with rfl | h
    · obtain ⟨rest, hafter, htext⟩ := hfirst.of_concat hend (Or.inr rfl)
      cases rest with
      | nil =>
        have hclean : intact e = true := by
          rw [intact_iff, htext]
          simpa using hfirst.clean
        rw [he] at hclean
        exact absurd hclean (by decide)
      | cons b rest =>
        obtain hnil | ⟨b', rest', hcons, hb⟩ := hfirst.after_eq
        · rw [hnil] at hafter
          simp at hafter
        · rw [hcons, List.cons_append] at hafter
          obtain ⟨rfl, -⟩ := List.cons.inj hafter
          have hrow : rowText e = line ++ [b'] ++ rest := by
            rw [htext]
            simp
          exact loadRow_first hrow hb
    · obtain ⟨before, b, after, hb, hcut⟩ := hmore line h
      by_cases hline : line = []
      · subst hline
        rfl
      · obtain ⟨rest, -, htext⟩ := hcut.of_concat hend (Or.inl hline)
        exact loadRow_other htext hb

/-! ## The two readers -/

theorem iterEnvelopes_written (rows : List (Envelope ν)) :
    iterEnvelopes (written rows) = rows.map Envelope.row := by
  rw [iterEnvelopes, universalNewlines_eq_self (not_return_mem_written rows),
    lines_written isNewline rfl]
  induction rows with
  | nil => rfl
  | cons e rows ih =>
    have hline : lines isNewline (rowText e ++ ['\n']) = [rowText e] := by
      refine lines_singleton (fun c hc => ?_) rfl
      have hle := le_of_mem_dumps hc
      rw [isNewline, beq_eq_false_iff_ne]
      rintro rfl
      exact absurd hle (by decide)
    rw [List.flatMap_cons, List.filterMap_append, ih, hline]
    simp [loadRow_rowText]

theorem readNdjson_written (rows : List (Envelope ν)) :
    readNdjson (written rows) = (rows.filter fun e => intact e).map fun e => e.data.1 := by
  rw [readNdjson, universalNewlines_eq_self (not_return_mem_written rows),
    lines_written isBoundary rfl]
  induction rows with
  | nil => rfl
  | cons e rows ih =>
    rw [List.flatMap_cons, List.filterMap_append, ih]
    by_cases he : intact e = true
    · have hline := lines_singleton ((intact_iff e).mp he) (show isBoundary '\n' = true by decide)
      rw [hline, List.filter_cons_of_pos he]
      simp [loadRow_rowText, Envelope.row, rowData, List.lookup_cons]
    · have hnone : ((lines isBoundary (rowText e ++ ['\n'])).filterMap fun line =>
          (loadRow (ν := ν) line).bind rowData) = [] := by
        rw [List.filterMap_eq_nil_iff]
        intro line hline
        rw [loadRow_of_cut (by simpa using he) hline]
        rfl
      rw [hnone, List.filter_cons_of_neg he, List.nil_append]

/-- Both readers return the rows as they were written if and only if no string of a row holds
one of the three characters. -/
theorem readers_agree_iff_intact (rows : List (Envelope ν)) :
    (iterEnvelopes (written rows) = rows.map Envelope.row ∧
        readNdjson (written rows) = rows.map fun e => e.data.1) ↔
      ∀ e ∈ rows, intact e = true := by
  rw [readNdjson_written]
  constructor
  · rintro ⟨-, h⟩
    have hlength := congrArg List.length h
    rw [List.length_map, List.length_map] at hlength
    exact List.filter_eq_self.mp (List.filter_sublist.eq_of_length hlength)
  · intro h
    exact ⟨iterEnvelopes_written rows, by rw [List.filter_eq_self.mpr h]⟩

def separatedNote : Envelope Int where
  op := "append"
  ts := DateTime.newYear 0
  data := ⟨[("note", .str (String.ofList ['a', Char.ofNat 0x2028, 'b']))], by decide⟩

theorem separated_note_lost :
    readNdjson (ν := Int) (written [separatedNote]) = [] ∧
      iterEnvelopes (written [separatedNote]) = [separatedNote.row] := by
  refine ⟨?_, iterEnvelopes_written [separatedNote]⟩
  rw [readNdjson_written]
  decide

end Orditect.Trace.Proofs
