import Orditect.Stream.Pipeline
/-!
# The text pipeline and the chunks

What a middleware yields is compared with one rewriting of the whole text.  The normalizer
agrees with it however the text is cut: between two chunks it is an automaton that reads
single characters.  The tail cleaner decides on whole chunks, so blanks that end a chunk with
text in it stay.
-/

namespace Orditect.Stream

open Support.Lines

/-! ## Newlines -/

namespace NewlineNormalizer.Proofs

/-- The text with every line end a newline, every run of newlines one of them, and without
the newline it then ends in. -/
def normalized (text : List Char) : List Char :=
  let t := mergeNewlines (universalNewlines text)
  if t.getLast? = some '\n' then t.dropLast else t

def isLineEnd (c : Char) : Bool := c == '\r' || c == '\n'

/-- The automaton: a line end is remembered, and written before the next other character. -/
def scan (pendingNl : Bool) : List Char → List Char × Bool
  | [] => ([], pendingNl)
  | c :: cs =>
    if isLineEnd c then scan true cs
    else ((if pendingNl then ['\n'] else []) ++ c :: (scan false cs).1, (scan false cs).2)

variable {pendingNl : Bool} {t : List Char}

theorem scan_append (pendingNl : Bool) (s t : List Char) :
    scan pendingNl (s ++ t) =
      ((scan pendingNl s).1 ++ (scan (scan pendingNl s).2 t).1,
        (scan (scan pendingNl s).2 t).2) := by
  induction s generalizing pendingNl with
  | nil => simp [scan]
  | cons c s ih =>
    rw [List.cons_append, scan, scan]
    split
    · exact ih true
    · rw [ih false]
      simp

theorem getLast?_scan (pendingNl : Bool) (t : List Char) :
    (scan pendingNl t).1.getLast? ≠ some '\n' := by
  induction t generalizing pendingNl with
  | nil => simp [scan]
  | cons c t ih =>
    rw [scan]
    split
    · exact ih true
    · rename_i hc
      have hother : c ≠ '\n' := fun h => hc (by rw [h]; rfl)
      rw [List.getLast?_append_cons, List.getLast?_cons]
      cases hlast : (scan false t).1.getLast? with
      | none => simpa using hother
      | some d => simpa [hlast] using ih false

/-! The two substitutions, read character by character. -/

theorem mergeNewlines_newline (t : List Char) :
    mergeNewlines ('\n' :: t) = '\n' :: (mergeNewlines t).dropWhile isNewline := by
  induction t with
  | nil => rfl
  | cons c t ih =>
    by_cases hc : c = '\n'
    · rw [mergeNewlines, if_pos ⟨rfl, by rw [hc]; rfl⟩, hc, ih, List.dropWhile_cons_of_pos rfl,
        List.dropWhile_idempotent]
    · have hother : ¬isNewline c = true := by simpa [isNewline] using hc
      rw [mergeNewlines, if_neg (by simp [hc]), mergeNewlines, if_neg (by simp [hc]),
        List.dropWhile_cons_of_neg hother]

def unified (t : List Char) : List Char := mergeNewlines (universalNewlines t)

theorem unified_newline (t : List Char) :
    unified ('\n' :: t) = '\n' :: (unified t).dropWhile isNewline := by
  rw [unified, universalNewlines, mergeNewlines_newline, unified]
  · simp
  · simp

theorem unified_lineEnd {c : Char} (hc : isLineEnd c = true) (t : List Char) :
    unified (c :: t) = '\n' :: (unified t).dropWhile isNewline := by
  rcases (by simpa [isLineEnd] using hc : c = '\r' ∨ c = '\n') with rfl | rfl
  · by_cases hnext : ∃ rest, t = '\n' :: rest
    · obtain ⟨rest, rfl⟩ := hnext
      rw [unified_newline, List.dropWhile_cons_of_pos rfl, List.dropWhile_idempotent]
      exact mergeNewlines_newline (universalNewlines rest)
    · rw [unified, universalNewlines, mergeNewlines_newline, unified]
      exact fun rest h => hnext ⟨rest, h⟩
  · exact unified_newline t

theorem unified_other {c : Char} (hc : isLineEnd c = false) (t : List Char) :
    unified (c :: t) = c :: unified t := by
  obtain ⟨hr, hn⟩ : c ≠ '\r' ∧ c ≠ '\n' := by simpa [isLineEnd] using hc
  rw [unified, universalNewlines, mergeNewlines, if_neg (by simp [hn]), unified]
  · exact fun rest h _ => hr h
  · exact hr

def opened (pendingNl : Bool) (t : List Char) : List Char :=
  if pendingNl then '\n' :: t.dropWhile isNewline else t

theorem opened_unified (pendingNl : Bool) (t : List Char) :
    opened pendingNl (unified t) =
      (scan pendingNl t).1 ++ if (scan pendingNl t).2 then ['\n'] else [] := by
  induction t generalizing pendingNl with
  | nil => cases pendingNl <;> rfl
  | cons c t ih =>
    rw [scan]
    split
    · rename_i hc
      rw [← ih true, unified_lineEnd hc]
      cases pendingNl with
      | false => rfl
      | true =>
        rw [opened, if_pos rfl, List.dropWhile_cons_of_pos rfl, List.dropWhile_idempotent]
        rfl
    · rename_i hc
      have hother : ¬isNewline c = true := by simp_all [isLineEnd, isNewline]
      rw [unified_other (by simpa using hc)]
      cases pendingNl with
      | false => simpa [opened] using ih false
      | true => simpa [opened, List.dropWhile_cons_of_neg hother] using ih false

theorem feed_eq_scan (pendingNl : Bool) (t : List Char) : feed pendingNl t = scan pendingNl t := by
  have hlast := getLast?_scan pendingNl t
  have hfeed : feed pendingNl t = if (opened pendingNl (unified t)).getLast? = some '\n'
      then ((opened pendingNl (unified t)).dropLast, true)
      else (opened pendingNl (unified t), false) := rfl
  rw [hfeed, opened_unified]
  generalize scan pendingNl t = result at hlast ⊢
  obtain ⟨out, pending⟩ := result
  cases pending with
  | true => simp
  | false => simpa using hlast

theorem flatten_processFrom (pendingNl : Bool) (chunks : List (List Char)) :
    (processFrom pendingNl chunks).flatten = (scan pendingNl chunks.flatten).1 := by
  induction chunks generalizing pendingNl with
  | nil => rfl
  | cons chunk chunks ih =>
    rw [processFrom, feed_eq_scan, List.flatten_cons, scan_append]
    dsimp only
    split
    · rename_i hnil
      rw [hnil, ih]
      rfl
    · rw [List.flatten_cons, ih]

/-- However the text is cut into chunks, the normalizer yields the normalized text. -/
theorem process_normalized (chunks : List (List Char)) :
    (process chunks).flatten = normalized chunks.flatten := by
  have hwhole : normalized chunks.flatten = (feed false chunks.flatten).1 := by
    have hfeed : feed false chunks.flatten = if (unified chunks.flatten).getLast? = some '\n'
      then ((unified chunks.flatten).dropLast, true) else (unified chunks.flatten, false) := rfl
    rw [hfeed, apply_ite Prod.fst]
    rfl
  rw [hwhole, feed_eq_scan]
  exact flatten_processFrom false chunks

end NewlineNormalizer.Proofs

/-! ## Trailing blanks -/

namespace TailCleaner.Proofs

theorem processFrom_of_blank {chunks : List (List Char)}
    (h : ∀ chunk ∈ chunks, wsOnly chunk = true) (buffer : List (List Char)) :
    processFrom buffer chunks = [] := by
  induction chunks generalizing buffer with
  | nil => rfl
  | cons chunk chunks ih =>
    obtain ⟨hchunk, hchunks⟩ := List.forall_mem_cons.mp h
    rw [processFrom, if_pos hchunk]
    exact ih hchunks _

theorem processFrom_last {last : List Char} {blanks : List (List Char)}
    (hlast : wsOnly last = false) (hblanks : ∀ chunk ∈ blanks, wsOnly chunk = true)
    (buffer front : List (List Char)) :
    processFrom buffer (front ++ last :: blanks) = buffer ++ front ++ [last] := by
  induction front generalizing buffer with
  | nil =>
    rw [List.nil_append, processFrom, if_neg (by simp [hlast]), processFrom_of_blank hblanks,
      List.append_nil]
  | cons chunk front ih =>
    rw [List.cons_append, processFrom]
    split
    · rw [ih]
      simp
    · rw [ih]
      simp

theorem flatten_blank {blanks : List (List Char)} (h : ∀ chunk ∈ blanks, wsOnly chunk = true) :
    ∀ c ∈ blanks.flatten, isSpace c = true := by
  intro c hc
  obtain ⟨chunk, hchunk, hmem⟩ := List.mem_flatten.mp hc
  exact List.all_eq_true.mp (h chunk hchunk) c hmem

theorem rdropWhile_append_blank {p : Char → Bool} (text : List Char) {blank : List Char}
    (h : ∀ c ∈ blank, p c = true) : (text ++ blank).rdropWhile p = text.rdropWhile p := by
  rw [List.rdropWhile, List.reverse_append, List.dropWhile_append_of_pos, List.rdropWhile]
  exact fun c hc => h c (List.mem_reverse.mp hc)

theorem eq_rdropWhile_concat_iff {p : Char → Bool} (text : List Char) (c : Char) :
    text ++ [c] = (text ++ [c]).rdropWhile p ↔ p c = false := by
  cases hc : p c with
  | false => simp [List.rdropWhile_concat_neg p text c (by simp [hc])]
  | true =>
    rw [List.rdropWhile_concat_pos p text c hc]
    have hshort := (List.rdropWhile_prefix p (l := text)).length_le
    simp only [Bool.true_eq_false, iff_false]
    intro heq
    have hlength := congrArg List.length heq
    rw [List.length_append, List.length_singleton] at hlength
    omega

def endsInText (chunks : List (List Char)) : Prop :=
  ∀ chunk ∈ chunks.reverse.find? fun chunk => !wsOnly chunk, ∀ c ∈ chunk.getLast?,
    isSpace c = false

/-- The cleaner takes away the blanks at the end of the text exactly when the last chunk with
text in it has none at its end. -/
theorem process_trimmed_iff (chunks : List (List Char)) :
    (process chunks).flatten = chunks.flatten.rdropWhile isSpace ↔ endsInText chunks := by
  unfold endsInText
  cases hfind : chunks.reverse.find? fun chunk => !wsOnly chunk with
  | none =>
    have hblank : ∀ chunk ∈ chunks, wsOnly chunk = true := by simpa using hfind
    rw [process, processFrom_of_blank hblank, List.rdropWhile_eq_nil_iff.mpr (flatten_blank hblank)]
    simp
  | some last =>
    obtain ⟨hlast, blanks, front, hsplit, hblanks⟩ := List.find?_eq_some_iff_append.mp hfind
    obtain rfl : chunks = front.reverse ++ last :: blanks.reverse := by
      rw [← List.reverse_reverse chunks, hsplit]
      simp
    rw [Bool.not_eq_true'] at hlast
    obtain ⟨text, c, rfl⟩ : ∃ text c, last = text ++ [c] := by
      rcases List.eq_nil_or_concat last with rfl | ⟨text, c, rfl⟩
      · simp [wsOnly] at hlast
      · exact ⟨text, c, List.concat_eq_append⟩
    have hrest : ∀ chunk ∈ blanks.reverse, wsOnly chunk = true := by simpa using hblanks
    have hin : (front.reverse ++ (text ++ [c]) :: blanks.reverse).flatten =
        front.reverse.flatten ++ text ++ [c] ++ blanks.reverse.flatten := by simp
    have hout : (process (front.reverse ++ (text ++ [c]) :: blanks.reverse)).flatten =
        front.reverse.flatten ++ text ++ [c] := by
      rw [process, processFrom_last hlast hrest]
      simp
    rw [hout, hin, rdropWhile_append_blank _ (flatten_blank hrest), eq_rdropWhile_concat_iff]
    simp

theorem blank_after_text :
    (process ["a ".toList]).flatten = "a ".toList ∧
      (["a ".toList].flatten).rdropWhile isSpace = "a".toList := by
  decide

end TailCleaner.Proofs

end Orditect.Stream
