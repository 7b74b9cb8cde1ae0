import Orditect.Stream.Sse
import Orditect.Support.JsonRoundTrip
import Mathlib.Data.Bool.AllAny
/-!
# Frames on the wire

The client feeds the lines of what it decoded to the parser, wherever the chunks end; so what
a frame was written as is read line by line, and no text inside of it can end it early.
-/

namespace Orditect.Stream.Sse.Proofs

open Support Support.JsonText Support.Lines Support.LuaJson

/-! ## Line by line -/

def feedLines (cur : RawSSEFrame) : List (List Char) → RawSSEFrame × List RawSSEFrame
  | [] => (cur, [])
  | line :: ls =>
    ((feedLines (feedLine cur line).1 ls).1,
      (feedLine cur line).2.toList ++ (feedLines (feedLine cur line).1 ls).2)

theorem feedLines_append (cur : RawSSEFrame) (a b : List (List Char)) :
    feedLines cur (a ++ b) = ((feedLines (feedLines cur a).1 b).1,
      (feedLines cur a).2 ++ (feedLines (feedLines cur a).1 b).2) := by
  induction a generalizing cur with
  | nil => rfl
  | cons line a ih => simp only [List.cons_append, feedLines, ih, List.append_assoc]

variable {line : List Char}

theorem lines_cons_newline (h : ∀ c ∈ line, isNewline c = false) (rest : List Char) :
    lines isNewline (line ++ '\n' :: rest) = line :: lines isNewline rest := by
  rw [lines_append_cons line (by decide), lines_singleton h (by decide)]
  rfl

theorem lines_of_no_newline (h : ∀ c ∈ line, isNewline c = false) (hne : line ≠ []) :
    lines isNewline line = [line] := by
  induction line with
  | nil => exact absurd rfl hne
  | cons c line ih =>
    obtain ⟨hc, hline⟩ := List.forall_mem_cons.mp h
    rw [lines, if_neg (by simp [hc])]
    cases line with
    | nil => rfl
    | cons d line => rw [ih hline (List.cons_ne_nil _ _)]

theorem isNewline_of_splitNewline {buffer : List Char} (h : splitNewline buffer = none) :
    ∀ c ∈ buffer, isNewline c = false := by
  induction buffer with
  | nil => simp
  | cons c cs ih =>
    rw [splitNewline] at h
    split at h
    next hc => simp at h
    next hc =>
      exact List.forall_mem_cons.mpr ⟨by simpa using hc, ih (Option.map_eq_none_iff.mp h)⟩

theorem drainLines_spec (cur : RawSSEFrame) (buffer more : List Char) :
    (∀ c ∈ (drainLines cur buffer).2.1, isNewline c = false) ∧
      (feedLines cur (lines isNewline (buffer ++ more))).2 = (drainLines cur buffer).2.2 ++
        (feedLines (drainLines cur buffer).1
          (lines isNewline ((drainLines cur buffer).2.1 ++ more))).2 := by
  fun_induction drainLines cur buffer with
  | case1 cur buffer hsplit => exact ⟨isNewline_of_splitNewline hsplit, rfl⟩
  | case2 cur buffer line rest hsplit fed drained ih =>
    obtain ⟨hbuffer, hline⟩ := splitNewline_eq hsplit
    refine ⟨ih.1, ?_⟩
    rw [hbuffer, List.append_assoc, List.cons_append, lines_cons_newline hline, feedLines, ih.2,
      List.append_assoc]

theorem parseChunks_eq (cur : RawSSEFrame) {buffer : List Char}
    (hbuffer : ∀ c ∈ buffer, isNewline c = false) (chunks : List (List UInt8)) :
    parseChunks cur buffer chunks =
      (feedLines cur (lines isNewline (buffer ++ chunks.flatMap Utf8.decode))).2 := by
  induction chunks generalizing cur buffer with
  | nil =>
    rw [parseChunks, List.flatMap_nil, List.append_nil]
    split
    next hnil => rw [hnil]; rfl
    next hne =>
      rw [lines_of_no_newline hbuffer hne]
      exact (List.append_nil _).symm
  | cons chunk chunks ih =>
    obtain ⟨hclean, hfeed⟩ := drainLines_spec cur (buffer ++ Utf8.decode chunk)
      (chunks.flatMap Utf8.decode)
    rw [parseChunks, List.flatMap_cons, ← List.append_assoc, hfeed, ih _ hclean]

theorem parse_eq (chunks : List (List UInt8)) :
    parse chunks = (feedLines {} (lines isNewline (chunks.flatMap Utf8.decode))).2 :=
  parseChunks_eq {} (by simp) chunks

theorem parse_encode (text : List Char) :
    parse [Utf8.encode text] = (feedLines {} (lines isNewline text)).2 := by
  rw [parse_eq, List.flatMap_singleton, Utf8.decode_encode]

/-! ## What a frame is written as -/

def wire (f : SSEFrame) : List Char := List.intercalate ['\n'] f.lines ++ ['\n', '\n']

theorem lines_intercalate {ls : List (List Char)} (hne : ls ≠ [])
    (h : ∀ line ∈ ls, ∀ c ∈ line, isNewline c = false) (rest : List Char) :
    lines isNewline (List.intercalate ['\n'] ls ++ '\n' :: rest) = ls ++ lines isNewline rest := by
  induction ls with
  | nil => exact absurd rfl hne
  | cons line ls ih =>
    obtain ⟨hline, hls⟩ := List.forall_mem_cons.mp h
    cases ls with
    | nil => simpa using lines_cons_newline hline rest
    | cons next ls =>
      rw [List.intercalate_cons_cons, List.append_assoc, List.append_assoc, List.singleton_append,
        lines_cons_newline hline, ih (List.cons_ne_nil _ _) hls]
      rfl

theorem lines_wire {f : SSEFrame} (hne : f.lines ≠ [])
    (h : ∀ line ∈ f.lines, ∀ c ∈ line, isNewline c = false) (rest : List Char) :
    lines isNewline (wire f ++ rest) = f.lines ++ [] :: lines isNewline rest := by
  rw [wire, List.append_assoc]
  exact (lines_intercalate hne h ('\n' :: rest)).trans
    (congrArg _ (lines_cons_newline (List.forall_mem_nil _) rest))

theorem rstripNewlines_eq_self (h : ∀ c ∈ line, c ≠ '\n' ∧ c ≠ '\r') :
    rstripNewlines line = line := by
  rw [rstripNewlines, List.rdropWhile_eq_self_iff]
  intro hne
  have hlast := h _ (List.getLast_mem hne)
  simp [hlast.1, hlast.2]

theorem kind_event (t : EventType) :
    LineKind.of ("event: ".toList ++ t.value.toList) = .event t.value.toList := by
  cases t <;> decide

theorem kind_id {id : List Char} (h : ∀ c ∈ id, c ≠ '\n' ∧ c ≠ '\r') :
    LineKind.of ("id: ".toList ++ id) = .id (strip (' ' :: id)) := by
  have hline : ∀ c ∈ ['i', 'd', ':', ' '] ++ id, c ≠ '\n' ∧ c ≠ '\r' := by
    simpa using h
  have hid : "id: ".toList ++ id = ['i', 'd', ':', ' '] ++ id := rfl
  rw [hid, LineKind.of, rstripNewlines_eq_self hline]
  rfl

theorem kind_data {data : List Char} (h : ∀ c ∈ data, c ≠ '\n' ∧ c ≠ '\r') :
    LineKind.of ("data: ".toList ++ data) = .data data := by
  have hline : ∀ c ∈ ['d', 'a', 't', 'a', ':', ' '] ++ data, c ≠ '\n' ∧ c ≠ '\r' := by
    simpa using h
  have hdata : "data: ".toList ++ data = ['d', 'a', 't', 'a', ':', ' '] ++ data := rfl
  rw [hdata, LineKind.of, rstripNewlines_eq_self hline]
  rfl

theorem lines_heartbeatFrame : heartbeatFrame.lines ≠ [] ∧
    ∀ line ∈ heartbeatFrame.lines, ∀ c ∈ line, isNewline c = false := by
  have hall : heartbeatFrame.lines.all (fun line => line.all fun c => !isNewline c) = true := by
    decide
  exact ⟨by decide, by simpa using hall⟩

theorem feedLines_heartbeatFrame : feedLines {} (heartbeatFrame.lines ++ [[]]) = ({}, []) := by
  decide

/-! ## The round trip -/

theorem clean_sseId {ν φ : Type} {e : EventEnvelope ν φ}
    (h : ∀ c ∈ e.streamId.toList, c ≠ '\n' ∧ c ≠ '\r') : ∀ c ∈ e.sseId, c ≠ '\n' ∧ c ≠ '\r' := by
  intro c hc
  rcases List.mem_append.mp hc with hc | hc
  · exact h c hc
  rcases List.mem_cons.mp hc with rfl | hc
  · decide
  have hnumeric := NumberText.numeric e.seq c hc
  constructor <;>
  · rintro rfl
    exact absurd hnumeric (by decide)

theorem distinct_toPayload {ν φ : Type} [PyNumber ν φ] (e : EventEnvelope ν φ) :
    distinct (.obj e.toPayload) = true := by
  have hdata := e.data.2
  rw [EventEnvelope.toPayload]
  split <;> simp [distinct, distinctFields] at hdata ⊢ <;> exact hdata

section

variable {ν φ : Type} [NumberText ν] [PyNumber ν φ]

inductive Sent (ν φ : Type) where
  | event (envelope : EventEnvelope ν φ) (eventType : EventType)
  | heartbeat

def Sent.frame : Sent ν φ → SSEFrame
  | .event envelope eventType => frameFromEnvelope envelope eventType
  | .heartbeat => heartbeatFrame

def Sent.encode : Sent ν φ → List UInt8
  | .event envelope eventType => encodeEnvelope envelope eventType
  | .heartbeat => encodeHeartbeat

def Sent.event? : Sent ν φ → Option (EventType × EventEnvelope ν φ)
  | .event envelope eventType => some (eventType, envelope)
  | .heartbeat => none

/-- A stream id that cannot end the line it is written on. -/
def Sent.oneLine : Sent ν φ → Prop
  | .event envelope _ => ∀ c ∈ envelope.streamId.toList, c ≠ '\n' ∧ c ≠ '\r'
  | .heartbeat => True

theorem clean_of_le {text : List Char} (h : ∀ c ∈ text, 32 ≤ c.toNat) :
    ∀ c ∈ text, c ≠ '\n' ∧ c ≠ '\r' := by
  intro c hc
  constructor <;>
  · rintro rfl
    exact absurd (h _ hc) (by decide)

theorem lines_frameFromEnvelope (e : EventEnvelope ν φ) (t : EventType) :
    (frameFromEnvelope e t).lines = ["id: ".toList ++ e.sseId, "event: ".toList ++ t.value.toList,
      "data: ".toList ++ dumps (.obj e.toPayload)] := by
  have hclean := clean_of_le (fun c hc => le_of_mem_dumps (v := .obj e.toPayload) hc)
  simp only [SSEFrame.lines, frameFromEnvelope]
  rw [universalNewlines_eq_self fun h => (hclean _ h).2 rfl,
    List.splitOn, List.splitOnP_eq_singleton fun c hc => beq_false_of_ne (hclean c hc).1]
  rfl

def Sent.received : Sent ν φ → Option RawSSEFrame
  | .event e t => some
      { event := t.value.toList, dataLines := [dumps (.obj e.toPayload)],
        id := some (strip (' ' :: e.sseId)) }
  | .heartbeat => none

theorem lines_sent (item : Sent ν φ) (h : item.oneLine) :
    item.frame.lines ≠ [] ∧ ∀ line ∈ item.frame.lines, ∀ c ∈ line, isNewline c = false := by
  cases item with
  | heartbeat => exact lines_heartbeatFrame
  | event e t =>
    have hdata := clean_of_le (fun c hc => le_of_mem_dumps (v := .obj e.toPayload) hc)
    have hevent : ∀ c ∈ "event: ".toList ++ t.value.toList, isNewline c = false := by
      cases t <;> exact List.all_iff_forall_prop.mp (by decide)
    rw [Sent.frame, lines_frameFromEnvelope]
    simp only [List.forall_mem_cons, List.forall_mem_append]
    refine ⟨List.cons_ne_nil _ _, ⟨List.all_iff_forall_prop.mp (by decide), ?_⟩,
      List.forall_mem_append.mp hevent, ⟨List.all_iff_forall_prop.mp (by decide), ?_⟩, by simp⟩
    · exact fun c hc => beq_false_of_ne (clean_sseId h c hc).1
    · exact fun c hc => beq_false_of_ne (hdata c hc).1

theorem feedLines_sent (item : Sent ν φ) (h : item.oneLine) :
    feedLines {} (item.frame.lines ++ [[]]) = ({}, item.received.toList) := by
  cases item with
  | heartbeat => exact feedLines_heartbeatFrame
  | event e t =>
    have hdata := kind_data
      (clean_of_le (fun c hc => le_of_mem_dumps (v := .obj e.toPayload) hc))
    have hblank : LineKind.of [] = .boundary := rfl
    rw [Sent.frame, lines_frameFromEnvelope]
    simp only [List.cons_append, List.nil_append, feedLines, feedLine, kind_id (clean_sseId h),
      kind_event, hdata, hblank]
    rfl

variable {items : List (Sent ν φ)}

theorem lines_items (h : ∀ item ∈ items, item.oneLine) :
    lines isNewline (items.flatMap fun item => wire item.frame) =
      items.flatMap fun item => item.frame.lines ++ [[]] := by
  induction items with
  | nil => rfl
  | cons item items ih =>
    obtain ⟨hitem, hitems⟩ := List.forall_mem_cons.mp h
    obtain ⟨hne, hclean⟩ := lines_sent item hitem
    rw [List.flatMap_cons, List.flatMap_cons, lines_wire hne hclean, ih hitems,
      List.append_assoc, List.singleton_append]

theorem feedLines_items (h : ∀ item ∈ items, item.oneLine) :
    feedLines {} (items.flatMap fun item => item.frame.lines ++ [[]]) =
      ({}, items.filterMap Sent.received) := by
  induction items with
  | nil => rfl
  | cons item items ih =>
    obtain ⟨hitem, hitems⟩ := List.forall_mem_cons.mp h
    rw [List.flatMap_cons, feedLines_append, feedLines_sent item hitem, ih hitems]
    cases item <;> rfl

theorem encode_items (items : List (Sent ν φ)) :
    items.flatMap Sent.encode = Utf8.encode (items.flatMap fun item => wire item.frame) := by
  rw [Utf8.encode, List.flatMap_assoc]
  exact congrArg (items.flatMap ·) (funext fun item => by cases item <;> rfl)

theorem parse_items (h : ∀ item ∈ items, item.oneLine) :
    parse [items.flatMap Sent.encode] = items.filterMap Sent.received := by
  rw [encode_items, parse_encode, lines_items h, feedLines_items h]

theorem ofValue_value (t : EventType) : EventType.ofValue t.value.toList = some t := by
  cases t <;> decide

theorem envelopeFromFrame_dumps (event : List Char) (id : Option (List Char))
    (e : EventEnvelope ν φ) :
    envelopeFromFrame event (dumps (.obj e.toPayload)) id = some e := by
  rw [envelopeFromFrame, loads_dumps (distinct_toPayload e)]
  obtain ⟨v, streamId, stage, seq, ts, data⟩ := e
  cases stage <;>
    simp [EventEnvelope.toPayload, List.lookup_cons, PyNumber.asInt_ofInt, PyNumber.asFloat_ofFloat,
      asStr, asOptionalStr]

def openFrame (f : RawSSEFrame) : Option EventType × Option (EventEnvelope ν φ) :=
  (EventType.ofValue f.event, envelopeFromFrame f.event f.data f.id)

theorem openFrame_received (item : Sent ν φ) :
    item.received.map openFrame = item.event?.map fun p => (some p.1, some p.2) := by
  cases item with
  | heartbeat => rfl
  | event e t =>
    simp only [Sent.received, Sent.event?, Option.map_some, openFrame, RawSSEFrame.data,
      List.intercalate_singleton, ofValue_value, envelopeFromFrame_dumps]

/-- Whatever events are sent, with heartbeats between them, the client opens the same events in
the same order. -/
theorem sse_round_trip (items : List (Sent ν φ)) (h : ∀ item ∈ items, item.oneLine) :
    (parse [items.flatMap Sent.encode]).map openFrame =
        (items.filterMap Sent.event?).map (fun p => (some p.1, some p.2)) ∧
      (aparse [items.flatMap Sent.encode]).map openFrame =
        (items.filterMap Sent.event?).map fun p => (some p.1, some p.2) := by
  have hparse : (parse [items.flatMap Sent.encode]).map openFrame =
      (items.filterMap Sent.event?).map fun p => (some p.1, some p.2) := by
    rw [parse_items h, List.map_filterMap, List.map_filterMap]
    exact congrArg (items.filterMap ·) (funext openFrame_received)
  exact ⟨hparse, hparse⟩

end

instance wholeNumbers : PyNumber Int Int where
  ofInt n := n
  asInt
    | .num n => some n
    | _ => none
  asInt_ofInt _ := rfl
  ofFloat x := x
  asFloat
    | .num x => some x
    | _ => none
  asFloat_ofFloat _ := rfl

def twoLines : List (Sent Int Int) :=
  [.event { streamId := "1", seq := 1, ts := 5, data := ⟨[("text", .str "a\n\ndata: b")], rfl⟩ }
      .streamDelta,
    .heartbeat]

theorem sse_round_trip_twoLines : (∀ item ∈ twoLines, item.oneLine) ∧
    (parse [twoLines.flatMap Sent.encode]).map openFrame =
      (twoLines.filterMap Sent.event?).map (fun p => (some p.1, some p.2)) := by
  have honeLine : ∀ item ∈ twoLines, item.oneLine := by
    intro item hitem
    rcases List.mem_pair.mp hitem with rfl | rfl
    · exact clean_of_le (List.all_iff_forall_prop.mp (by decide))
    · trivial
  exact ⟨honeLine, (sse_round_trip twoLines honeLine).1⟩

end Orditect.Stream.Sse.Proofs
