import Orditect.Stream.Proofs.Tasks
/-!
# Turns of `run()` and `_produce`

What each turn comes to, phase by phase.
-/

namespace Orditect.Stream.Runner.Proofs

open Support

/-! ## Turns of `_produce` -/

inductive Advances (cfg : StreamConfig) (s : Runner) : ProducerPhase → Prop where
  | gathered (h : s.producer = .gathering)
      (hall : ∀ executor ∈ s.executors, executor.result.isSome = true) :
      Advances cfg s (.reporting 0)
  | report {sid : StreamId} (h : s.producer = .reporting sid) (hsid : sid < cfg.maxId) :
      Advances cfg s (.reporting (sid + 1))
  | await {deadline : Nat} {pid : PlaceholderId} {rest : List PlaceholderId}
      (h : s.producer = .settling deadline (pid :: rest)) :
      Advances cfg s (.waiting deadline pid rest)
  | skip {deadline : Nat} {pid : PlaceholderId} {rest : List PlaceholderId}
      (h : s.producer = .waiting deadline pid rest)
      (hready : pid ∉ s.pending ∨ deadline ≤ s.now) (hnone : s.announceable pid = none) :
      Advances cfg s (.settling deadline rest)
  | manifested {placeholders : List ManifestPlaceholder} {sid : StreamId}
      (h : s.producer = .manifest placeholders sid) (hsid : cfg.maxId ≤ sid) :
      Advances cfg s (.finishing 0)
  | finished {sid : StreamId} (h : s.producer = .finishing sid) (hsid : cfg.maxId ≤ sid) :
      Advances cfg s (.closing 0)
  | failed {sid : StreamId} (h : s.producer = .failing sid) (hsid : cfg.maxId ≤ sid) :
      Advances cfg s (.closing 0)
  | closed {sid : StreamId} (h : s.producer = .closing sid) (hsid : cfg.maxId ≤ sid) :
      Advances cfg s .ended

inductive Produces (cfg : StreamConfig) (s : Runner) :
    StreamId → EventData → ProducerPhase → ProducerPhase → Prop where
  | report {sid : StreamId} (h : s.producer = .reporting sid) (hsid : sid < cfg.maxId) :
      Produces cfg s sid .streamError (.reporting (sid + 1)) (.reporting (sid + 1))
  | manifest {placeholders : List ManifestPlaceholder} {sid : StreamId}
      (h : s.producer = .manifest placeholders sid) (hsid : sid < cfg.maxId) :
      Produces cfg s sid (.streamManifest placeholders) (.manifest placeholders (sid + 1))
        (.failing 0)
  | finish {sid : StreamId} (h : s.producer = .finishing sid) (hsid : sid < cfg.maxId) :
      Produces cfg s sid .streamEnd (.finishing (sid + 1)) (.failing 0)
  | fail {sid : StreamId} (h : s.producer = .failing sid) (hsid : sid < cfg.maxId) :
      Produces cfg s sid .streamError (.failing (sid + 1)) (.failing (sid + 1))

def Announces (s : Runner) (deadline : Nat) (pid : PlaceholderId) (sid : StreamId) (url : String)
    (rest : List PlaceholderId) : Prop :=
  s.producer = .announcing deadline pid sid url rest ∨
    (s.producer = .waiting deadline pid rest ∧ s.announceable pid = some (sid, url))

/-- What a turn of `_produce` comes to. -/
inductive ProducerMove (cfg : StreamConfig) (s : Runner) : Runner → Prop where
  | spawn (h : s.producer = .spawning) :
      ProducerMove cfg s
        { s with
          executors := List.replicate cfg.maxId
            { serial := cfg.stages.count .serial, parallel := cfg.stages.count .parallel }
          producer := .gathering }
  | advance (next : ProducerPhase) (h : Advances cfg s next) :
      ProducerMove cfg s { s with producer := next }
  | beginSettle {sid : StreamId} (h : s.producer = .reporting sid) (hsid : cfg.maxId ≤ sid) :
      ProducerMove cfg s (s.beginSettle cfg)
  | endSettle {deadline : Nat} {rest : List PlaceholderId}
      (h : s.producer = .settling deadline rest) (hrest : rest = [] ∨ deadline ≤ s.now) :
      ProducerMove cfg s (s.endSettle cfg)
  | announce {t : Runner} {deadline : Nat} {pid : PlaceholderId} {sid : StreamId} {url : String}
      {rest : List PlaceholderId} (h : Announces s deadline pid sid url rest)
      (hemitted : Emitted s .producer ⟨sid, .enrichResolved pid url⟩ (t, .returned)) :
      ProducerMove cfg s
        { t with emitted := t.emitted ++ [pid], producer := .settling deadline rest }
  | announceWait {t : Runner} {deadline : Nat} {pid : PlaceholderId} {sid : StreamId}
      {url : String} {rest : List PlaceholderId} (h : Announces s deadline pid sid url rest)
      (hemitted : Emitted s .producer ⟨sid, .enrichResolved pid url⟩ (t, .waiting)) :
      ProducerMove cfg s { t with producer := .announcing deadline pid sid url rest }
  | announceRaise {deadline : Nat} {pid : PlaceholderId} {sid : StreamId} {url : String}
      {rest : List PlaceholderId} (h : Announces s deadline pid sid url rest)
      (hemitted : Emitted s .producer ⟨sid, .enrichResolved pid url⟩ (s, .raised)) :
      ProducerMove cfg s { s with producer := .failing 0 }
  | produce {t : Runner} {sid : StreamId} {event : EventData} {next raised : ProducerPhase}
      (h : Produces cfg s sid event next raised)
      (hemitted : Emitted s .producer ⟨sid, event⟩ (t, .returned)) :
      ProducerMove cfg s { t with producer := next }
  | produceWait {t : Runner} {sid : StreamId} {event : EventData} {next raised : ProducerPhase}
      (h : Produces cfg s sid event next raised)
      (hemitted : Emitted s .producer ⟨sid, event⟩ (t, .waiting)) :
      ProducerMove cfg s t
  | produceRaise {sid : StreamId} {event : EventData} {next raised : ProducerPhase}
      (h : Produces cfg s sid event next raised)
      (hemitted : Emitted s .producer ⟨sid, event⟩ (s, .raised)) :
      ProducerMove cfg s { s with producer := raised }
  | close {sid : StreamId} (h : s.producer = .closing sid) (hsid : sid < cfg.maxId)
      (hturn : (s.mux.closeStream .producer sid).2 ≠ .waiting) :
      ProducerMove cfg s
        { s with mux := (s.mux.closeStream .producer sid).1, producer := .closing (sid + 1) }
  | closeWait {sid : StreamId} (h : s.producer = .closing sid) (hsid : sid < cfg.maxId)
      (hturn : (s.mux.closeStream .producer sid).2 = .waiting) :
      ProducerMove cfg s { s with mux := (s.mux.closeStream .producer sid).1 }

variable {cfg : StreamConfig} {s : Runner} {sid : StreamId} {s' : Runner}

variable {event : EventData} {next raised : ProducerPhase}
  {after : List (Option Item)} {item : Item}
  {m : RunMux}

theorem produce_move (h : Produces cfg s sid event next raised) :
    ProducerMove cfg s (s.produce sid event next raised) := by
  rw [Runner.produce]
  have hemitted := emitted s .producer sid event
  split <;>
  next t heq =>
    rw [heq] at hemitted
    first
      | exact .produce h hemitted
      | exact .produceWait h hemitted
      | (cases hemitted with
        | raised hraised hfresh => exact .produceRaise h (.raised hraised hfresh))

theorem settleAnnounce_move {deadline : Nat} {pid : PlaceholderId} {url : String}
    {rest : List PlaceholderId} (h : Announces s deadline pid sid url rest) :
    ProducerMove cfg s (s.settleAnnounce deadline pid sid url rest) := by
  rw [Runner.settleAnnounce]
  have hemitted := emitted s .producer sid (.enrichResolved pid url)
  split <;>
  next t heq =>
    rw [heq] at hemitted
    first
      | exact .announce h hemitted
      | exact .announceWait h hemitted
      | (cases hemitted with
        | raised hraised hfresh => exact .announceRaise h (.raised hraised hfresh))

theorem producerTurn_move (h : s.producerTurn cfg = some s') :
    ProducerMove cfg s s' := by
  rw [Runner.producerTurn] at h
  split at h
  case h_1 => simp at h
  case h_2 hphase =>
    obtain rfl := Option.some.inj h
    exact .spawn hphase
  case h_3 hphase =>
    split_ifs at h with hall
    obtain rfl := Option.some.inj h
    exact .advance _ (.gathered hphase (by simpa using hall))
  case h_4 sid hphase =>
    split_ifs at h with hsid hfailed
    · obtain rfl := Option.some.inj h
      exact produce_move (.report hphase hsid)
    · obtain rfl := Option.some.inj h
      exact .advance _ (.report hphase hsid)
    · obtain rfl := Option.some.inj h
      exact .beginSettle hphase (Nat.le_of_not_lt hsid)
  case h_5 deadline rest hphase =>
    split at h
    · obtain rfl := Option.some.inj h
      exact .endSettle hphase (Or.inl rfl)
    next pid rest =>
      split_ifs at h with hnow
      · obtain rfl := Option.some.inj h
        exact .endSettle hphase (Or.inr hnow)
      · obtain rfl := Option.some.inj h
        exact .advance _ (.await hphase)
  case h_6 deadline pid rest hphase =>
    split_ifs at h with hwaits
    split at h
    next sid url hannounce =>
      obtain rfl := Option.some.inj h
      exact settleAnnounce_move (Or.inr ⟨hphase, hannounce⟩)
    next hnone =>
      obtain rfl := Option.some.inj h
      refine .advance _ (.skip hphase ?_ hnone)
      by_cases hpid : pid ∈ s.pending
      · exact Or.inr (by simpa [hpid] using hwaits)
      · exact Or.inl hpid
  case h_7 deadline pid sid url rest hphase =>
    obtain rfl := Option.some.inj h
    exact settleAnnounce_move (Or.inl hphase)
  case h_8 placeholders sid hphase =>
    split_ifs at h with hsid
    · obtain rfl := Option.some.inj h
      exact produce_move (.manifest hphase hsid)
    · obtain rfl := Option.some.inj h
      exact .advance _ (.manifested hphase (Nat.le_of_not_lt hsid))
  case h_9 sid hphase =>
    split_ifs at h with hsid
    · obtain rfl := Option.some.inj h
      exact produce_move (.finish hphase hsid)
    · obtain rfl := Option.some.inj h
      exact .advance _ (.finished hphase (Nat.le_of_not_lt hsid))
  case h_10 sid hphase =>
    split_ifs at h with hsid
    · obtain rfl := Option.some.inj h
      exact produce_move (.fail hphase hsid)
    · obtain rfl := Option.some.inj h
      exact .advance _ (.failed hphase (Nat.le_of_not_lt hsid))
  case h_11 sid hphase =>
    split_ifs at h with hsid
    · split at h
      next mux hclose =>
        obtain rfl := Option.some.inj h
        have hmove : ProducerMove cfg s _ := .closeWait hphase hsid (by rw [hclose])
        rwa [hclose] at hmove
      next mux turn hturn hclose =>
        obtain rfl := Option.some.inj h
        have hmove : ProducerMove cfg s _ := .close hphase hsid (by rw [hclose]; exact hturn)
        rwa [hclose] at hmove
    · obtain rfl := Option.some.inj h
      exact .advance _ (.closed hphase (Nat.le_of_not_lt hsid))
  case h_12 => simp at h

theorem ProducerMove.untouched (h : ProducerMove cfg s s') :
    Untouched s s' := by
  have hrefl := Untouched.refl s
  cases h with
  | spawn | advance => exact { hrefl with }
  | beginSettle =>
    rw [Runner.beginSettle]
    split <;> exact { hrefl with }
  | endSettle =>
    rw [Runner.endSettle]
    split <;> exact { hrefl with }
  | announce h hemitted | announceWait h hemitted => exact { hemitted.aside.toUntouched with }
  | announceRaise => exact { hrefl with }
  | produce h hemitted => exact { hemitted.aside.toUntouched with }
  | produceWait h hemitted => exact hemitted.aside.toUntouched
  | produceRaise | close | closeWait => exact { hrefl with }

theorem ProducerMove.not_absent (h : ProducerMove cfg s s') :
    s'.producer ≠ .absent := by
  cases h with
  | advance next h => cases h <;> simp
  | beginSettle =>
    rw [Runner.beginSettle]
    split <;> simp
  | endSettle =>
    rw [Runner.endSettle]
    simp
  | produce h => cases h <;> simp
  | produceWait h hemitted =>
    rw [hemitted.aside.producer]
    cases h <;> simp [*]
  | produceRaise h => cases h <;> simp
  | closeWait h => simp [h]
  | _ => simp

def FromProducer : Option Item → Prop
  | none => True
  | some item => item.event = .streamError ∨ item.event = .streamEnd ∨
      (∃ pid url, item.event = .enrichResolved pid url) ∨
      ∃ placeholders, item.event = .streamManifest placeholders

theorem Produces.fromProducer (h : Produces cfg s sid event next raised) :
    FromProducer (some ⟨sid, event⟩) := by
  cases h with
  | report => exact Or.inl rfl
  | manifest => exact Or.inr (Or.inr (Or.inr ⟨_, rfl⟩))
  | finish => exact Or.inr (Or.inl rfl)
  | fail => exact Or.inl rfl

theorem closeStream_items (m : RunMux) (o : Owner) (sid : StreamId) :
    (m.closeStream o sid).1.queue.items = m.queue.items ∨
      (m.closeStream o sid).1.queue.items = m.queue.items ++ [none] := by
  have hput : ∀ n : RunMux, n.queue = m.queue →
      (n.put o none).1.queue.items = m.queue.items ∨
        (n.put o none).1.queue.items = m.queue.items ++ [none] := by
    intro n hn
    have hitems := n.queue.items_put o none
    rw [StreamMux.put, ← hn]
    cases hin : (n.queue.put o none).2 with
    | true =>
      rw [hin, if_pos rfl] at hitems
      exact Or.inr hitems
    | false =>
      rw [hin, if_neg (by decide)] at hitems
      exact Or.inl hitems
  rw [StreamMux.closeStream]
  split
  · exact hput m rfl
  dsimp only
  split
  · exact hput _ rfl
  · exact Or.inl rfl

theorem closeStream_suspended (m : RunMux) {o p : Owner} (h : p ≠ o)
    (sid : StreamId) : (m.closeStream o sid).1.queue.suspended p = m.queue.suspended p := by
  rw [StreamMux.closeStream]
  split
  · exact m.queue.suspended_put_of_ne h none
  dsimp only
  split
  · exact m.queue.suspended_put_of_ne h none
  · rfl

theorem ProducerMove.items (h : ProducerMove cfg s s') :
    items s' = items s ∨ ∃ a, FromProducer a ∧ items s' = items s ++ [a] := by
  cases h with
  | spawn | advance => exact Or.inl rfl
  | beginSettle =>
    left
    rw [Runner.beginSettle]
    split <;> rfl
  | endSettle =>
    left
    rw [Runner.endSettle]
    split <;> rfl
  | announce h hemitted =>
    refine Or.inr ⟨_, ?_, hemitted.aside.items⟩
    exact Or.inr (Or.inr (Or.inl ⟨_, _, rfl⟩))
  | announceWait h hemitted =>
    exact Or.inl (hemitted.aside.items.trans (List.append_nil _))
  | announceRaise => exact Or.inl rfl
  | produce h hemitted => exact Or.inr ⟨_, h.fromProducer, hemitted.aside.items⟩
  | produceWait h hemitted => exact Or.inl (hemitted.aside.items.trans (List.append_nil _))
  | produceRaise => exact Or.inl rfl
  | close | closeWait =>
    rcases closeStream_items s.mux .producer _ with h | h
    · exact Or.inl h
    · exact Or.inr ⟨none, trivial, h⟩

/-! ## Turns of `run()` -/

def contentOf : EventData → List Char
  | .content text => text
  | _ => []

def collected (s : Runner) (e : OutEvent) (sid : StreamId) : List Char :=
  if sid = e.streamId then s.partials sid ++ contentOf e.event else s.partials sid

theorem collect_eq (s : Runner) (e : OutEvent) :
    s.collect e = { s with partials := collected s e } := by
  rw [Runner.collect]
  split
  next text htext =>
    have hcollected : collected s e = fun sid =>
        if sid = e.streamId then s.partials sid ++ text else s.partials sid := by
      funext sid
      rw [collected, htext, contentOf]
    rw [hcollected]
  next hother =>
    have hcollected : collected s e = s.partials := by
      funext sid
      have hcontent : contentOf e.event = [] := by
        cases hevent : e.event with
        | content text => exact absurd hevent (hother text)
        | _ => rfl
      rw [collected, hcontent, List.append_nil, ite_self]
    rw [hcollected]

inductive Delivered (s : Runner) (e : OutEvent) : Runner → Prop where
  | hidden (hcancelled : s.isCancelled e.streamId = true) (hpasses : passes e.event = false) :
      Delivered s e { s with partials := collected s e }
  | buffered (hshown : s.isCancelled e.streamId = true → passes e.event = true)
      (hbuffer : s.monitor.shouldBuffer = true) :
      Delivered s e
        { s with
          partials := collected s e
          monitor := { s.monitor with buffer := s.monitor.buffer.put e } }
  | yielded (hshown : s.isCancelled e.streamId = true → passes e.event = true)
      (hbuffer : s.monitor.shouldBuffer = false) :
      Delivered s e { s with partials := collected s e, yielded := s.yielded ++ [e] }

theorem delivered (s : Runner) (e : OutEvent) :
    Delivered s e (s.deliver e) := by
  rw [Runner.deliver, collect_eq]
  dsimp only
  split
  next h =>
    rw [Bool.and_eq_true, Bool.not_eq_true'] at h
    exact .hidden h.1 h.2
  next h =>
    have hshown : s.isCancelled e.streamId = true → passes e.event = true := by
      intro hcancelled
      have hcancelled' :
          ({ s with partials := collected s e } : Runner).isCancelled e.streamId = true :=
        hcancelled
      simpa [hcancelled'] using h
    split
    next hbuffer => exact .buffered hshown hbuffer
    next hbuffer => exact .yielded hshown (by simpa using hbuffer)

/-- What a turn of `run()` comes to. -/
inductive RunMove (cfg : StreamConfig) (s : Runner) : Runner → Prop where
  | register {count : Nat} (h : s.run = .registering count) (hcount : count < cfg.maxId) :
      RunMove cfg s
        { s with
          tokens := s.tokens ++ [false]
          mux := s.mux.register count
          run := .registering (count + 1) }
  | registered {count : Nat} (h : s.run = .registering count) (hcount : cfg.maxId ≤ count) :
      RunMove cfg s { s with run := .starting 0 }
  | start {t : Runner} {count : Nat} (h : s.run = .starting count) (hcount : count < cfg.maxId)
      (hemitted : Emitted s .run ⟨count, .streamStart⟩ (t, .returned)) :
      RunMove cfg s { t with run := .starting (count + 1) }
  | startWait {t : Runner} {count : Nat} (h : s.run = .starting count)
      (hcount : count < cfg.maxId)
      (hemitted : Emitted s .run ⟨count, .streamStart⟩ (t, .waiting)) : RunMove cfg s t
  | startRaise {count : Nat} (h : s.run = .starting count) (hcount : count < cfg.maxId)
      (hemitted : Emitted s .run ⟨count, .streamStart⟩ (s, .raised)) :
      RunMove cfg s { s with run := .raised }
  | started {count : Nat} (h : s.run = .starting count) (hcount : cfg.maxId ≤ count) :
      RunMove cfg s { s with run := .consuming .checking, producer := .spawning }
  | stop (h : s.run = .consuming .checking) (hclosed : s.mux.closed = true)
      (hitems : items s = []) : RunMove cfg s { s with run := .consuming .ended }
  | starve {consumer : Consumer} (h : s.run = .consuming consumer) (hrunning : consumer ≠ .ended)
      (hitems : items s = []) : RunMove cfg s { s with run := .consuming .getting }
  | sentinel {consumer : Consumer} {mux : RunMux}
      (h : s.run = .consuming consumer) (hrunning : consumer ≠ .ended)
      (hmux : mux = { s.mux with queue := mux.queue })
      (hitems : items s = none :: mux.queue.items)
      (hsuspended : ∀ o, mux.queue.suspended o = s.mux.queue.suspended o) :
      RunMove cfg s
        { s with mux := mux, run := .consuming .ended, taken := s.taken ++ [none] }
  | take {s' : Runner} {consumer : Consumer} {mux : RunMux}
      {e : OutEvent} (h : s.run = .consuming consumer)
      (hrunning : consumer ≠ .ended)
      (hmux : mux = { s.mux with queue := mux.queue, allocators := mux.allocators })
      (hitems : items s = some e.toQueuedItem :: mux.queue.items)
      (hdelivered : Delivered
        { s with
          mux := mux
          run := .consuming .checking
          taken := s.taken ++ [some e.toQueuedItem] } e s')
      (hsuspended : ∀ o, mux.queue.suspended o = s.mux.queue.suspended o) :
      RunMove cfg s s'

theorem get_move {consumer : Consumer} (h : s.run = .consuming consumer)
    (hrunning : consumer ≠ .ended) : RunMove cfg s s.get := by
  rw [Runner.get, StreamMux.take]
  cases hget : s.mux.queue.getNowait with
  | none => exact .starve h hrunning (AsyncQueue.getNowait_eq_none.mp hget)
  | some head =>
    obtain ⟨a, queue⟩ := head
    have hitems := AsyncQueue.items_getNowait hget
    have hsuspended := AsyncQueue.suspended_getNowait hget
    cases a with
    | none => exact .sentinel h hrunning rfl hitems hsuspended
    | some item => exact .take h hrunning rfl hitems (delivered _ _) hsuspended

theorem runTurn_move (h : s.runTurn cfg = some s') :
    RunMove cfg s s' := by
  rw [Runner.runTurn] at h
  split at h
  next count hphase =>
    split_ifs at h with hcount
    · obtain rfl := Option.some.inj h
      exact .register hphase hcount
    · obtain rfl := Option.some.inj h
      exact .registered hphase (Nat.le_of_not_lt hcount)
  next count hphase =>
    split_ifs at h with hcount
    · have hemitted := emitted s .run count .streamStart
      split at h <;>
      next t heq =>
        rw [heq] at hemitted
        obtain rfl := Option.some.inj h
        first
          | exact .start hphase hcount hemitted
          | exact .startWait hphase hcount hemitted
          | (cases hemitted with
            | raised hraised hfresh => exact .startRaise hphase hcount (.raised hraised hfresh))
    · obtain rfl := Option.some.inj h
      exact .started hphase (Nat.le_of_not_lt hcount)
  next hphase =>
    split_ifs at h with hend
    · obtain rfl := Option.some.inj h
      exact .stop hphase hend.1 hend.2
    · obtain rfl := Option.some.inj h
      exact get_move hphase (by decide)
  next hphase =>
    obtain rfl := Option.some.inj h
    exact get_move hphase (by decide)
  next => simp at h
  next => simp at h

/-! ## `cancel` -/

def requested (executor : StreamExecutor) : StreamExecutor :=
  { executor with
    cancelRequested := true
    tasks := executor.tasks.map fun task => { task with cancelRequested := true } }

inductive Forced (s : Runner) (sid : StreamId) (force : Bool) : List StreamExecutor → Prop where
  | same (h : force = true → ∀ executor, s.executors[sid]? = some executor →
      executor.result ≠ none) : Forced s sid force s.executors
  | requested {executor : StreamExecutor} (hforce : force = true)
      (hexecutor : s.executors[sid]? = some executor) (hresult : executor.result = none) :
      Forced s sid force (s.executors.modify sid requested)

inductive ForceMove (s : Runner) (sid : StreamId) : Runner → Prop where
  | same (h : ∀ executor, s.executors[sid]? = some executor → executor.result ≠ none) :
      ForceMove s sid s
  | requested {executor : StreamExecutor} {putters : List Owner}
      (hexecutor : s.executors[sid]? = some executor) (hresult : executor.result = none)
      (hputters : ∀ pid, .enrich pid ∈ putters ↔ .enrich pid ∈ s.mux.queue.putters) :
      ForceMove s sid
        { s with
          executors := s.executors.modify sid requested
          mux := { s.mux with queue := { s.mux.queue with putters := putters } } }

theorem forceCancelExecutor_move (s : Runner) (sid : StreamId) :
    ForceMove s sid (s.forceCancelExecutor sid) := by
  rw [Runner.forceCancelExecutor]
  split
  next hexecutor => exact .requested hexecutor rfl fun pid => by simp
  next hother =>
    refine .same fun executor hexecutor hresult => ?_
    obtain ⟨serial, parallel, tasks, cancelRequested, result⟩ := executor
    obtain rfl : result = none := hresult
    exact hother _ _ _ _ hexecutor

/-- Whether `cancel` gets its event into the queue; it is dropped where the queue is closed or
full. -/
inductive CancelItems (m : RunMux)
    (item : Item) :
    List (Option Item) → Prop where
  | dropped (h : m.closed = true ∨ m.queue.full = true) : CancelItems m item m.queue.items
  | put (hopen : m.closed = false) (hspace : m.queue.full = false) :
      CancelItems m item (m.queue.items ++ [some item])

theorem CancelItems.sentinel (h : CancelItems m item after) (hsentinel : none ∈ m.queue.items) :
    none ∈ after := by
  cases h with
  | dropped => exact hsentinel
  | put => exact List.mem_append_left _ hsentinel

theorem CancelItems.mem (h : CancelItems m item after) {a : Option Item} (ha : a ∈ after) :
    a ∈ m.queue.items ∨ a = some item := by
  cases h with
  | dropped => exact Or.inl ha
  | put => simpa using ha

theorem emitCancelledEvent_move (s : Runner) (sid : StreamId) :
    ∃ queue, s.emitCancelledEvent sid = { s with mux := { s.mux with queue := queue } } ∧
      CancelItems s.mux ⟨sid, .streamCancelled (s.partials sid)⟩ queue.items ∧
      ∀ o, queue.suspended o = s.mux.queue.suspended o := by
  rw [Runner.emitCancelledEvent]
  split
  next hclosed => exact ⟨s.mux.queue, rfl, .dropped (Or.inl hclosed), fun _ => rfl⟩
  next hopen =>
    split
    next queue hput =>
      obtain ⟨hspace, rfl⟩ := AsyncQueue.putNowait_eq_some.mp hput
      exact ⟨_, rfl, .put (by simpa using hopen) hspace, fun _ => rfl⟩
    next hfull =>
      refine ⟨s.mux.queue, rfl, .dropped (Or.inr ?_), fun _ => rfl⟩
      by_contra hspace
      rw [AsyncQueue.putNowait, if_neg hspace] at hfull
      exact Option.some_ne_none _ hfull

inductive CancelMove (s : Runner) (sid : StreamId) (force : Bool) : Runner → Prop where
  | unknown (h : s.tokens.length ≤ sid) : CancelMove s sid force s
  | known {mux : RunMux} {executors : List StreamExecutor}
      (h : sid < s.tokens.length) (hmux : mux = { s.mux with queue := mux.queue })
      (hitems : CancelItems s.mux ⟨sid, .streamCancelled (s.partials sid)⟩ mux.queue.items)
      (hexecutors : Forced s sid force executors)
      (hsuspended : ∀ pid, mux.queue.suspended (.enrich pid) =
        s.mux.queue.suspended (.enrich pid)) :
      CancelMove s sid force
        { s with
          mux := mux
          executors := executors
          tokens := s.tokens.set sid true
          returned := s.returned ++ [(sid, s.partials sid)] }

theorem cancel_move {force : Bool} (h : Runner.step cfg s (.cancel sid force) = some s') :
    CancelMove s sid force s' := by
  obtain rfl : s.cancel sid force = s' := Option.some.inj h
  rw [Runner.cancel]
  split
  next hsid =>
    obtain ⟨queue, hqueue, hitems, hsuspended⟩ := emitCancelledEvent_move
      { s with
        returned := s.returned ++ [(sid, s.partials sid)]
        tokens := s.tokens.set sid true } sid
    dsimp only
    rw [hqueue]
    split
    next hforce =>
      have hmove := forceCancelExecutor_move
        { s with
          mux := { s.mux with queue := queue }
          returned := s.returned ++ [(sid, s.partials sid)]
          tokens := s.tokens.set sid true } sid
      generalize Runner.forceCancelExecutor _ sid = s' at hmove
      cases hmove with
      | same h => exact .known hsid rfl hitems (.same fun _ => h) fun pid => hsuspended _
      | requested hexecutor hresult hputters =>
        refine .known hsid rfl hitems (.requested hforce hexecutor hresult) fun pid => ?_
        rw [← hsuspended, AsyncQueue.suspended, AsyncQueue.suspended]
        simp only [hputters]
    next hforce =>
      exact .known hsid rfl hitems (.same fun h => absurd h hforce) fun pid => hsuspended _
  next hsid => exact .unknown (Nat.le_of_not_lt hsid)

/-! ## Tokens -/

theorem isCancelled_register (s : Runner) (sid : StreamId) (mux : RunMux) (run : RunPhase) :
    ({ s with tokens := s.tokens ++ [false], mux := mux, run := run } : Runner).isCancelled sid =
      s.isCancelled sid := by
  rw [Runner.isCancelled, Runner.isCancelled, List.getD_eq_getElem?_getD,
    List.getD_eq_getElem?_getD, List.getElem?_append]
  split
  · rfl
  next hsid =>
    rw [List.getElem?_eq_none (Nat.le_of_not_lt hsid)]
    cases sid - s.tokens.length with
    | zero | succ n => rfl

theorem isCancelled_set {sid' : StreamId} (h : sid < s.tokens.length) :
    (s.tokens.set sid true).getD sid' false =
      if sid = sid' then true else s.isCancelled sid' := by
  rw [Runner.isCancelled, List.getD_eq_getElem?_getD, List.getD_eq_getElem?_getD]
  split
  next hsid =>
    subst hsid
    rw [List.getElem?_set_self h]
    rfl
  next hsid => rw [List.getElem?_set_ne hsid]

/-! ## Before the producer is started -/

def isFree : Step → Bool
  | .run | .cancel .. | .tick _ | .disconnect | .reconnect => true
  | _ => false

theorem no_other_task {e : Step} (hproducer : s.producer = .absent)
    (hexecutors : s.executors = []) (henrich : s.enrichTasks = []) (he : isFree e = false) :
    Runner.step cfg s e ≠ some s' := by
  cases e with
  | producer => simp [Runner.step, Runner.producerTurn, hproducer]
  | executor sid => simp [Runner.step, Runner.executorTurn, hexecutors]
  | stage sid index => simp [Runner.step, Runner.stageTurn, Runner.task?, hexecutors]
  | source sid index chunk => simp [Runner.step, Runner.source, Runner.task?, hexecutors]
  | enrich pid => simp [Runner.step, Runner.enrichTurn, henrich]
  | enriched pid url => simp [Runner.step, Runner.enriched, henrich]
  | _ => exact absurd he (by simp [isFree])

end Orditect.Stream.Runner.Proofs
