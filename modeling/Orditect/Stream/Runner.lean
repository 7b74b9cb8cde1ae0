import Orditect.Stream.Events
import Orditect.Stream.Grace
import Orditect.Stream.Mux
/-!
# A run of the stream runner

`StreamRunner` with its substreams: `run()` starts them and consumes what they put into the
multiplexer, `_produce` waits for the executors and finishes the streams, the executors run
their stages, and each placeholder has a task that resolves it.  All of these are tasks of one
event loop, so each step is a turn of one of them, from one `await` to the next.  `cancel` has no
`await` that waits.

A stream is known by its place in `_stream_ids` and a placeholder by the order of its id.  The
sources of the stages, the enricher and the clock are the environment: their steps carry what
they deliver.  The client stays, or is away and comes back in time: a disconnect that ends in
`_on_cancel`, by the policy or when the grace period is over, is left out.
-/

namespace Orditect.Stream

open Support

abbrev StreamId := Nat
abbrev PlaceholderId := Nat

inductive PlaceholderState where
  | pending
  | resolved
  | failed
  deriving DecidableEq

structure ManifestPlaceholder where
  placeholderId : PlaceholderId
  state : PlaceholderState
  url : Option String
  deriving DecidableEq

/-- The events of a run, with the part of their data that is looked at somewhere. -/
inductive EventData where
  | streamStart
  | content (text : List Char)
  | thinking (text : List Char)
  | references
  | enrichMarker (pid : PlaceholderId)
  | enrichPlaceholder (pid : PlaceholderId)
  | enrichResolved (pid : PlaceholderId) (url : String)
  | stageEnd
  | streamManifest (placeholders : List ManifestPlaceholder)
  | streamEnd
  | streamError
  | streamCancelled (partialContent : List Char)
  deriving DecidableEq

def EventData.eventType : EventData → EventType
  | .streamStart => .streamStart
  | .content _ | .thinking _ | .references => .streamDelta
  | .enrichMarker _ => .enrichMarker
  | .enrichPlaceholder _ => .enrichPlaceholder
  | .enrichResolved .. => .enrichResolved
  | .stageEnd => .stageEnd
  | .streamManifest _ => .streamManifest
  | .streamEnd => .streamEnd
  | .streamError => .streamError
  | .streamCancelled _ => .streamCancelled

inductive StageMode where
  | serial
  | parallel
  deriving DecidableEq

/-- The configuration of a run; `taskflow` is whether that is its enrich mode, and `grace` whether
the policy for a client that is away is that and not to continue.  Times are in milliseconds. -/
structure StreamConfig where
  maxId : Nat := 1
  stages : List StageMode := []
  queueMaxsize : Nat := 1000
  backpressure : BackpressurePolicy := .block
  enrichEager : Bool := true
  taskflow : Bool := false
  enrichSettleTimeout : Nat := 5000
  grace : Bool := true

/-! ## Tasks -/

inductive Owner where
  | run
  | producer
  | stage (sid : StreamId) (index : Nat)
  | enrich (pid : PlaceholderId)
  deriving DecidableEq

inductive RunPhase where
  | registering (count : Nat)
  | starting (count : Nat)
  | consuming (consumer : Consumer)
  | raised
  deriving DecidableEq

/-- Where `_produce` stands.  The settle window has its deadline, the placeholder it waits for or
announces and those that come after it; the loops over the streams have the next stream. -/
inductive ProducerPhase where
  | absent
  | spawning
  | gathering
  | reporting (sid : StreamId)
  | settling (deadline : Nat) (rest : List PlaceholderId)
  | waiting (deadline : Nat) (pid : PlaceholderId) (rest : List PlaceholderId)
  | announcing (deadline : Nat) (pid : PlaceholderId) (sid : StreamId) (url : String)
      (rest : List PlaceholderId)
  | manifest (placeholders : List ManifestPlaceholder) (sid : StreamId)
  | finishing (sid : StreamId)
  | failing (sid : StreamId)
  | closing (sid : StreamId)
  | ended
  deriving DecidableEq

inductive Outcome where
  | done
  | raised
  | cancelled
  deriving DecidableEq

inductive StageAction where
  | emit (event : EventData)
  | register (pid : PlaceholderId)
  deriving DecidableEq

/-- A stage asks its source for more, has left its loop, or has only its end to emit. -/
inductive StagePhase where
  | pulling
  | ending
  | closing
  | over (outcome : Outcome)
  deriving DecidableEq

/-- A stage that is being run.  `todo` is what is left to do about the last chunk. -/
structure StageTask where
  todo : List StageAction := []
  phase : StagePhase := .pulling
  cancelRequested : Bool := false
  deriving DecidableEq

/-- The executor of a stream: how many stages are still to begin, those that have begun, and what
became of it. -/
structure StreamExecutor where
  serial : Nat
  parallel : Nat
  tasks : List StageTask := []
  cancelRequested : Bool := false
  result : Option Outcome := none
  deriving DecidableEq

inductive EnrichPhase where
  | resolving
  | announcing (url : String)
  | over
  deriving DecidableEq

structure EnrichTask where
  placeholderId : PlaceholderId
  streamId : StreamId
  phase : EnrichPhase := .resolving
  deriving DecidableEq

structure PlaceholderRecord where
  placeholderId : PlaceholderId
  streamId : StreamId
  state : PlaceholderState := .pending
  url : Option String := none
  deriving DecidableEq

abbrev Item := QueuedItem StreamId EventData
abbrev OutEvent := NumberedEvent StreamId EventData
abbrev RunMux := StreamMux StreamId Owner EventData

/-- `tokens` says of each registered stream whether it is cancelled.  `taken` is what left the
queue, `yielded` what `run()` yielded and `returned` what the calls of `cancel` returned. -/
structure Runner where
  mux : RunMux
  now : Nat := 0
  run : RunPhase := .registering 0
  producer : ProducerPhase := .absent
  executors : List StreamExecutor := []
  enrichTasks : List EnrichTask := []
  registry : List PlaceholderRecord := []
  emitted : List PlaceholderId := []
  placeholders : Nat := 0
  tokens : List Bool := []
  partials : StreamId → List Char := fun _ => []
  monitor : DisconnectMonitor OutEvent
  taken : List (Option Item) := []
  yielded : List OutEvent := []
  returned : List (StreamId × List Char) := []

namespace Runner

def isCancelled (s : Runner) (sid : StreamId) : Bool := s.tokens.getD sid false

def emit (s : Runner) (o : Owner) (sid : StreamId) (event : EventData) : Runner × Turn :=
  ({ s with mux := (s.mux.emit o ⟨sid, event⟩).1 }, (s.mux.emit o ⟨sid, event⟩).2)

/-! ## `run()` -/

/-- The content of a stream is collected before its token is looked at. -/
def collect (s : Runner) (e : OutEvent) : Runner :=
  match e.event with
  | .content text =>
    { s with partials := fun sid =>
        if sid = e.streamId then s.partials sid ++ text else s.partials sid }
  | _ => s

def passes (event : EventData) : Bool :=
  event.eventType ∈ [EventType.streamCancelled, EventType.streamManifest, EventType.streamEnd]

def deliver (s : Runner) (e : OutEvent) : Runner :=
  let s := s.collect e
  if s.isCancelled e.streamId && !passes e.event then s
  else if s.monitor.shouldBuffer then
    { s with monitor := { s.monitor with buffer := s.monitor.buffer.put e } }
  else { s with yielded := s.yielded ++ [e] }

def get (s : Runner) : Runner :=
  match s.mux.take with
  | none => { s with run := .consuming .getting }
  | some (none, mux) =>
    { s with mux := mux, run := .consuming .ended, taken := s.taken ++ [none] }
  | some (some e, mux) =>
    { s with
      mux := mux
      run := .consuming .checking
      taken := s.taken ++ [some e.toQueuedItem] }.deliver e

def runTurn (cfg : StreamConfig) (s : Runner) : Option Runner :=
  match s.run with
  | .registering count =>
    if count < cfg.maxId then
      some { s with
        tokens := s.tokens ++ [false]
        mux := s.mux.register count
        run := .registering (count + 1) }
    else some { s with run := .starting 0 }
  | .starting count =>
    if count < cfg.maxId then
      match s.emit .run count .streamStart with
      | (s, .returned) => some { s with run := .starting (count + 1) }
      | (s, .waiting) => some s
      | (s, .raised) => some { s with run := .raised }
    else some { s with run := .consuming .checking, producer := .spawning }
  | .consuming .checking =>
    if s.mux.closed ∧ s.mux.queue.items = [] then some { s with run := .consuming .ended }
    else some s.get
  | .consuming .getting => some s.get
  | .consuming .ended => none
  | .raised => none

/-! ## Placeholders -/

def record? (s : Runner) (pid : PlaceholderId) : Option PlaceholderRecord :=
  s.registry.find? fun entry => entry.placeholderId == pid

def markResolved (s : Runner) (pid : PlaceholderId) (url : String) : Runner :=
  { s with registry := s.registry.map fun entry =>
      if entry.placeholderId = pid ∧ entry.state = .pending then
        { entry with state := .resolved, url := some url }
      else entry }

def markFailed (s : Runner) (who : PlaceholderId → Bool) : Runner :=
  { s with registry := s.registry.map fun entry =>
      if who entry.placeholderId = true ∧ entry.state = .pending then
        { entry with state := .failed }
      else entry }

def pending (s : Runner) : List PlaceholderId :=
  (s.registry.filter fun entry => entry.state = .pending).map (·.placeholderId)

def setEnrichTask (s : Runner) (pid : PlaceholderId) (phase : EnrichPhase) : Runner :=
  { s with enrichTasks := s.enrichTasks.map fun task =>
      if task.placeholderId = pid then { task with phase := phase } else task }

def announce (s : Runner) (pid : PlaceholderId) (sid : StreamId) (url : String) : Runner :=
  match s.emit (.enrich pid) sid (.enrichResolved pid url) with
  | (s, .returned) => { s with emitted := s.emitted ++ [pid] }.setEnrichTask pid .over
  | (s, .waiting) => s.setEnrichTask pid (.announcing url)
  | (s, .raised) => (s.markFailed (· == pid)).setEnrichTask pid .over

def enriched (cfg : StreamConfig) (s : Runner) (pid : PlaceholderId) (url : Option String) :
    Option Runner :=
  match s.enrichTasks.find? fun task => task.placeholderId == pid with
  | some { streamId := sid, phase := .resolving, .. } =>
    match url with
    | none => some ((s.markFailed (· == pid)).setEnrichTask pid .over)
    | some url =>
      if cfg.enrichEager ∧ url ≠ "" then some ((s.markResolved pid url).announce pid sid url)
      else some ((s.markResolved pid url).setEnrichTask pid .over)
  | _ => none

def enrichTurn (s : Runner) (pid : PlaceholderId) : Option Runner :=
  match s.enrichTasks.find? fun task => task.placeholderId == pid with
  | some { streamId := sid, phase := .announcing url, .. } => some (s.announce pid sid url)
  | _ => none

/-! ## `_produce` -/

/-- The manifest has the placeholders as they are when `build` begins. -/
def snapshot (s : Runner) : List ManifestPlaceholder :=
  s.registry.map fun entry =>
    ⟨entry.placeholderId, entry.state, if entry.state = .resolved then entry.url else none⟩

/-- The end of `settle` and the beginning of `build`, with no `await` that waits between them. -/
def endSettle (cfg : StreamConfig) (s : Runner) : Runner :=
  let s := if cfg.taskflow then s else s.markFailed fun _ => true
  { s with producer := .manifest s.snapshot 0 }

def beginSettle (cfg : StreamConfig) (s : Runner) : Runner :=
  if cfg.enrichSettleTimeout = 0 then { s with producer := .manifest s.snapshot 0 }
  else { s with producer := .settling (s.now + cfg.enrichSettleTimeout) s.pending }

def announceable (s : Runner) (pid : PlaceholderId) : Option (StreamId × String) :=
  match s.record? pid with
  | some { state := .resolved, url := some url, streamId := sid, .. } =>
    if url ≠ "" ∧ pid ∉ s.emitted then some (sid, url) else none
  | _ => none

def settleAnnounce (s : Runner) (deadline : Nat) (pid : PlaceholderId) (sid : StreamId)
    (url : String) (rest : List PlaceholderId) : Runner :=
  match s.emit .producer sid (.enrichResolved pid url) with
  | (s, .returned) =>
    { s with emitted := s.emitted ++ [pid], producer := .settling deadline rest }
  | (s, .waiting) => { s with producer := .announcing deadline pid sid url rest }
  | (s, .raised) => { s with producer := .failing 0 }

def produce (s : Runner) (sid : StreamId) (event : EventData) (next raised : ProducerPhase) :
    Runner :=
  match s.emit .producer sid event with
  | (s, .returned) => { s with producer := next }
  | (s, .waiting) => s
  | (s, .raised) => { s with producer := raised }

def failed (s : Runner) (sid : StreamId) : Bool :=
  match s.executors[sid]? with
  | some executor => executor.result == some .raised
  | none => false

def producerTurn (cfg : StreamConfig) (s : Runner) : Option Runner :=
  match s.producer with
  | .absent => none
  | .spawning =>
    some { s with
      executors := List.replicate cfg.maxId
        { serial := cfg.stages.count .serial, parallel := cfg.stages.count .parallel }
      producer := .gathering }
  | .gathering =>
    if s.executors.all fun executor => executor.result.isSome then
      some { s with producer := .reporting 0 }
    else none
  | .reporting sid =>
    if sid < cfg.maxId then
      if s.failed sid then
        some (s.produce sid .streamError (.reporting (sid + 1)) (.reporting (sid + 1)))
      else some { s with producer := .reporting (sid + 1) }
    else some (s.beginSettle cfg)
  | .settling deadline rest =>
    match rest with
    | [] => some (s.endSettle cfg)
    | pid :: rest =>
      if deadline ≤ s.now then some (s.endSettle cfg)
      else some { s with producer := .waiting deadline pid rest }
  | .waiting deadline pid rest =>
    if pid ∈ s.pending ∧ s.now < deadline then none
    else
      match s.announceable pid with
      | some (sid, url) => some (s.settleAnnounce deadline pid sid url rest)
      | none => some { s with producer := .settling deadline rest }
  | .announcing deadline pid sid url rest => some (s.settleAnnounce deadline pid sid url rest)
  | .manifest placeholders sid =>
    if sid < cfg.maxId then
      some (s.produce sid (.streamManifest placeholders) (.manifest placeholders (sid + 1))
        (.failing 0))
    else some { s with producer := .finishing 0 }
  | .finishing sid =>
    if sid < cfg.maxId then some (s.produce sid .streamEnd (.finishing (sid + 1)) (.failing 0))
    else some { s with producer := .closing 0 }
  | .failing sid =>
    if sid < cfg.maxId then
      some (s.produce sid .streamError (.failing (sid + 1)) (.failing (sid + 1)))
    else some { s with producer := .closing 0 }
  | .closing sid =>
    if sid < cfg.maxId then
      match s.mux.closeStream .producer sid with
      | (mux, .waiting) => some { s with mux := mux }
      | (mux, _) => some { s with mux := mux, producer := .closing (sid + 1) }
    else some { s with producer := .ended }
  | .ended => none

end Runner

/-! ## Executors and stages -/

/-- What a source delivers, after the pipeline of the stage. -/
inductive Chunk where
  | thinking (text : List Char)
  | references
  | marked (text : List Char) (hits : Nat) (finish : Bool)
  | exhausted
  | raises

def StageTask.isOver (task : StageTask) : Bool :=
  match task.phase with
  | .over _ => true
  | _ => false

namespace Runner

def executorTurn (s : Runner) (sid : StreamId) : Option Runner :=
  match s.executors[sid]? with
  | none => none
  | some executor =>
    let set := fun executor => some { s with executors := s.executors.set sid executor }
    if executor.result.isSome then none
    else if executor.tasks.any fun task => task.phase = .over .raised then
      -- The other parallel stages go on.
      set { executor with result := some .raised }
    else if executor.tasks.any fun task => !task.isOver then none
    else if executor.cancelRequested then set { executor with result := some .cancelled }
    else if 0 < executor.serial then
      set { executor with serial := executor.serial - 1, tasks := executor.tasks ++ [{}] }
    else if 0 < executor.parallel then
      set { executor with
        parallel := 0
        tasks := executor.tasks ++ List.replicate executor.parallel {} }
    else set { executor with result := some .done }

def task? (s : Runner) (sid : StreamId) (index : Nat) : Option StageTask :=
  (s.executors[sid]?).bind fun executor => executor.tasks[index]?

def setTask (s : Runner) (sid : StreamId) (index : Nat) (task : StageTask) : Runner :=
  { s with executors := s.executors.modify sid fun executor =>
      { executor with tasks := executor.tasks.set index task } }

def register (s : Runner) (pid : PlaceholderId) (sid : StreamId) : Runner :=
  { s with
    registry := s.registry ++ [{ placeholderId := pid, streamId := sid }]
    enrichTasks := s.enrichTasks ++ [{ placeholderId := pid, streamId := sid }] }

def stageTurn (s : Runner) (sid : StreamId) (index : Nat) : Option Runner :=
  match s.task? sid index with
  | none => none
  | some task =>
    if task.isOver then none
    else if task.cancelRequested then
      some ({ s with mux := { s.mux with queue := s.mux.queue.abandon (.stage sid index) } }.setTask
        sid index { task with todo := [], phase := .over .cancelled })
    else
      match task.todo with
      | .emit event :: rest =>
        match s.emit (.stage sid index) sid event with
        | (s, .returned) => some (s.setTask sid index { task with todo := rest })
        | (s, .waiting) => some s
        | (s, .raised) =>
          some (s.setTask sid index { task with todo := [], phase := .over .raised })
      | .register pid :: rest =>
        some ((s.register pid sid).setTask sid index { task with todo := rest })
      | [] =>
        match task.phase with
        | .ending =>
          some (s.setTask sid index { task with todo := [.emit .stageEnd], phase := .closing })
        | .closing => some (s.setTask sid index { task with phase := .over .done })
        | _ => none

def onHit (pid : PlaceholderId) : List StageAction :=
  [.emit (.enrichMarker pid), .emit (.enrichPlaceholder pid), .register pid]

/-- The stage does the first thing about a chunk at once. -/
def handle (s : Runner) (sid : StreamId) (index : Nat) (task : StageTask) : Runner :=
  ((s.setTask sid index task).stageTurn sid index).getD (s.setTask sid index task)

/-- The source of a stage delivers a chunk.  A stream that is cancelled passes over it. -/
def source (s : Runner) (sid : StreamId) (index : Nat) (chunk : Chunk) : Option Runner :=
  match s.task? sid index with
  | none => none
  | some task =>
    if task.phase ≠ .pulling ∨ task.todo ≠ [] ∨ task.cancelRequested then none
    else
      match chunk with
      | .exhausted => some (s.setTask sid index { task with phase := .ending })
      | .raises => some (s.setTask sid index { task with phase := .over .raised })
      | .thinking text =>
        if s.isCancelled sid then some s
        else some (s.handle sid index { task with todo := [.emit (.thinking text)] })
      | .references =>
        if s.isCancelled sid then some s
        else some (s.handle sid index { task with todo := [.emit .references] })
      | .marked text hits finish =>
        if s.isCancelled sid then some s
        else
          let todo := (List.range' s.placeholders hits).flatMap onHit
          some ({ s with placeholders := s.placeholders + hits }.handle sid index
            { task with
              todo := if text = [] then todo else .emit (.content text) :: todo
              phase := if finish then .ending else .pulling })

/-! ## `cancel` -/

/-- `task.cancel()` for an executor that is not done: who of it sleeps in `put` does not wake
any more. -/
def forceCancelExecutor (s : Runner) (sid : StreamId) : Runner :=
  match s.executors[sid]? with
  | some { result := none, .. } =>
    { s with
      executors := s.executors.modify sid fun executor =>
        { executor with
          cancelRequested := true
          tasks := executor.tasks.map fun task => { task with cancelRequested := true } }
      mux := { s.mux with queue := { s.mux.queue with
        putters := s.mux.queue.putters.filter fun o =>
          match o with
          | .stage sid' _ => sid' ≠ sid
          | _ => true } } }
  | _ => s

/-- `_emit_cancelled_event`: dropped where the queue is full or closed. -/
def emitCancelledEvent (s : Runner) (sid : StreamId) : Runner :=
  if s.mux.closed then s
  else
    match s.mux.queue.putNowait (some ⟨sid, .streamCancelled (s.partials sid)⟩) with
    | some queue => { s with mux := { s.mux with queue := queue } }
    | none => s

/-- `cancel` of one stream; without a stream id it is this for each of them. -/
def cancel (s : Runner) (sid : StreamId) (force : Bool) : Runner :=
  if sid < s.tokens.length then
    let s := { s with
      returned := s.returned ++ [(sid, s.partials sid)]
      tokens := s.tokens.set sid true }
    let s := s.emitCancelledEvent sid
    if force then s.forceCancelExecutor sid else s
  else s

/-! ## The system -/

inductive Step where
  | run
  | producer
  | executor (sid : StreamId)
  | stage (sid : StreamId) (index : Nat)
  | source (sid : StreamId) (index : Nat) (chunk : Chunk)
  | enrich (pid : PlaceholderId)
  | enriched (pid : PlaceholderId) (url : Option String)
  | cancel (sid : StreamId) (force : Bool)
  | tick (ms : Nat)
  | disconnect
  | reconnect

def step (cfg : StreamConfig) (s : Runner) : Step → Option Runner
  | .run => s.runTurn cfg
  | .producer => s.producerTurn cfg
  | .executor sid => s.executorTurn sid
  | .stage sid index => s.stageTurn sid index
  | .source sid index chunk => s.source sid index chunk
  | .enrich pid => s.enrichTurn pid
  | .enriched pid url => s.enriched cfg pid url
  | .cancel sid force => some (s.cancel sid force)
  | .tick ms => some { s with now := s.now + ms }
  | .disconnect => some { s with monitor := s.monitor.notifyDisconnect }
  | .reconnect => some { s with monitor := s.monitor.notifyReconnect.2 }

def fresh (cfg : StreamConfig) : Runner where
  mux := { queue := { maxsize := cfg.queueMaxsize }, backpressure := cfg.backpressure }
  monitor :=
    { onDisconnect := if cfg.grace then .grace else .«continue»
      buffer := { maxsize := 5000 } }

end Runner

end Orditect.Stream
