import Orditect.Stream.Proofs.Stages
/-!
# Placeholders and their tasks

What is found for a placeholder after a change to the registry or to the tasks.
-/

namespace Orditect.Stream.Runner.Proofs

open Support

def phase? (s : Runner) (pid : PlaceholderId) : Option EnrichPhase :=
  (enrichTask? s pid).map (·.phase)

def announcing (s : Runner) (pid : PlaceholderId) : Bool :=
  match phase? s pid with
  | some (.announcing _) => true
  | _ => false

variable {pid : PlaceholderId} {s s' : Runner} {entry : PlaceholderRecord} {url : String}

theorem announcing_iff :
    announcing s pid = true ↔ ∃ url, phase? s pid = some (.announcing url) := by
  rw [announcing]
  split
  next url h => simp [h]
  next h => simpa using h

/-! ## Tasks -/

theorem phase?_congr (h : s'.enrichTasks = s.enrichTasks) (pid : PlaceholderId) :
    phase? s' pid = phase? s pid := by
  rw [phase?, phase?, enrichTask?, enrichTask?, h]

theorem announcing_congr (h : phase? s' pid = phase? s pid) :
    announcing s' pid = announcing s pid := by
  rw [announcing, announcing, h]

theorem phase?_of_task {task : EnrichTask} (h : enrichTask? s pid = some task) :
    phase? s pid = some task.phase := by
  rw [phase?, h]
  rfl

theorem phase?_setEnrichTask (s : Runner) (pid pid' : PlaceholderId) (phase : EnrichPhase) :
    phase? (s.setEnrichTask pid phase) pid' =
      if pid' = pid then (phase? s pid').map fun _ => phase else phase? s pid' := by
  have hkey : ((fun task : EnrichTask => task.placeholderId == pid') ∘
      fun task => if task.placeholderId = pid then { task with phase := phase } else task) =
        fun task => task.placeholderId == pid' := by
    funext task
    rw [Function.comp_apply]
    split <;> rfl
  rw [phase?, enrichTask?, Runner.setEnrichTask, List.find?_map, hkey, Option.map_map, phase?,
    enrichTask?]
  cases hfound : s.enrichTasks.find? fun task => task.placeholderId == pid' with
  | none => simp
  | some task =>
    have hpid : task.placeholderId = pid' := by simpa using List.find?_some hfound
    rw [Option.map_some, Function.comp_apply, hpid]
    split <;> rfl

theorem phase?_register (s : Runner) (pid pid' : PlaceholderId) (sid : StreamId) :
    phase? (s.register pid sid) pid' =
      (phase? s pid').or (if pid' = pid then some .resolving else none) := by
  rw [phase?, enrichTask?, Runner.register, List.find?_append, phase?, enrichTask?]
  cases s.enrichTasks.find? fun task => task.placeholderId == pid' with
  | some task => rfl
  | none =>
    by_cases h : pid' = pid
    · simp [h]
    · simp [h, Ne.symm h]

/-! ## Records -/

theorem record?_congr (h : s'.registry = s.registry) (pid : PlaceholderId) :
    s'.record? pid = s.record? pid := by
  rw [Runner.record?, Runner.record?, h]

theorem record?_placeholderId (h : s.record? pid = some entry) : entry.placeholderId = pid := by
  rw [Runner.record?] at h
  simpa using List.find?_some h

theorem record?_map {f : PlaceholderRecord → PlaceholderRecord}
    (hf : ∀ entry, (f entry).placeholderId = entry.placeholderId)
    (h : s'.registry = s.registry.map f) (pid : PlaceholderId) :
    s'.record? pid = (s.record? pid).map f := by
  have hkey : ((fun entry : PlaceholderRecord => entry.placeholderId == pid) ∘ f) =
      fun entry => entry.placeholderId == pid := by
    funext entry
    rw [Function.comp_apply, hf]
  rw [Runner.record?, h, List.find?_map, hkey]
  rfl

theorem record?_register (s : Runner) (pid pid' : PlaceholderId) (sid : StreamId) :
    (s.register pid sid).record? pid' =
      (s.record? pid').or
        (if pid' = pid then some { placeholderId := pid, streamId := sid } else none) := by
  rw [Runner.record?, Runner.register, List.find?_append, Runner.record?]
  cases s.registry.find? fun entry => entry.placeholderId == pid' with
  | some entry => rfl
  | none =>
    by_cases h : pid' = pid
    · simp [h]
    · simp [h, Ne.symm h]

def hasUrl : Option String → Bool
  | some url => decide (url ≠ "")
  | none => false

def owes (entry : PlaceholderRecord) : Bool :=
  decide (entry.state = .resolved) && hasUrl entry.url

def resolvedAs (pid : PlaceholderId) (url : String) (entry : PlaceholderRecord) :
    PlaceholderRecord :=
  if entry.placeholderId = pid ∧ entry.state = .pending then
    { entry with state := .resolved, url := some url }
  else entry

def failedIf (who : PlaceholderId → Bool) (entry : PlaceholderRecord) : PlaceholderRecord :=
  if who entry.placeholderId = true ∧ entry.state = .pending then { entry with state := .failed }
  else entry

theorem resolvedAs_placeholderId (pid : PlaceholderId) (url : String) (entry : PlaceholderRecord) :
    (resolvedAs pid url entry).placeholderId = entry.placeholderId := by
  rw [resolvedAs]
  split <;> rfl

theorem failedIf_placeholderId (who : PlaceholderId → Bool) (entry : PlaceholderRecord) :
    (failedIf who entry).placeholderId = entry.placeholderId := by
  rw [failedIf]
  split <;> rfl

theorem owes_failedIf (who : PlaceholderId → Bool) (entry : PlaceholderRecord) :
    owes (failedIf who entry) = owes entry := by
  rw [failedIf]
  split
  next h => simp [owes, h.2]
  next => rfl

theorem resolvedAs_of_owes (h : owes entry = true) : resolvedAs pid url entry = entry := by
  refine if_neg fun hall => ?_
  rw [owes, hall.2] at h
  exact Bool.noConfusion h

theorem owes_resolvedAs (h : owes (resolvedAs pid url entry) = true) (hentry : owes entry = false) :
    url ≠ "" := by
  rw [resolvedAs] at h
  split at h
  · simpa [owes, hasUrl] using h
  · rw [hentry] at h
    exact Bool.noConfusion h

theorem registry_markResolved (s : Runner) (pid : PlaceholderId) (url : String) :
    (s.markResolved pid url).registry = s.registry.map (resolvedAs pid url) := rfl

theorem registry_markFailed (s : Runner) (who : PlaceholderId → Bool) :
    (s.markFailed who).registry = s.registry.map (failedIf who) := rfl

theorem record?_markResolved (s : Runner) (pid pid' : PlaceholderId) (url : String) :
    (s.markResolved pid url).record? pid' = (s.record? pid').map (resolvedAs pid url) :=
  record?_map (resolvedAs_placeholderId pid url) rfl pid'

theorem record?_markFailed (s : Runner) (who : PlaceholderId → Bool) (pid : PlaceholderId) :
    (s.markFailed who).record? pid = (s.record? pid).map (failedIf who) :=
  record?_map (failedIf_placeholderId who) rfl pid

/-! ## What the settle window finds -/

theorem announceable_ne_none (h : s.record? pid = some entry) (howes : owes entry = true)
    (hpid : pid ∉ s.emitted) :
    s.announceable pid ≠ none := by
  obtain ⟨placeholderId, streamId, state, url⟩ := entry
  rw [owes, Bool.and_eq_true, decide_eq_true_eq] at howes
  obtain ⟨rfl, hurl⟩ := howes
  cases url with
  | none => exact Bool.noConfusion hurl
  | some url =>
    rw [hasUrl, decide_eq_true_eq] at hurl
    rw [Runner.announceable, h]
    simp [hurl, hpid]

theorem announceable_eq_some {sid : StreamId} (h : s.announceable pid = some (sid, url)) :
    pid ∉ s.emitted ∧ ∃ entry, s.record? pid = some entry ∧ entry.state = .resolved := by
  rw [Runner.announceable] at h
  split at h
  next hrecord =>
    split_ifs at h with hall
    exact ⟨hall.2, _, hrecord, rfl⟩
  next => simp at h

end Orditect.Stream.Runner.Proofs
