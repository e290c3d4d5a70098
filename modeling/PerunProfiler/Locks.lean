import PerunProfiler.Document
import PerunProfiler.Lib.Locks

/-!
# The two locks

`AutoLock.h`, `Mutex.cpp`, `Logger.cpp` and the scopes of `CoreProfiler.cpp` with an `AutoLock`. The lock
of the logger is taken for one message at a time, at times under the lock of the profiler, never the
other way round. So the threads of the program can always go on, and the log they leave consists of
whole messages. `Logger::Shutdown` closes the file without the lock: what comes later is lost, and a
message that is being written is cut off.
-/

namespace Perun
open Lib
open Threads (Part Ascending Sound ofThread text)

/-- `CoreProfiler::_lock` and `Logger::_lock`. -/
inductive Lock where
  | core
  | log
deriving DecidableEq

/-- The order in which `Shutdown` takes the two. -/
def Lock.rank : Lock → Nat
  | core => 0
  | log => 1

instance : Preorder Lock := Preorder.lift Lock.rank

instance : WellFoundedGT Lock where
  wf := Subrelation.wf (fun {l k} (h : k.rank < l.rank) => show 1 - l.rank < 1 - k.rank by
    cases l <;> cases k <;> revert h <;> decide) (measure fun l : Lock => 1 - l.rank).wf

/-- What the runtime calls. -/
inductive Entry where
  | initializeProfiler (os : Process) (now : Clock)
  | callback (e : Callback)
  | shutdown (os : Process) (now : Clock)
deriving DecidableEq

def Entry.perform (s : CoreProfiler) : Entry → Except Fault CoreProfiler
  | initializeProfiler os now => .ok (Perun.initializeProfiler os now s)
  | callback e => step s e
  | shutdown os now => Perun.shutdown os now s

/-- A scope that begins with `AutoLock locker(lock)`. -/
def autoLock (lock : Lock) (scope : List (Part Lock (Tok Str))) : List (Part Lock (Tok Str)) :=
  .acquire lock :: scope ++ [.release lock]

def initializeMessage (os : Process) (now : Clock) : Message :=
  .lbrace :: (Json.member (initializeMember os now) ++ [.comma])

/-- The messages of `Shutdown`, in the order of its scope. -/
def shutdownMessages (os : Process) (now : Clock) (s : CoreProfiler) : List Message :=
  match functionsSection s.functions.size now s, objectsSection s with
  | .ok (events, _), .ok (records, _) =>
    (shutdownSections (writtenRecords events) records (s.functionMap.toList.filterMap Prod.snd)).flatten ++
      [shutdownMessage os now]
  | _, _ => []

/-- A call of the profiler, with the messages that it comes to write. What it has found when it put them
together does not matter. -/
inductive Visit where
  | initializeProfiler (message : Message)
  | garbageCollectionStarted (message : Message)
  | garbageCollectionFinished (message : Message) (isDeallocEnable : Bool)
  | movedReferences (isDeallocEnable : Bool)
  | survivingReferences (isDeallocEnable : Bool)
  /-- any other callback -/
  | other
  | shutdown (messages : List Message)
deriving DecidableEq

namespace Visit

def messages : Visit → List Message
  | initializeProfiler message | garbageCollectionStarted message | garbageCollectionFinished message _ => [message]
  | shutdown messages => messages
  | _ => []

/-- The locks a call takes, the messages it writes and whether it closes the file. -/
def parts : Visit → List (Part Lock (Tok Str))
  | initializeProfiler message => [.write message]
  | garbageCollectionStarted message => [.write message]
  | garbageCollectionFinished message isDeallocEnable =>
    .write message :: if isDeallocEnable then autoLock .core [] else []
  | movedReferences isDeallocEnable | survivingReferences isDeallocEnable =>
    if isDeallocEnable then autoLock .core [] else []
  | other => []
  | shutdown messages => autoLock .core (messages.map .write) ++ [.close]

def closes : Visit → Bool
  | shutdown _ => true
  | _ => false

theorem autoLock_message (lock : Lock) (messages : List Message) :
    (autoLock lock (messages.map .write)).filterMap Part.message = messages := by
  rw [autoLock, List.cons_append, List.filterMap_cons_none rfl, List.filterMap_append, List.filterMap_map,
    show (Part.message ∘ Part.write : Message → Option Message) = some from rfl, List.filterMap_some]
  exact List.append_nil _

/-- A call writes no message but those under the lock of the logger. -/
theorem parts_message (v : Visit) : v.parts.filterMap Part.message = v.messages := by
  cases v with
  | shutdown messages => rw [parts, List.filterMap_append, autoLock_message]; exact List.append_nil _
  | garbageCollectionFinished message isDeallocEnable => cases isDeallocEnable <;> rfl
  | movedReferences isDeallocEnable => cases isDeallocEnable <;> rfl
  | survivingReferences isDeallocEnable => cases isDeallocEnable <;> rfl
  | _ => rfl

theorem autoLock_ascending (messages : List Message) :
    Ascending [] ((autoLock .core (messages.map .write)).flatMap (Part.acts .log)) := by
  have hbelow : ∀ k ∈ [Lock.core], k < Lock.log := by
    intro k hk
    rw [List.mem_singleton.1 hk]
    exact Nat.one_pos
  have hwrites : Ascending [Lock.core] ((messages.map Part.write).flatMap (Part.acts .log) ++ [.release .core]) :=
    Ascending.writes hbelow messages ⟨[], rfl, rfl⟩
  rw [autoLock, List.cons_append, List.flatMap_cons, List.flatMap_append]
  have hnone : ∀ k ∈ ([] : List Lock), k < Lock.core := fun k hk => by cases hk
  exact ⟨hnone, hwrites⟩

/-- The lock of the profiler comes first. -/
theorem ascending (v : Visit) : Ascending [] (v.parts.flatMap (Part.acts .log)) := by
  have hwrite : ∀ message : Message, Ascending [] (Part.acts Lock.log (.write message) ++ []) := fun message =>
    Ascending.write (fun k hk => by cases hk) message rfl
  have hcore : ∀ isDeallocEnable : Bool,
      Ascending [] ((if isDeallocEnable then autoLock .core [] else []).flatMap (Part.acts .log)) := by
    intro isDeallocEnable
    split
    · exact autoLock_ascending []
    · exact rfl
  cases v with
  | initializeProfiler message => exact hwrite _
  | garbageCollectionStarted message => exact hwrite _
  | garbageCollectionFinished message isDeallocEnable =>
    rw [parts, List.flatMap_cons, ← List.append_nil (Part.acts _ _)]
    exact (hwrite _).append (hcore _)
  | movedReferences isDeallocEnable => exact hcore _
  | survivingReferences isDeallocEnable => exact hcore _
  | other => exact rfl
  | shutdown messages =>
    rw [parts, List.flatMap_append]
    exact (autoLock_ascending _).append rfl

theorem mem_autoLock {lock : Lock} {messages : List Message} {p : Part Lock (Tok Str)}
    (hp : p ∈ autoLock lock (messages.map .write)) :
    p = .acquire lock ∨ p = .release lock ∨ ∃ message, p = .write message := by
  rw [autoLock, List.cons_append, List.mem_cons, List.mem_append, List.mem_map, List.mem_singleton] at hp
  obtain rfl | ⟨message, -, rfl⟩ | rfl := hp
  · exact .inl rfl
  · exact .inr (.inr ⟨message, rfl⟩)
  · exact .inr (.inl rfl)

/-- What else a call does than `Shutdown` at its end. -/
theorem mem_parts {v : Visit} {p : Part Lock (Tok Str)} (hp : p ∈ v.parts) :
    p = .acquire .core ∨ p = .release .core ∨ (∃ message, p = .write message) ∨ p = .close ∧ v.closes = true := by
  have hlock : ∀ messages : List Message, p ∈ autoLock .core (messages.map .write) →
      p = .acquire .core ∨ p = .release .core ∨ (∃ message, p = .write message) ∨ p = .close ∧ v.closes = true := by
    intro messages hp
    rcases mem_autoLock hp with hp | hp | hp
    · exact .inl hp
    · exact .inr (.inl hp)
    · exact .inr (.inr (.inl hp))
  have hcore : ∀ isDeallocEnable : Bool, p ∈ (if isDeallocEnable then autoLock Lock.core [] else []) →
      p = .acquire .core ∨ p = .release .core ∨ (∃ message, p = .write message) ∨ p = .close ∧ v.closes = true := by
    intro isDeallocEnable hp
    split at hp
    · exact hlock [] hp
    · cases hp
  cases v with
  | initializeProfiler message => exact .inr (.inr (.inl ⟨message, List.mem_singleton.1 hp⟩))
  | garbageCollectionStarted message => exact .inr (.inr (.inl ⟨message, List.mem_singleton.1 hp⟩))
  | garbageCollectionFinished message isDeallocEnable =>
    obtain rfl | hp := List.mem_cons.1 hp
    · exact .inr (.inr (.inl ⟨message, rfl⟩))
    · exact hcore _ hp
  | movedReferences isDeallocEnable => exact hcore _ hp
  | survivingReferences isDeallocEnable => exact hcore _ hp
  | other => cases hp
  | shutdown messages =>
    rcases List.mem_append.1 hp with hp | hp
    · exact hlock _ hp
    · exact .inr (.inr (.inr ⟨List.mem_singleton.1 hp, rfl⟩))

theorem spares {v : Visit} : ∀ p ∈ v.parts, p.Spares .log := by
  intro p hp
  rcases mem_parts hp with rfl | rfl | ⟨message, rfl⟩ | ⟨rfl, -⟩
  · exact fun e => by cases e
  · exact fun e => by cases e
  · exact trivial
  · exact trivial

/-- Only `Shutdown` closes the file, when all its messages are behind. -/
theorem parts_close {v : Visit} {before after : List (Part Lock (Tok Str))} (h : v.parts = before ++ .close :: after) :
    v.closes = true ∧ before.filterMap Part.message = v.messages := by
  have hmem : .close ∈ v.parts := h ▸ List.mem_append_right _ List.mem_cons_self
  obtain ⟨messages, rfl⟩ : ∃ messages, v = .shutdown messages := by
    rcases mem_parts hmem with hp | hp | ⟨message, hp⟩ | ⟨-, hv⟩
    · cases hp
    · cases hp
    · cases hp
    · cases v <;> cases hv
      exact ⟨_, rfl⟩
  have hnone : .close ∉ autoLock Lock.core (messages.map .write) := by
    intro hp
    rcases mem_autoLock hp with hp | hp | ⟨message, hp⟩ <;> cases hp
  obtain ⟨rfl, -, -⟩ := (List.append_cons_inj_of_notMem hnone List.not_mem_nil).1 h
  exact ⟨rfl, autoLock_message _ _⟩

end Visit

/-- The visit that a call pays when it finds `s` and no other thread changes it meanwhile. -/
def Entry.visit (s : CoreProfiler) : Entry → Visit
  | initializeProfiler os now => .initializeProfiler (initializeMessage os now)
  | callback (.garbageCollectionStarted g t now) => .garbageCollectionStarted (gcStartedMessage (s.gcNumber + 1) t g now)
  | callback (.garbageCollectionFinished t now) =>
    .garbageCollectionFinished (gcFinishedMessage s.gcNumber t now) s.isDeallocEnable
  | callback (.movedReferences _) => .movedReferences s.isDeallocEnable
  | callback (.survivingReferences _) => .survivingReferences s.isDeallocEnable
  | callback _ => .other
  | shutdown os now => .shutdown (shutdownMessages os now s)

/-- Such a call adds the messages of its visit to the log. -/
theorem Entry.perform_log {s s' : CoreProfiler} {entry : Entry} (h : entry.perform s = .ok s') :
    s'.log = s.log ++ (entry.visit s).messages := by
  cases entry with
  | initializeProfiler os now =>
    cases h
    rfl
  | shutdown os now =>
    have h : Perun.shutdown os now s = .ok s' := h
    show _ = _ ++ shutdownMessages os now s
    cases hf : functionsSection s.functions.size now s with
    | error f =>
      rw [Perun.shutdown, hf] at h
      cases h
    | ok x =>
      cases ho : objectsSection s with
      | error f =>
        rw [Perun.shutdown, hf, ho] at h
        cases h
      | ok y =>
        obtain ⟨s₁, h₁, hlog⟩ := shutdown_log os hf ho
        cases h.symm.trans h₁
        rw [shutdownMessages, hf, ho]
        exact hlog.trans (List.append_assoc _ _ _)
  | callback e =>
    have hlog := (step_gc (show step s e = .ok s' from h)).1
    cases e <;> exact hlog

section threads
variable {T : Type} [DecidableEq T] {visits : T → List Visit} {log : List Message} {picks : List T}
  {s : Threads T Lock (Tok Str)}

/-- Threads that make calls one after the other, with what the log holds before. -/
def threads (visits : T → List Visit) (log : List Message) : Threads T Lock (Tok Str) :=
  .start (fun t => ((visits t).flatMap Visit.parts).flatMap (Part.acts .log)) log.flatten

theorem flatMap_parts_message (vs : List Visit) :
    (vs.flatMap Visit.parts).filterMap Part.message = vs.flatMap Visit.messages := by
  rw [List.filterMap_flatMap]
  exact List.flatMap_congr fun v _ => v.parts_message

/-- What a thread has written when it closes the file. -/
theorem flatMap_parts_close {vs : List Visit} {before after : List (Part Lock (Tok Str))}
    (h : vs.flatMap Visit.parts = before ++ .close :: after) :
    ∃ vs₁ v vs₂, vs = vs₁ ++ v :: vs₂ ∧ v.closes = true ∧
      before.filterMap Part.message = (vs₁ ++ [v]).flatMap Visit.messages := by
  induction vs generalizing before with
  | nil => simp at h
  | cons v vs ih =>
    rw [List.flatMap_cons] at h
    have hlater : ∀ middle, before = v.parts ++ middle → vs.flatMap Visit.parts = middle ++ .close :: after →
        ∃ vs₁ v' vs₂, v :: vs = vs₁ ++ v' :: vs₂ ∧ v'.closes = true ∧
          before.filterMap Part.message = (vs₁ ++ [v']).flatMap Visit.messages := by
      rintro middle rfl hvs
      obtain ⟨vs₁, v', vs₂, rfl, hcloses, hmessages⟩ := ih hvs
      exact ⟨v :: vs₁, v', vs₂, rfl, hcloses, by rw [List.filterMap_append, v.parts_message, hmessages]; rfl⟩
    obtain ⟨middle, hbefore, hvs⟩ | ⟨middle, hv, hvs⟩ := List.append_eq_append_iff.1 h
    · exact hlater middle hbefore hvs
    · cases middle with
      | nil => exact hlater [] (by rw [hv, List.append_nil, List.append_nil]) hvs.symm
      | cons p middle =>
        obtain ⟨rfl, -⟩ := List.cons.inj hvs
        obtain ⟨hcloses, hmessages⟩ := Visit.parts_close hv
        exact ⟨[], v, vs, rfl, hcloses, by rw [hmessages]; exact (List.append_nil _).symm⟩

/-- The file was closed by the `Shutdown` of some thread: it has the messages `before`, among them all that this
thread writes up to its `Shutdown`, and perhaps a part of the next one. -/
def ClosedIn (visits : T → List Visit) (log : List Message) (order : List (T × Message)) (file : Message) : Prop :=
  ∃ before after cut, order = before ++ after ∧ file = log.flatten ++ text before ++ cut ∧
    cut <+: (after.head?.map Prod.snd).getD [] ∧ ∃ t vs₁ v vs₂, visits t = vs₁ ++ v :: vs₂ ∧ v.closes = true ∧
      ofThread t before = (vs₁ ++ [v]).flatMap Visit.messages

/-- In whatever order the threads take turns: no thread is locked out for good, no run goes on for ever,
and once all calls have returned the messages, those of each thread in their order, make up the log,
which is cut off where `Shutdown` closes it. -/
theorem threads_run [Fintype T] (h : run Threads.step (threads visits log) picks = .ok s) :
    picks.length + s.remaining = (threads visits log).remaining ∧
    (∃ more s', run Threads.step s more = .ok s' ∧ ∀ t, s'.code t = []) ∧
    ((∀ t, s.code t = []) → ∃ order : List (T × Message), (∀ t, ofThread t order = (visits t).flatMap Visit.messages) ∧
      ((∀ t, ∀ v ∈ visits t, v.closes = false) → s.file = log.flatten ++ text order) ∧
      ((∃ t, ∃ v ∈ visits t, v.closes = true) → ClosedIn visits log order s.file)) := by
  have hsound : Sound (threads visits log) fun _ => [] := by
    refine Sound.start (fun t => ?_) _
    rw [List.flatMap_assoc, List.flatMap_def]
    refine Ascending.flatten fun code hcode => ?_
    obtain ⟨v, -, rfl⟩ := List.mem_map.1 hcode
    exact v.ascending
  obtain ⟨held, hs⟩ := hsound.run h
  refine ⟨by rw [Threads.run_remaining h, Nat.add_comm], hs.completes, fun hdone => ?_⟩
  have hfree : s.owner .log = none := by
    cases ho : s.owner .log with
    | none => rfl
    | some t =>
      have hnil : held t = [] := by
        have hasc := hs.ascending t
        rw [hdone t] at hasc
        exact hasc
      cases hnil ▸ (hs.owner .log t).1 ho
  have hspares : ∀ t, ∀ p ∈ (visits t).flatMap Visit.parts, p.Spares .log := by
    intro t p hp
    obtain ⟨v, -, hp⟩ := List.mem_flatMap.1 hp
    exact Visit.spares p hp
  obtain ⟨order, hmessages, hopen, hclosed⟩ := Threads.serial hspares h hfree hdone
  refine ⟨order, fun t => (hmessages t).trans (flatMap_parts_message _), fun hnever => hopen fun t hp => ?_, ?_⟩
  · obtain ⟨v, hv, hp⟩ := List.mem_flatMap.1 hp
    rcases Visit.mem_parts hp with hp | hp | ⟨message, hp⟩ | ⟨-, hcloses⟩
    · cases hp
    · cases hp
    · cases hp
    · rw [hnever t v hv] at hcloses
      cases hcloses
  · rintro ⟨t, v, hv, hcloses⟩
    have hmem : Part.close ∈ (visits t).flatMap Visit.parts := by
      refine List.mem_flatMap.2 ⟨v, hv, ?_⟩
      cases v <;> cases hcloses
      exact List.mem_append_right _ List.mem_cons_self
    obtain ⟨before, after, cut, horder, hfile, hcut, u, done, rest, hparts, hbefore⟩ := hclosed t hmem
    obtain ⟨vs₁, v', vs₂, hvs, hv', hdone'⟩ := flatMap_parts_close hparts
    exact ⟨before, after, cut, horder, hfile, hcut, u, vs₁, v', vs₂, hvs, hv', hbefore.trans hdone'⟩

end threads

/-- A collection starts on one thread while another one is in `Shutdown`. -/
def collectInShutdown (shutsDown : Bool) : List Visit :=
  if shutsDown then [(Entry.shutdown ⟨1, 1⟩ ⟨9, 9⟩).visit Config.plain.start]
  else [(Entry.callback (.garbageCollectionStarted ⟨true, false, false⟩ 2 ⟨5, 5⟩)).visit Config.plain.start]

/-- `Shutdown` gets to the end of its scope, the other thread takes the lock and writes the first four tokens
of its message, the file is closed, and the rest of the message is lost. -/
def cutPicks : List Bool := List.replicate 62 true ++ List.replicate 5 false ++ [true] ++ List.replicate 25 false

set_option maxRecDepth 4000 in
theorem threads_run_collectInShutdown : ∃ s : Threads Bool Lock (Tok Str),
    run Threads.step (threads collectInShutdown Config.plain.start.log) cutPicks = .ok s ∧ (∀ t, s.code t = []) ∧
      (∃ order, (∀ t, ofThread t order = (collectInShutdown t).flatMap Visit.messages) ∧
        ClosedIn collectInShutdown Config.plain.start.log order s.file) := by
  obtain ⟨s, hs⟩ : ∃ s, run Threads.step (threads collectInShutdown Config.plain.start.log) cutPicks = .ok s := ⟨_, rfl⟩
  obtain ⟨-, -, hall⟩ := threads_run hs
  have hdone : ∀ t, s.code t = [] := by
    obtain rfl : _ = s := Except.ok.inj hs
    intro t
    cases t <;> rfl
  obtain ⟨order, hmessages, -, hclosed⟩ := hall hdone
  exact ⟨s, hs, hdone, order, hmessages, hclosed ⟨true, _, List.mem_cons_self, rfl⟩⟩

end Perun
