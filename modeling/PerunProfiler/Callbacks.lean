import PerunProfiler.Shutdown

/-!
# Runs of the profiler

The callbacks that do something, with the answers of the runtime, and the runs between `Initialize`
and `Shutdown`. The other callbacks return at once.
-/

namespace Perun
open Lib

inductive Callback where
  | mapper2 (functionId : FunctionID) (m : FunctionMetadata)
  | classLoadFinished (classId : ClassID) (classIDInfo : Bool) (typeDefProps : Option WString)
  | enterStub (functionId : FunctionID) (threadId : ThreadID) (now : Clock)
  | leaveStub (functionId : FunctionID) (threadId : ThreadID) (now : Clock)
  | tailcallStub (functionId : FunctionID) (threadId : ThreadID) (now : Clock)
  | exceptionUnwindFunctionEnter (functionId : FunctionID) (threadId : ThreadID) (now : Clock)
  | exceptionUnwindFunctionLeave (threadId : ThreadID) (now : Clock)
  | objectAllocated (objectId : Nat) (classId : ClassID) (objectSize : Option Nat) (threadId : ThreadID)
      (now : Clock)
  | movedReferences (ranges : List MovedRange)
  | survivingReferences (ranges : List SurvivingRange)
  | garbageCollectionStarted (generationCollected : Generations) (threadId : ThreadID) (now : Clock)
  | garbageCollectionFinished (threadId : ThreadID) (now : Clock)
deriving DecidableEq

def step (s : CoreProfiler) : Callback → Except Fault CoreProfiler
  | .mapper2 functionId m => mapper2 functionId m s
  | .classLoadFinished classId classIDInfo typeDefProps => classLoadFinished classId classIDInfo typeDefProps s
  | .enterStub functionId threadId now => enterStub functionId threadId now s
  | .leaveStub functionId threadId now => leaveStub functionId threadId now s
  | .tailcallStub functionId threadId now => tailcallStub functionId threadId now s
  | .exceptionUnwindFunctionEnter functionId threadId now => exceptionUnwindFunctionEnter functionId threadId now s
  | .exceptionUnwindFunctionLeave threadId now => exceptionUnwindFunctionLeave threadId now s
  | .objectAllocated objectId classId objectSize threadId now =>
    objectAllocated objectId classId objectSize threadId now s
  | .movedReferences ranges => movedReferences ranges s
  | .survivingReferences ranges => survivingReferences ranges s
  | .garbageCollectionStarted generationCollected threadId now =>
    garbageCollectionStarted generationCollected threadId now s
  | .garbageCollectionFinished threadId now => garbageCollectionFinished threadId now s

/-! ### What one callback can do -/

/-- What a callback does to the calls of its thread. -/
inductive Move where
  | enter (functionId : FunctionID) (threadId : ThreadID) (now : Clock)
  | leave (threadId : ThreadID) (now : Clock)
deriving DecidableEq

/-- The stubs and `ExceptionUnwindFunctionEnter` return on the function number 0. -/
def Callback.move : Callback → Option Move
  | .enterStub f t now | .exceptionUnwindFunctionEnter f t now => if f = 0 then none else some (.enter f t now)
  | .leaveStub f t now | .tailcallStub f t now => if f = 0 then none else some (.leave t now)
  | .exceptionUnwindFunctionLeave t now => some (.leave t now)
  | _ => none

/-- The four callbacks around a collection. -/
def Callback.collects : Callback → Bool
  | .garbageCollectionStarted .. | .movedReferences _ => true
  | .survivingReferences _ | .garbageCollectionFinished .. => true
  | _ => false

section step
variable {s s' : CoreProfiler} {e : Callback} {f : FunctionID} {t : ThreadID} {now : Clock}

theorem step_enter (hg : s.gCoreProfiler = true) (hm : e.move = some (.enter f t now)) :
    step s e = enter f t now s := by
  cases e <;> simp [Callback.move] at hm <;>
    (obtain ⟨hf, rfl, rfl, rfl⟩ := hm; simp [step, enterStub, exceptionUnwindFunctionEnter, hf, hg])

theorem step_leave (hg : s.gCoreProfiler = true) (hm : e.move = some (.leave t now)) :
    step s e = leaveActive t now s := by
  cases e <;> simp [Callback.move] at hm
  case exceptionUnwindFunctionLeave => obtain ⟨rfl, rfl⟩ := hm; rfl
  all_goals obtain ⟨hf, rfl, rfl⟩ := hm; simp [step, leaveStub, leave, tailcallStub, tailCall, hf, hg]

/-- The state without objects, collections and log. -/
def CoreProfiler.besidesObjects (s : CoreProfiler) : CoreProfiler :=
  { s with objects := .empty, objectsAlloc := ∅, objectsDeAlloc := [], gcNumber := 0, log := [] }

theorem step_besidesObjects (hc : e.collects = true) (h : step s e = .ok s') :
    s'.besidesObjects = s.besidesObjects := by
  cases e with
  | movedReferences r => rcases movedReferences_cases h with ⟨-, rfl⟩ | ⟨-, _, _, _, -, -, rfl⟩ <;> rfl
  | survivingReferences r => rcases survivingReferences_cases h with ⟨-, rfl⟩ | ⟨-, _, -, rfl⟩ <;> rfl
  | garbageCollectionStarted g t now => rw [garbageCollectionStarted_cases h]; rfl
  | garbageCollectionFinished t now =>
    rcases garbageCollectionFinished_cases h with ⟨-, rfl⟩ | ⟨-, _, _, -, rfl⟩ <;> rfl
  | _ => cases hc

theorem step_none (hm : e.move = none) (h : step s e = .ok s') :
    s'.functions = s.functions ∧ ∀ tid, s'.threadEntry tid = s.threadEntry tid := by
  cases e with
  | mapper2 f m => rcases mapper2_cases h with rfl | rfl <;> exact ⟨rfl, fun _ => rfl⟩
  | classLoadFinished c i p => rcases classLoadFinished_cases h with rfl | rfl <;> exact ⟨rfl, fun _ => rfl⟩
  | enterStub f t now | leaveStub f t now | tailcallStub f t now | exceptionUnwindFunctionEnter f t now =>
    obtain rfl : f = 0 := by simpa [Callback.move] using hm
    cases h
    exact ⟨rfl, fun _ => rfl⟩
  | exceptionUnwindFunctionLeave t now => simp [Callback.move] at hm
  | objectAllocated o c z t now =>
    rcases objectAllocated_cases h with ⟨-, rfl⟩ | ⟨z, -, rfl⟩
    · exact ⟨rfl, fun _ => rfl⟩
    · refine ⟨rfl, fun tid => ?_⟩
      simp only [CoreProfiler.threadEntry, Std.ExtTreeMap.getD_insertIfNew]
      split
      · next ht =>
        obtain ⟨ht, hn⟩ := ht
        obtain rfl : t = tid := by simpa using ht
        rw [Std.ExtTreeMap.getD_eq_fallback hn]
      · rfl
  | movedReferences | survivingReferences | garbageCollectionStarted | garbageCollectionFinished =>
    have hsame := step_besidesObjects rfl h
    exact ⟨(congrArg CoreProfiler.functions hsame :), fun tid => (congrArg (·.threadEntry tid) hsame :)⟩

def Callback.isCall : Callback → Bool
  | .enterStub .. | .leaveStub .. | .tailcallStub .. => true
  | .exceptionUnwindFunctionEnter .. | .exceptionUnwindFunctionLeave .. => true
  | _ => false

/-- The state without functions, calls and threads. -/
def CoreProfiler.besides (s : CoreProfiler) : CoreProfiler :=
  { s with functionMap := ∅, activeFunctionInThread := ∅, functions := .empty }

theorem enter_besides (h : enter f t now s = .ok s') : s'.besides = s.besides := by
  rcases enter_cases h with ⟨-, rfl⟩ | ⟨-, _, -, ⟨-, rfl⟩ | ⟨_, _, -, -, rfl⟩⟩ <;> rfl

theorem leaveActive_besides (h : leaveActive t now s = .ok s') : s'.besides = s.besides := by
  rcases leaveActive_cases h with ⟨-, rfl⟩ | ⟨_, _, _, -, -, rfl⟩ <;> rfl

theorem step_besides (hc : e.isCall = true) (h : step s e = .ok s') : s'.besides = s.besides := by
  cases e with
  | enterStub f t now | exceptionUnwindFunctionEnter f t now =>
    simp only [step, enterStub, exceptionUnwindFunctionEnter] at h
    split at h
    · cases h; rfl
    · split at h
      · exact enter_besides h
      · cases h; rfl
  | leaveStub f t now | tailcallStub f t now =>
    simp only [step, leaveStub, tailcallStub] at h
    split at h
    · cases h; rfl
    · split at h
      · exact leaveActive_besides h
      · cases h; rfl
  | exceptionUnwindFunctionLeave t now => exact leaveActive_besides h
  | _ => cases hc

/-- What no callback between `Initialize` and `Shutdown` changes. -/
def CoreProfiler.settings (s : CoreProfiler) : Bool × Bool × Bool × List String :=
  (s.info, s.gCoreProfiler, s.isDeallocEnable, s.listOfAllowedAssemblies)

theorem step_settings (h : step s e = .ok s') : s'.settings = s.settings := by
  by_cases hc : e.isCall = true
  · exact (congrArg CoreProfiler.settings (step_besides hc h) :)
  cases e with
  | mapper2 f m => rcases mapper2_cases h with rfl | rfl <;> rfl
  | classLoadFinished c i p => rcases classLoadFinished_cases h with rfl | rfl <;> rfl
  | objectAllocated o c z t now => rcases objectAllocated_cases h with ⟨-, rfl⟩ | ⟨z, -, rfl⟩ <;> rfl
  | movedReferences | survivingReferences | garbageCollectionStarted | garbageCollectionFinished =>
    exact (congrArg CoreProfiler.settings (step_besidesObjects rfl h) :)
  | _ => exact absurd rfl hc

theorem step_isDeallocEnable (h : step s e = .ok s') : s'.isDeallocEnable = s.isDeallocEnable := by
  have hset := step_settings h
  simp only [CoreProfiler.settings, Prod.mk.injEq] at hset
  exact hset.2.2.1

end step

structure CoreProfiler.Alive (s : CoreProfiler) : Prop where
  info : s.info = true
  gCoreProfiler : s.gCoreProfiler = true

theorem CoreProfiler.Alive.step {s s' : CoreProfiler} {e : Callback} (ha : s.Alive)
    (h : step s e = .ok s') : s'.Alive := by
  have hs := step_settings h
  simp only [CoreProfiler.settings, Prod.mk.injEq] at hs
  exact ⟨hs.1.trans ha.info, hs.2.1.trans ha.gCoreProfiler⟩

theorem step_move {s s' : CoreProfiler} {e : Callback} (ha : s.Alive) (h : step s e = .ok s') :
    (∃ f t now, e.move = some (.enter f t now) ∧ enter f t now s = .ok s') ∨
    (∃ t now, e.move = some (.leave t now) ∧ leaveActive t now s = .ok s') ∨
    (e.move = none ∧ s'.functions = s.functions ∧ ∀ tid, s'.threadEntry tid = s.threadEntry tid) := by
  cases hm : e.move with
  | none => exact .inr (.inr ⟨rfl, step_none hm h⟩)
  | some m =>
    cases m with
    | enter f t now => exact .inl ⟨f, t, now, rfl, by rw [← step_enter ha.gCoreProfiler hm, h]⟩
    | leave t now => exact .inr (.inl ⟨t, now, rfl, by rw [← step_leave ha.gCoreProfiler hm, h]⟩)

/-- The environment of a run: the values that the constructor reads and what `Initialize` prints. -/
structure Config where
  enableAssemblies : String
  enableDealloc : String
  os : Process
  now : Clock

def Config.start (c : Config) : CoreProfiler :=
  initializeProfiler c.os c.now (construct c.enableAssemblies c.enableDealloc)

/-- An environment in which both variables are empty. -/
def Config.plain : Config where
  enableAssemblies := ""
  enableDealloc := ""
  os := ⟨1, 1⟩
  now := ⟨0, 0⟩

/-- `Mapper2` on a function whose assembly is unknown, which is traced. -/
def Callback.trace (functionId : FunctionID) : Callback := .mapper2 functionId ⟨true, none, none, none⟩

/-- The state is reached after `Initialize` by callbacks, none of which faults. -/
def Reachable (s : CoreProfiler) : Prop := ∃ (c : Config) (es : List Callback), run step c.start es = .ok s

theorem Reachable.start (c : Config) : Reachable c.start := ⟨c, [], rfl⟩

theorem Reachable.run {s s' : CoreProfiler} {es : List Callback} (h : Reachable s)
    (hr : run Perun.step s es = .ok s') : Reachable s' := by
  obtain ⟨c, es₀, h⟩ := h
  exact ⟨c, es₀ ++ es, run_append.2 ⟨s, h, hr⟩⟩

theorem Reachable.step {s s' : CoreProfiler} {e : Callback} (h : Reachable s)
    (hs : Perun.step s e = .ok s') : Reachable s' :=
  h.run (run_cons.2 ⟨s', hs, run_nil⟩)

/-- What holds after `Initialize` and survives every callback holds in every reachable state. -/
theorem Reachable.inv {P : CoreProfiler → Prop} (h0 : ∀ c : Config, P c.start)
    (hs : ∀ s e s', P s → Perun.step s e = .ok s' → P s') {s : CoreProfiler} (h : Reachable s) : P s := by
  obtain ⟨c, es, h⟩ := h
  exact run_inv (h0 c) hs h

theorem Reachable.alive {s : CoreProfiler} (h : Reachable s) : s.Alive :=
  h.inv (fun _ => ⟨rfl, rfl⟩) fun _ _ _ ha hs => ha.step hs

end Perun
