import PerunProfiler.CoreProfiler

/-!
# Entering and leaving functions

`Enter`, `Leave`, `TailCall`, the stubs in front of them and the two unwind callbacks. The thread
making the callback and the clock readings it takes are arguments.
-/

namespace Perun
open Lib

namespace CoreProfiler

/-- `m_activeFunctionInThread[threadId]`, which is `(0, null)` when first looked up. -/
def threadEntry (s : CoreProfiler) (threadId : ThreadID) : Nat × Option Ptr :=
  s.activeFunctionInThread.getD threadId (0, none)

def activeFunction (s : CoreProfiler) (threadId : ThreadID) : Option Ptr := (s.threadEntry threadId).2

theorem threadEntry_eq {s : CoreProfiler} {threadId : ThreadID} {entry : Nat × Option Ptr}
    (h : s.activeFunctionInThread[threadId]? = some entry) : s.threadEntry threadId = entry := by
  rw [threadEntry, Std.ExtTreeMap.getD_eq_getD_getElem?, h, Option.getD_some]

theorem activeFunction_eq {s : CoreProfiler} {threadId : ThreadID} {first : Nat} {active : Option Ptr}
    (h : s.activeFunctionInThread[threadId]? = some (first, active)) : s.activeFunction threadId = active :=
  congrArg Prod.snd (threadEntry_eq h)

/-- The function is in `m_functionMap` with an entry that is not null. -/
def traced (s : CoreProfiler) (functionID : FunctionID) : Bool :=
  (s.functionMap.getD functionID none).isSome

end CoreProfiler

/-- The record `Enter` makes, before it is linked. -/
def newFunction (functionID : FunctionID) (functionInfo : FunctionInfo) (threadId : ThreadID) (now : Clock) :
    FunctionClass :=
  { funcId := functionID, funcInfo := functionInfo, TID := threadId
    wallTimeEnter := now.wall, cpuTimeEnter := now.cpu }

/-- `Enter` with an active function `prev`: the new record becomes its last called function. -/
def enterBelow (function : FunctionClass) (threadId : ThreadID) (first : Nat) (prev : Ptr)
    (prevFunction : FunctionClass) (s : CoreProfiler) : CoreProfiler :=
  { s with
    functions :=
      (s.functions.alloc { function with
        callOrderNumber := first + 1, depth := prevFunction.depth + 1, prevFunction := some prev }).set prev
        { prevFunction with calledFunctions := prevFunction.calledFunctions ++ [s.functions.size] }
    activeFunctionInThread := s.activeFunctionInThread.insert threadId (first + 1, some s.functions.size) }

/-- `Enter` without an active function: the new record starts the tree of the thread. -/
def enterTop (function : FunctionClass) (threadId : ThreadID) (s : CoreProfiler) : CoreProfiler :=
  { s with
    functions := s.functions.alloc { function with callOrderNumber := 0, depth := 0, prevFunction := none }
    activeFunctionInThread := s.activeFunctionInThread.insert threadId (0, some s.functions.size) }

def enter (functionID : FunctionID) (threadId : ThreadID) (now : Clock) (s : CoreProfiler) :
    Except Fault CoreProfiler :=
  match s.functionMap.getD functionID none with
  | none => .ok { s with functionMap := s.functionMap.insertIfNew functionID none }
  | some functionInfo =>
    if s.info then
      let function := newFunction functionID functionInfo threadId now
      match s.threadEntry threadId with
      | (first, some prev) =>
        match deref s.functions prev with
        | .error f => .error f
        | .ok prevFunction => .ok (enterBelow function threadId first prev prevFunction s)
      | (_, none) => .ok (enterTop function threadId s)
    else .error .releasedInfo

def FunctionClass.stamp (function : FunctionClass) (now : Clock) : FunctionClass :=
  { function with cpuTimeLeave := now.cpu, wallTimeLeave := now.wall }

/-- What `Leave`, `TailCall` and `ExceptionUnwindFunctionLeave` do: the active function of the thread
gets its leave times and, unless it is outermost, the function before it becomes active. -/
def leaveActive (threadId : ThreadID) (now : Clock) (s : CoreProfiler) : Except Fault CoreProfiler :=
  if s.info then
    match s.activeFunctionInThread[threadId]? with
    | none => .ok s
    | some (_, none) => .error .nullActiveFunction
    | some (first, some active) =>
      match deref s.functions active with
      | .error f => .error f
      | .ok activeFunction =>
        let s := { s with functions := s.functions.set active (activeFunction.stamp now) }
        match activeFunction.prevFunction with
        | some prev =>
          .ok { s with activeFunctionInThread := s.activeFunctionInThread.insert threadId (first, some prev) }
        | none => .ok s
  else .error .releasedInfo

/-- `Leave`; that the active function is `functionID` is not enforced. -/
def leave (_functionID : FunctionID) (threadId : ThreadID) (now : Clock) (s : CoreProfiler) :
    Except Fault CoreProfiler :=
  leaveActive threadId now s

def tailCall (_functionID : FunctionID) (threadId : ThreadID) (now : Clock) (s : CoreProfiler) :
    Except Fault CoreProfiler :=
  leaveActive threadId now s

def enterStub (functionId : FunctionID) (threadId : ThreadID) (now : Clock) (s : CoreProfiler) :
    Except Fault CoreProfiler :=
  if functionId = 0 then .ok s else if s.gCoreProfiler then enter functionId threadId now s else .ok s

def leaveStub (functionId : FunctionID) (threadId : ThreadID) (now : Clock) (s : CoreProfiler) :
    Except Fault CoreProfiler :=
  if functionId = 0 then .ok s else if s.gCoreProfiler then leave functionId threadId now s else .ok s

def tailcallStub (functionId : FunctionID) (threadId : ThreadID) (now : Clock) (s : CoreProfiler) :
    Except Fault CoreProfiler :=
  if functionId = 0 then .ok s else if s.gCoreProfiler then tailCall functionId threadId now s else .ok s

/-- `ExceptionUnwindFunctionEnter`: enters the function once more. -/
def exceptionUnwindFunctionEnter (functionId : FunctionID) (threadId : ThreadID) (now : Clock)
    (s : CoreProfiler) : Except Fault CoreProfiler :=
  if functionId = 0 then .ok s else if s.gCoreProfiler then enter functionId threadId now s else .ok s

def exceptionUnwindFunctionLeave (threadId : ThreadID) (now : Clock) (s : CoreProfiler) :
    Except Fault CoreProfiler :=
  leaveActive threadId now s

/-! ### What the two can do -/

section cases
variable {functionID : FunctionID} {threadId : ThreadID} {now : Clock} {s s' : CoreProfiler}

theorem enter_cases (h : enter functionID threadId now s = .ok s') :
    (s.traced functionID = false ∧ s' = { s with functionMap := s.functionMap.insertIfNew functionID none }) ∨
    (s.traced functionID = true ∧ ∃ info, s.functionMap.getD functionID none = some info ∧
      ((s.activeFunction threadId = none ∧ s' = enterTop (newFunction functionID info threadId now) threadId s) ∨
        ∃ prev prevFunction, s.activeFunction threadId = some prev ∧
          s.functions.get? prev = some prevFunction ∧
          s' = enterBelow (newFunction functionID info threadId now) threadId (s.threadEntry threadId).1 prev
            prevFunction s)) := by
  unfold enter at h
  cases hm : s.functionMap.getD functionID none with
  | none =>
    rw [hm] at h
    exact .inl ⟨by simp [CoreProfiler.traced, hm], (Except.ok.inj h).symm⟩
  | some info =>
    rw [hm] at h
    refine .inr ⟨by simp [CoreProfiler.traced, hm], info, rfl, ?_⟩
    obtain ⟨⟨first, active⟩, he⟩ : ∃ x, s.threadEntry threadId = x := ⟨_, rfl⟩
    simp only [he] at h
    split at h
    · cases active with
      | none => exact .inl ⟨by simp [CoreProfiler.activeFunction, he], (Except.ok.inj h).symm⟩
      | some prev =>
        cases hd : deref s.functions prev with
        | error f => simp [hd] at h
        | ok prevFunction =>
          simp only [hd, Except.ok.injEq] at h
          exact .inr ⟨prev, prevFunction, by simp [CoreProfiler.activeFunction, he], deref_ok.1 hd,
            by rw [← h, he]⟩
    · cases h

theorem leaveActive_cases (h : leaveActive threadId now s = .ok s') :
    (s.activeFunctionInThread[threadId]? = none ∧ s' = s) ∨
    ∃ first active function, s.activeFunctionInThread[threadId]? = some (first, some active) ∧
      s.functions.get? active = some function ∧
      s' = { s with
        functions := s.functions.set active (function.stamp now)
        activeFunctionInThread :=
          match function.prevFunction with
          | some prev => s.activeFunctionInThread.insert threadId (first, some prev)
          | none => s.activeFunctionInThread } := by
  unfold leaveActive at h
  split at h
  · cases he : s.activeFunctionInThread[threadId]? with
    | none =>
      rw [he] at h
      exact .inl ⟨rfl, (Except.ok.inj h).symm⟩
    | some entry =>
      obtain ⟨first, _ | active⟩ := entry
      · simp [he] at h
      cases hd : deref s.functions active with
      | error f => simp [he, hd] at h
      | ok function =>
        refine .inr ⟨first, active, function, rfl, deref_ok.1 hd, ?_⟩
        simp only [he, hd] at h
        cases hp : function.prevFunction with
        | none => simpa [hp] using h.symm
        | some prev => simpa [hp] using h.symm
  · cases h

end cases

end Perun
