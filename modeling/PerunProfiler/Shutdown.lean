import PerunProfiler.Objects

/-!
# Shutdown

The climb to the root of every call tree, the recursive writers of `FunctionClass.cpp`,
`ObjectClass.cpp` and `FunctionInfo.cpp`, and `Shutdown` itself. A loop or recursion that uses up
its fuel is reported as diverging.
-/

namespace Perun
open Lib

/-- What `FunctionClass::Serialize` prints; `rFn` is empty for a call without a previous function. -/
structure FunctionRecord where
  fID : FunctionID
  TID : ThreadID
  eWALLt : Time
  lWALLt : Time
  eCPUt : Time
  lCPUt : Time
  depth : Nat
  rFn : Option Nat
  nOr : Nat
deriving DecidableEq, Repr, Inhabited

/-- What `ObjectClass::Serialize` prints; `fnc` is left out when it is -1. -/
structure ObjectRecord where
  TID : ThreadID
  objId : Nat
  objSize : Nat
  objType : String
  GC : Nat
  untilGC : Nat
  fnc : Int
  eWALLt : Time
  eCPUt : Time
deriving DecidableEq, Repr

def FunctionRecord.message (r : FunctionRecord) : Message :=
  match r.rFn with
  | some rFn =>
    LOGInSh "\x7b\"fID\":\"%p\",\"TID\":\"0x%p\",\"eWALLt\":\"%f\",\"lWALLt\":\"%f\",\"eCPUt\":\"%f\",\"lCPUt\":\"%f\",\"depth\":\"%d\",\"rFn\":\"%d\",\"nOr\":\"%d\"\x7d,"
      [.p r.fID, .p r.TID, .f r.eWALLt, .f r.lWALLt, .f r.eCPUt, .f r.lCPUt, .d r.depth, .d rFn, .d r.nOr]
  | none =>
    LOGInSh "\x7b\"fID\":\"%p\",\"TID\":\"0x%p\",\"eWALLt\":\"%f\",\"lWALLt\":\"%f\",\"eCPUt\":\"%f\",\"lCPUt\":\"%f\",\"depth\":\"%d\",\"rFn\":\"\",\"nOr\":\"%d\"\x7d,"
      [.p r.fID, .p r.TID, .f r.eWALLt, .f r.lWALLt, .f r.eCPUt, .f r.lCPUt, .d r.depth, .d r.nOr]

def ObjectRecord.message (r : ObjectRecord) : Message :=
  if r.fnc ≠ -1 then
    LOG "\x7b\"TID\":\"0x%p\",\"objId\":\"0x%p\",\"objSize\":\"%d\",\"objType\":\"%s\",\"GC\":\"%d\",\"untilGC\":\"%d\",\"fnc\":\"%d\",\"eWALLt\":\"%f\",\"eCPUt\":\"%f\"\x7d"
      [.p r.TID, .p r.objId, .d (int32 r.objSize), .s r.objType, .d r.GC, .d r.untilGC, .d r.fnc, .f r.eWALLt, .f r.eCPUt]
  else
    LOG "\x7b\"TID\":\"0x%p\",\"objId\":\"0x%p\",\"objSize\":\"%d\",\"objType\":\"%s\",\"GC\":\"%d\",\"untilGC\":\"%d\",\"eWALLt\":\"%f\",\"eCPUt\":\"%f\"\x7d"
      [.p r.TID, .p r.objId, .d (int32 r.objSize), .s r.objType, .d r.GC, .d r.untilGC, .f r.eWALLt, .f r.eCPUt]

def FunctionInfo.message (i : FunctionInfo) : Message :=
  LOGInSh "\"%p\": \"%s\"," [.p i.funcId, .s i.name]

/-! ### The call trees -/

def FunctionClass.record (function : FunctionClass) (rFn : Option Nat) : FunctionRecord where
  fID := function.funcId
  TID := function.TID
  eWALLt := function.wallTimeEnter
  lWALLt := function.wallTimeLeave
  eCPUt := function.cpuTimeEnter
  lCPUt := function.cpuTimeLeave
  depth := function.depth
  rFn := rFn
  nOr := function.callOrderNumber

/-- What happens to the records of calls during `Shutdown`, in order. -/
inductive FunctionEvent where
  | written (p : Ptr) (r : FunctionRecord)
  | deleted (p : Ptr)
deriving DecidableEq

/-- Calls without a leave time get the time of the shutdown. -/
def FunctionClass.repair (now : Clock) (function : FunctionClass) : FunctionClass :=
  if function.cpuTimeLeave = 0 ∨ function.wallTimeLeave = 0 then
    { function with cpuTimeLeave := now.cpu, wallTimeLeave := now.wall }
  else function

/-- The loop from the active function up to the function at the top of the tree. -/
def climb (now : Clock) : Nat → Ptr → Heap FunctionClass → Except Fault (Ptr × Heap FunctionClass)
  | 0, _, _ => .error .diverges
  | fuel + 1, p, functions =>
    match deref functions p with
    | .error f => .error f
    | .ok function =>
      match function.prevFunction with
      | none => .ok (p, functions.set p (function.repair now))
      | some prev => climb now fuel prev (functions.set p (function.repair now))

/-- The loop of `FunctionClass::Serialize` over the called functions: each is serialized, then
deleted. -/
def serializeCalled (serialize : Ptr → Heap FunctionClass → Except Fault (List FunctionEvent × Heap FunctionClass)) :
    List Ptr → Heap FunctionClass → Except Fault (List FunctionEvent × Heap FunctionClass)
  | [], functions => .ok ([], functions)
  | called :: rest, functions =>
    match serialize called functions with
    | .error f => .error f
    | .ok (events, functions) =>
      match deref functions called with
      | .error f => .error f
      | .ok _ =>
        match serializeCalled serialize rest (functions.free called) with
        | .error f => .error f
        | .ok (events', functions) => .ok (events ++ .deleted called :: events', functions)

def previousNumber (functions : Heap FunctionClass) (prevFunction : Option Ptr) : Except Fault (Option Nat) :=
  match prevFunction with
  | none => .ok none
  | some prev =>
    match deref functions prev with
    | .error f => .error f
    | .ok function => .ok (some function.callOrderNumber)

def serialize : Nat → Ptr → Heap FunctionClass → Except Fault (List FunctionEvent × Heap FunctionClass)
  | 0, _, _ => .error .diverges
  | fuel + 1, p, functions =>
    match deref functions p with
    | .error f => .error f
    | .ok function =>
      match previousNumber functions function.prevFunction with
      | .error f => .error f
      | .ok rFn =>
        match serializeCalled (serialize fuel) function.calledFunctions functions with
        | .error f => .error f
        | .ok (events, functions) =>
          match deref functions p with
          | .error f => .error f
          | .ok this =>
            .ok (.written p (function.record rFn) :: events, functions.set p { this with calledFunctions := [] })

/-- One round of the loop over the threads: climb, serialize, delete the top function. -/
def serializeThread (fuel : Nat) (now : Clock) (x : List FunctionEvent × Heap FunctionClass)
    (thread : Nat × Nat × Option Ptr) : Except Fault (List FunctionEvent × Heap FunctionClass) :=
  match thread.2.2 with
  | none => .ok x
  | some active =>
    match climb now fuel active x.2 with
    | .error f => .error f
    | .ok (top, functions) =>
      match serialize fuel top functions with
      | .error f => .error f
      | .ok (events, functions) =>
        match deref functions top with
        | .error f => .error f
        | .ok _ => .ok (x.1 ++ events ++ [.deleted top], functions.free top)

/-- The loop over the threads; the pointers it resets are dropped with the map afterwards. -/
def functionsSection (fuel : Nat) (now : Clock) (s : CoreProfiler) :
    Except Fault (List FunctionEvent × Heap FunctionClass) :=
  run (serializeThread fuel now) ([], s.functions) s.activeFunctionInThread.toList

def writtenRecords (events : List FunctionEvent) : List FunctionRecord :=
  events.filterMap fun
    | .written _ r => some r
    | .deleted _ => none

/-! ### The objects -/

def ObjectClass.record (object : ObjectClass) : ObjectRecord where
  TID := object.threadId
  objId := object.objectId
  objSize := object.size
  objType := object.typeName
  GC := object.gcNumber
  untilGC := object.untilGcNumber
  fnc := object.functionNumOrder
  eWALLt := object.wallTimeAllocation
  eCPUt := object.cpuTimeAllocation

/-- Serializes and deletes one object, after `adjust` has set its members. -/
def serializeObject (adjust : ObjectClass → ObjectClass) (x : List ObjectRecord × Heap ObjectClass) (p : Ptr) :
    Except Fault (List ObjectRecord × Heap ObjectClass) :=
  match deref x.2 p with
  | .error f => .error f
  | .ok object => .ok (x.1 ++ [(adjust object).record], x.2.free p)

/-- Objects that survived the last collection are written as alive beyond it. -/
def ObjectClass.survive (gcNumber : Nat) (object : ObjectClass) : ObjectClass :=
  if object.untilGcNumber ≠ gcNumber then { object with untilGcNumber := gcNumber + 1 } else object

def objectsSection (s : CoreProfiler) : Except Fault (List ObjectRecord × Heap ObjectClass) :=
  match run (serializeObject id) ([], s.objects) s.objectsDeAlloc with
  | .error f => .error f
  | .ok x => run (serializeObject (ObjectClass.survive s.gcNumber)) x (s.objectsAlloc.toList.map Prod.snd)

/-! ### The document -/

/-- The messages of the three sections `Shutdown` writes, section by section. -/
def shutdownSections (functions : List FunctionRecord) (objects : List ObjectRecord)
    (names : List FunctionInfo) : List (List Message) :=
  [[LOGInSh "\"functions\": [" []] ++ functions.map FunctionRecord.message ++ [LOGInSh "\x7b\x7d]," []],
    [LOGInSh "\"Objects\": [" []] ++ objects.map ObjectRecord.message ++ [LOGInSh "\x7b\x7d]," []],
    [LOGInSh "\"functionNames\": \x7b" []] ++ names.map FunctionInfo.message ++ [LOGInSh "\"\":\"\"\x7d," []]]

def shutdownMessage (os : Process) (now : Clock) : Message :=
  LOGInSh "\"ProfilerShutdown\":\x7b\"act\":\"shutdown\",\"PID\":\"%d\",\"TID\":\"%d\",\"eWALLt\":\"%f\",\"eCPUt\":\"%f\"\x7d\x7d"
    [.d os.pid, .d os.tid, .f now.wall, .f now.cpu]

/-- `Shutdown`. The records in `m_objectsDeAlloc` are deleted, but the list keeps the pointers. -/
def shutdown (os : Process) (now : Clock) (s : CoreProfiler) : Except Fault CoreProfiler :=
  match functionsSection s.functions.size now s with
  | .error f => .error f
  | .ok (events, functions) =>
    match objectsSection s with
    | .error f => .error f
    | .ok (records, objects) =>
      .ok { s with
        log := s.log ++ (shutdownSections (writtenRecords events) records
          (s.functionMap.toList.filterMap Prod.snd)).flatten ++ [shutdownMessage os now]
        functions := functions
        objects := objects
        objectsAlloc := ∅
        functionMap := ∅
        activeFunctionInThread := ∅
        classes := ∅
        listOfAllowedAssemblies := []
        info := false
        gCoreProfiler := false }

end Perun
