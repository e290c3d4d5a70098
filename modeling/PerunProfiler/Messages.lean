import PerunProfiler.Shutdown

/-!
# What the messages say

Every message is the text of a value or of a member, followed by a comma; the last one is followed
by the brace that closes the document.
-/

namespace Perun
open Lib

def field (key : String) (value : Str) : Str × Json Str := (lit key, .str value)

def initializeMember (os : Process) (now : Clock) : Str × Json Str :=
  (lit "ProfilerInitialize", .obj [field "act" (lit "initialize"), field "PID" [.arg (.d os.pid)],
    field "TID" [.arg (.d os.tid)], field "eWALLt" [.arg (.f now.wall)], field "eCPUt" [.arg (.f now.cpu)]])

def shutdownMember (os : Process) (now : Clock) : Str × Json Str :=
  (lit "ProfilerShutdown", .obj [field "act" (lit "shutdown"), field "PID" [.arg (.d os.pid)],
    field "TID" [.arg (.d os.tid)], field "eWALLt" [.arg (.f now.wall)], field "eCPUt" [.arg (.f now.cpu)]])

def FunctionRecord.json (r : FunctionRecord) : Json Str :=
  .obj [field "fID" [.arg (.p r.fID)], field "TID" (lit "0x" ++ [.arg (.p r.TID)]),
    field "eWALLt" [.arg (.f r.eWALLt)], field "lWALLt" [.arg (.f r.lWALLt)], field "eCPUt" [.arg (.f r.eCPUt)],
    field "lCPUt" [.arg (.f r.lCPUt)], field "depth" [.arg (.d r.depth)],
    field "rFn" (r.rFn.elim [] fun rFn => [.arg (.d rFn)]), field "nOr" [.arg (.d r.nOr)]]

def ObjectRecord.json (r : ObjectRecord) : Json Str :=
  .obj ([field "TID" (lit "0x" ++ [.arg (.p r.TID)]), field "objId" (lit "0x" ++ [.arg (.p r.objId)]),
    field "objSize" [.arg (.d (int32 r.objSize))], field "objType" [.arg (.s r.objType)], field "GC" [.arg (.d r.GC)],
    field "untilGC" [.arg (.d r.untilGC)]] ++ (if r.fnc ≠ -1 then [field "fnc" [.arg (.d r.fnc)]] else []) ++
    [field "eWALLt" [.arg (.f r.eWALLt)], field "eCPUt" [.arg (.f r.eCPUt)]])

def FunctionInfo.member (i : FunctionInfo) : Str × Json Str := ([.arg (.p i.funcId)], .str [.arg (.s i.name)])

/-- A format is read from the list of its characters; the kernel is slow at taking a string apart. -/
theorem sprintf_ofList (format : List Char) (args : List Arg) :
    sprintf (String.ofList format) args = sprintfAux none format args := by
  rw [sprintf, String.toList_ofList]

theorem LOG_ofList (format : List Char) (args : List Arg) :
    LOG (String.ofList format) args = sprintfAux none format args ++ [.comma] := by
  rw [LOG, sprintf_ofList]

set_option maxRecDepth 2000 in
theorem FunctionRecord.message_eq (r : FunctionRecord) : r.message = r.json.toks ++ [.comma] := by
  unfold FunctionRecord.message FunctionRecord.json
  cases r.rFn with
  | none =>
    refine (sprintf_ofList _ _).trans ?_
    rfl
  | some rFn =>
    refine (sprintf_ofList _ _).trans ?_
    rfl

set_option maxRecDepth 2000 in
theorem ObjectRecord.message_eq (r : ObjectRecord) : r.message = r.json.toks ++ [.comma] := by
  unfold ObjectRecord.message ObjectRecord.json
  split
  · refine (LOG_ofList _ _).trans ?_
    rfl
  · refine (LOG_ofList _ _).trans ?_
    rfl

theorem FunctionInfo.message_eq (i : FunctionInfo) : i.message = Json.member i.member ++ [.comma] := by
  rfl

theorem shutdownMessage_eq (os : Process) (now : Clock) :
    shutdownMessage os now = Json.member (shutdownMember os now) ++ [.rbrace] := by
  refine (sprintf_ofList _ _).trans ?_
  rfl

/-! ### Collections -/

/-- What a callback about a collection writes. -/
inductive GcEvent where
  | started (gcNumber : Nat) (threadId : ThreadID) (generationCollected : Generations) (now : Clock)
  | finished (gcNumber : Nat) (threadId : ThreadID) (now : Clock)
deriving DecidableEq

namespace GcEvent

def message : GcEvent → Message
  | started n t g now => gcStartedMessage n t g now
  | finished n t now => gcFinishedMessage n t now

/-- The collection, and whether it starts or finishes. -/
def stage : GcEvent → Bool × Nat
  | started n _ _ _ => (true, n)
  | finished n _ _ => (false, n)

def member : GcEvent → Str × Json Str
  | started n t g now => (lit "GCStarted" ++ [.arg (.d n)], .obj [field "TID" (lit "0" ++ [.arg (.p t)]),
      field "Gen0" (lit "0x" ++ [.arg (.s (yesNo g.gen0))]), field "Gen1" (lit "0x" ++ [.arg (.s (yesNo g.gen1))]),
      field "Gen2" (lit "0x" ++ [.arg (.s (yesNo g.gen2))]), field "eWALLt" [.arg (.f now.wall)],
      field "eCPUt" [.arg (.f now.cpu)]])
  | finished n t now => (lit "GCFinished" ++ [.arg (.d n)], .obj [field "TID" (lit "0" ++ [.arg (.p t)]),
      field "lWALLt" [.arg (.f now.wall)], field "lCPUt" [.arg (.f now.cpu)]])

theorem message_eq (g : GcEvent) : g.message = Json.member g.member ++ [.comma] := by
  cases g with
  | started n t g now =>
    refine (LOG_ofList _ _).trans ?_
    rfl
  | finished n t now =>
    refine (LOG_ofList _ _).trans ?_
    rfl

end GcEvent

end Perun
