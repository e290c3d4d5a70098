import Mathlib.Algebra.Group.Nat.Defs
import PerunProfiler.Calls
import PerunProfiler.Lib.Run

/-!
# Allocations and garbage collections

`ObjectAllocated`, `MovedReferences`, `SurvivingReferences` and the two callbacks around a
collection. Addresses are numbers; sums of addresses are taken modulo 2^64.
-/

namespace Perun
open Lib

/-- Arithmetic on `ObjectID`. -/
def wrap (n : Nat) : Nat := n % 2 ^ 64

/-- The record `ObjectAllocated` makes. -/
def newObject (objectId : Nat) (classId : ClassID) (pcSize : Nat) (threadId : ThreadID) (now : Clock)
    (s : CoreProfiler) : ObjectClass :=
  let (first, active) := s.threadEntry threadId
  { cpuTimeAllocation := now.cpu, wallTimeAllocation := now.wall, objectId := objectId
    size := pcSize, threadId := threadId, typeName := s.classes.getD classId ""
    gcNumber := s.gcNumber, untilGcNumber := s.gcNumber
    functionNumOrder := if active.isSome then first else -1 }

/-- `ObjectAllocated`; `objectSize` is what `GetObjectSize` answers. -/
def objectAllocated (objectId : Nat) (classId : ClassID) (objectSize : Option Nat) (threadId : ThreadID)
    (now : Clock) (s : CoreProfiler) : Except Fault CoreProfiler :=
  if s.info then
    let classes := s.classes.insertIfNew classId ""
    match objectSize with
    | none => .ok { s with classes := classes }
    | some pcSize =>
      .ok { s with
        classes := classes
        -- the lookup of the thread leaves an entry behind
        activeFunctionInThread := s.activeFunctionInThread.insertIfNew threadId (0, none)
        objects := s.objects.alloc (newObject objectId classId pcSize threadId now s)
        objectsAlloc := s.objectsAlloc.insert objectId s.objects.size }
  else .error .releasedInfo

/-- One entry of the three arrays `MovedReferences` gets. -/
structure MovedRange where
  old : Nat
  new : Nat
  len : Nat
deriving DecidableEq, Repr

/-- One entry of the two arrays `SurvivingReferences` gets. -/
structure SurvivingRange where
  start : Nat
  len : Nat
deriving DecidableEq, Repr

def markUntil (gcNumber : Nat) (objects : Heap ObjectClass) (value : Ptr) : Except Fault (Heap ObjectClass) :=
  match deref objects value with
  | .error f => .error f
  | .ok object => .ok (objects.set value { object with untilGcNumber := gcNumber })

/-- Marks a moved object and notes its new address in `tmp_map`. -/
def moveEntry (gcNumber : Nat) (r : MovedRange) (x : Map Nat × Heap ObjectClass) (entry : Nat × Ptr) :
    Except Fault (Map Nat × Heap ObjectClass) :=
  match markUntil gcNumber x.2 entry.2 with
  | .error f => .error f
  | .ok objects => .ok (x.1.insert entry.1 (wrap (r.new + (entry.1 - r.old))), objects)

/-- The loops of `MovedReferences` over the ranges and the tracked objects: `tmp_map` and the
marked objects. -/
def markMoved (gcNumber : Nat) (objectsAlloc : Map Ptr) (ranges : List MovedRange)
    (objects : Heap ObjectClass) : Except Fault (Map Nat × Heap ObjectClass) :=
  run (fun x r => scan r.old (wrap (r.new + r.len)) (moveEntry gcNumber r) objectsAlloc.toList x)
    (∅, objects) ranges

/-- One round of the loop that gives the moved objects their new keys. -/
def rekeyEntry (objectsAlloc : Map Ptr) (entry : Nat × Nat) : Except Fault (Map Ptr) :=
  match objectsAlloc[entry.1]? with
  | none => .error .emptyNode
  -- `extract`, then `insert`, which does nothing when the new key is taken, then `erase`
  | some p => .ok (((objectsAlloc.erase entry.1).insertIfNew entry.2 p).erase entry.1)

def rekey (tmpMap : Map Nat) (objectsAlloc : Map Ptr) : Except Fault (Map Ptr) :=
  run rekeyEntry objectsAlloc tmpMap.toList

def movedReferences (ranges : List MovedRange) (s : CoreProfiler) : Except Fault CoreProfiler :=
  if s.isDeallocEnable then
    match markMoved s.gcNumber s.objectsAlloc ranges s.objects with
    | .error f => .error f
    | .ok (tmpMap, objects) =>
      match rekey tmpMap s.objectsAlloc with
      | .error f => .error f
      | .ok objectsAlloc => .ok { s with objects := objects, objectsAlloc := objectsAlloc }
  else .ok s

def markSurviving (gcNumber : Nat) (objectsAlloc : Map Ptr) (ranges : List SurvivingRange)
    (objects : Heap ObjectClass) : Except Fault (Heap ObjectClass) :=
  run (fun objects (r : SurvivingRange) =>
    scan r.start (wrap (r.start + r.len)) (fun objects entry => markUntil gcNumber objects entry.2)
      objectsAlloc.toList objects) objects ranges

def survivingReferences (ranges : List SurvivingRange) (s : CoreProfiler) : Except Fault CoreProfiler :=
  if s.isDeallocEnable then
    match markSurviving s.gcNumber s.objectsAlloc ranges s.objects with
    | .error f => .error f
    | .ok objects => .ok { s with objects := objects }
  else .ok s

/-- The flags of `GarbageCollectionStarted` for the generations 0, 1 and 2. -/
structure Generations where
  gen0 : Bool
  gen1 : Bool
  gen2 : Bool
deriving DecidableEq, Repr

def yesNo (collected : Bool) : String := if collected then "Yes" else "No"

def gcStartedMessage (gcNumber : Nat) (threadId : ThreadID) (generationCollected : Generations)
    (now : Clock) : Message :=
  LOG "\"GCStarted%d\":\x7b\"TID\":\"0%p\",\"Gen0\":\"0x%s\",\"Gen1\":\"0x%s\",\"Gen2\":\"0x%s\",\"eWALLt\":\"%f\",\"eCPUt\":\"%f\"\x7d"
    [.d gcNumber, .p threadId, .s (yesNo generationCollected.gen0), .s (yesNo generationCollected.gen1),
      .s (yesNo generationCollected.gen2), .f now.wall, .f now.cpu]

def gcFinishedMessage (gcNumber : Nat) (threadId : ThreadID) (now : Clock) : Message :=
  LOG "\"GCFinished%d\":\x7b\"TID\":\"0%p\",\"lWALLt\":\"%f\",\"lCPUt\":\"%f\"\x7d"
    [.d gcNumber, .p threadId, .f now.wall, .f now.cpu]

def garbageCollectionStarted (generationCollected : Generations) (threadId : ThreadID) (now : Clock)
    (s : CoreProfiler) : Except Fault CoreProfiler :=
  if s.info then
    .ok { s with
      gcNumber := s.gcNumber + 1
      log := s.log ++ [gcStartedMessage (s.gcNumber + 1) threadId generationCollected now] }
  else .error .releasedInfo

/-- Appends a record whose mark is old to `m_objectsDeAlloc` and its address to `objectsToDelete`. -/
def collectEntry (gcNumber : Nat) (objects : Heap ObjectClass) (x : List Ptr × List Nat) (entry : Nat × Ptr) :
    Except Fault (List Ptr × List Nat) :=
  match deref objects entry.2 with
  | .error f => .error f
  | .ok object => .ok (if object.untilGcNumber ≠ gcNumber then (x.1 ++ [entry.2], x.2 ++ [entry.1]) else x)

def garbageCollectionFinished (threadId : ThreadID) (now : Clock) (s : CoreProfiler) :
    Except Fault CoreProfiler :=
  if s.info then
    let s := { s with log := s.log ++ [gcFinishedMessage s.gcNumber threadId now] }
    if s.isDeallocEnable then
      match run (collectEntry s.gcNumber s.objects) (s.objectsDeAlloc, []) s.objectsAlloc.toList with
      | .error f => .error f
      | .ok (objectsDeAlloc, objectsToDelete) =>
        .ok { s with
          objectsDeAlloc := objectsDeAlloc
          objectsAlloc := objectsToDelete.foldl (fun m objectToDelete => m.erase objectToDelete) s.objectsAlloc }
    else .ok s
  else .error .releasedInfo

/-! ### What the callbacks can do -/

section cases
variable {objectId : Nat} {classId : ClassID} {objectSize : Option Nat} {threadId : ThreadID} {now : Clock}
  {generationCollected : Generations} {s s' : CoreProfiler}

theorem objectAllocated_cases (h : objectAllocated objectId classId objectSize threadId now s = .ok s') :
    (objectSize = none ∧ s' = { s with classes := s.classes.insertIfNew classId "" }) ∨
    ∃ pcSize, objectSize = some pcSize ∧ s' = { s with
      classes := s.classes.insertIfNew classId ""
      activeFunctionInThread := s.activeFunctionInThread.insertIfNew threadId (0, none)
      objects := s.objects.alloc (newObject objectId classId pcSize threadId now s)
      objectsAlloc := s.objectsAlloc.insert objectId s.objects.size } := by
  unfold objectAllocated at h
  split at h
  · cases objectSize with
    | none => exact .inl ⟨rfl, (Except.ok.inj h).symm⟩
    | some pcSize => exact .inr ⟨pcSize, rfl, (Except.ok.inj h).symm⟩
  · cases h

theorem movedReferences_cases {ranges : List MovedRange} (h : movedReferences ranges s = .ok s') :
    (s.isDeallocEnable = false ∧ s' = s) ∨
    (s.isDeallocEnable = true ∧ ∃ tmpMap objects objectsAlloc,
      markMoved s.gcNumber s.objectsAlloc ranges s.objects = .ok (tmpMap, objects) ∧
      rekey tmpMap s.objectsAlloc = .ok objectsAlloc ∧
      s' = { s with objects := objects, objectsAlloc := objectsAlloc }) := by
  unfold movedReferences at h
  split at h
  · next hd =>
    refine .inr ⟨hd, ?_⟩
    cases hm : markMoved s.gcNumber s.objectsAlloc ranges s.objects with
    | error f => simp [hm] at h
    | ok x =>
      obtain ⟨tmpMap, objects⟩ := x
      cases hk : rekey tmpMap s.objectsAlloc with
      | error f => simp [hm, hk] at h
      | ok objectsAlloc => exact ⟨tmpMap, objects, objectsAlloc, rfl, hk, by simpa [hm, hk] using h.symm⟩
  · next hd => exact .inl ⟨by simpa using hd, (Except.ok.inj h).symm⟩

theorem survivingReferences_cases {ranges : List SurvivingRange} (h : survivingReferences ranges s = .ok s') :
    (s.isDeallocEnable = false ∧ s' = s) ∨
    (s.isDeallocEnable = true ∧ ∃ objects,
      markSurviving s.gcNumber s.objectsAlloc ranges s.objects = .ok objects ∧
      s' = { s with objects := objects }) := by
  unfold survivingReferences at h
  split at h
  · next hd =>
    refine .inr ⟨hd, ?_⟩
    cases hm : markSurviving s.gcNumber s.objectsAlloc ranges s.objects with
    | error f => simp [hm] at h
    | ok objects => exact ⟨objects, rfl, by simpa [hm] using h.symm⟩
  · next hd => exact .inl ⟨by simpa using hd, (Except.ok.inj h).symm⟩

theorem garbageCollectionStarted_cases (h : garbageCollectionStarted generationCollected threadId now s = .ok s') :
    s' = { s with
      gcNumber := s.gcNumber + 1
      log := s.log ++ [gcStartedMessage (s.gcNumber + 1) threadId generationCollected now] } := by
  unfold garbageCollectionStarted at h
  split at h
  · exact (Except.ok.inj h).symm
  · cases h

theorem garbageCollectionFinished_cases (h : garbageCollectionFinished threadId now s = .ok s') :
    (s.isDeallocEnable = false ∧ s' = { s with log := s.log ++ [gcFinishedMessage s.gcNumber threadId now] }) ∨
    (s.isDeallocEnable = true ∧ ∃ objectsDeAlloc objectsToDelete,
      run (collectEntry s.gcNumber s.objects) (s.objectsDeAlloc, []) s.objectsAlloc.toList =
        .ok (objectsDeAlloc, objectsToDelete) ∧
      s' = { s with
        log := s.log ++ [gcFinishedMessage s.gcNumber threadId now]
        objectsDeAlloc := objectsDeAlloc
        objectsAlloc := objectsToDelete.foldl (fun m objectToDelete => m.erase objectToDelete) s.objectsAlloc }) := by
  unfold garbageCollectionFinished at h
  split at h
  · simp only at h
    split at h
    · next hd =>
      refine .inr ⟨hd, ?_⟩
      cases hc : run (collectEntry s.gcNumber s.objects) (s.objectsDeAlloc, []) s.objectsAlloc.toList with
      | error f => simp [hc] at h
      | ok x =>
        obtain ⟨objectsDeAlloc, objectsToDelete⟩ := x
        exact ⟨objectsDeAlloc, objectsToDelete, rfl, by simpa [hc] using h.symm⟩
    · next hd => exact .inl ⟨by simpa using hd, (Except.ok.inj h).symm⟩
  · cases h

end cases

end Perun
