import Mathlib.Data.Rat.Defs
import PerunProfiler.Lib.Heap

/-!
# The records of the profiler

`FunctionClass.h`, `FunctionInfo.h` and `ObjectClass.h`. A pointer to a record is an address of the
heap the record lives in; `none` is the null pointer. Identifiers of the runtime (`UINT_PTR`) are
numbers, clock readings are rationals.
-/

namespace Perun

abbrev FunctionID := Nat
abbrev ThreadID := Nat
abbrev ClassID := Nat
abbrev Ptr := Nat
abbrev Time := Rat

/-- One reading of `OS::GetWallTime` and one of `OS::GetCpuTime`. -/
structure Clock where
  wall : Time
  cpu : Time
deriving DecidableEq, Repr

structure FunctionInfo where
  name : String
  funcId : FunctionID
deriving DecidableEq, Repr

/-- A record of one call. `new FunctionClass()` clears the members it does not set. -/
structure FunctionClass where
  prevFunction : Option Ptr := none
  funcId : FunctionID
  funcInfo : FunctionInfo
  TID : ThreadID
  cpuTimeEnter : Time
  wallTimeEnter : Time
  cpuTimeLeave : Time := 0
  wallTimeLeave : Time := 0
  callOrderNumber : Nat := 0
  depth : Nat := 0
  calledFunctions : List Ptr := []
deriving DecidableEq, Repr

/-- A record of one allocation. -/
structure ObjectClass where
  objectId : Nat
  threadId : ThreadID
  size : Nat
  typeName : String
  gcNumber : Nat
  untilGcNumber : Nat
  cpuTimeAllocation : Time
  wallTimeAllocation : Time
  functionNumOrder : Int := -1
deriving DecidableEq, Repr

/-- What stops a callback. -/
inductive Fault where
  /-- the active function of the thread is null and is dereferenced -/
  | nullActiveFunction
  /-- a pointer to a deleted record is dereferenced -/
  | danglingPointer
  /-- `_info` is dereferenced after its release -/
  | releasedInfo
  /-- the key of an empty node handle is assigned -/
  | emptyNode
  /-- a loop or a recursion does not end -/
  | diverges
deriving DecidableEq, Repr

/-- `p->…` on a non-null pointer. -/
def deref {α : Type} (h : Lib.Heap α) (p : Ptr) : Except Fault α :=
  match h.get? p with
  | some a => .ok a
  | none => .error .danglingPointer

theorem deref_ok {α : Type} {h : Lib.Heap α} {p : Ptr} {a : α} : deref h p = .ok a ↔ h.get? p = some a := by
  unfold deref
  cases h.get? p <;> simp

end Perun
