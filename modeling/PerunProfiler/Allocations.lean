import PerunProfiler.Tracking

/-!
# Allocations and the objects section

In the default mode nothing is collected, and `m_objectsAlloc` holds the allocations of the run by
address. The objects section has a record of every allocation exactly when no address is reported
twice and everything is printed as it is: `%d` takes the size for an `int`, `%s` ends the type at a zero.
-/

namespace Perun
open Lib

structure Allocation where
  size : Int
  typeName : String
  threadId : ThreadID
  gcNumber : Nat
deriving DecidableEq, Repr

def ObjectClass.allocation (object : ObjectClass) : Allocation :=
  ⟨object.size, object.typeName, object.threadId, object.gcNumber⟩

/-- What a record says of its allocation once it is printed. -/
def ObjectRecord.allocation (r : ObjectRecord) : Allocation := ⟨int32 r.objSize, cStr r.objType, r.TID, r.GC⟩

def Allocation.printed (a : Allocation) : Allocation := { a with size := int32 a.size, typeName := cStr a.typeName }

theorem Allocation.printed_eq_self {a : Allocation} : a.printed = a ↔
    (-2 ^ 31 ≤ a.size ∧ a.size < 2 ^ 31) ∧ '\x00' ∉ a.typeName.toList := by
  rw [← int32_eq_self, ← cStr_eq_self]
  obtain ⟨size, typeName, threadId, gcNumber⟩ := a
  simp only [printed, Allocation.mk.injEq, and_true]

theorem Allocation.printed_printed (a : Allocation) : a.printed.printed = a.printed :=
  printed_eq_self.2 ⟨int32_bounds a.size, zero_notMem_cStr a.typeName⟩

/-- What is printed is there again exactly if every allocation is printed as it is. -/
theorem Allocation.map_printed_perm {L : List Allocation} : (L.map printed).Perm L ↔ ∀ a ∈ L, a.printed = a := by
  constructor
  · intro hperm a ha
    obtain ⟨b, -, rfl⟩ := List.mem_map.1 (hperm.mem_iff.2 ha)
    exact b.printed_printed
  · intro h
    rw [List.map_congr_left h, List.map_id']

/-- The allocation a callback reports in the state before it, under its address. -/
def Callback.allocation (s : CoreProfiler) : Callback → Option (Nat × Allocation)
  | .objectAllocated objectId classId (some pcSize) threadId _ =>
    some (objectId, ⟨pcSize, s.classes.getD classId "", threadId, s.gcNumber⟩)
  | _ => none

def allocations (s : CoreProfiler) (es : List Callback) : List (Nat × Allocation) :=
  outputs step (fun s e => e.allocation s) s es

/-- The allocations that are held, by address. -/
def CoreProfiler.held (s : CoreProfiler) : Map Allocation :=
  s.objectsAlloc.filterMap fun _ p => (s.objects.get? p).map ObjectClass.allocation

/-- In the default mode the profiler is a map of the allocations `L`. -/
structure Ledger (L : List (Nat × Allocation)) (s : CoreProfiler) : Prop where
  off : s.isDeallocEnable = false
  dead : s.objectsDeAlloc = []
  held : s.held = Std.ExtTreeMap.ofList L

section step
variable {s s' : CoreProfiler} {e : Callback} {L : List (Nat × Allocation)}

theorem step_tracking (hoff : s.isDeallocEnable = false) (hnone : e.allocation s = none)
    (h : step s e = .ok s') : s'.tracking = s.tracking := by
  by_cases hc : e.isCall = true
  · exact (congrArg CoreProfiler.tracking (step_besides hc h) :)
  cases e with
  | mapper2 f m => rcases mapper2_cases h with rfl | rfl <;> rfl
  | classLoadFinished c i p => rcases classLoadFinished_cases h with rfl | rfl <;> rfl
  | objectAllocated o c z t now =>
    rcases objectAllocated_cases h with ⟨-, rfl⟩ | ⟨z, rfl, -⟩
    · rfl
    · simp [Callback.allocation] at hnone
  | movedReferences r =>
    rcases movedReferences_cases h with ⟨-, rfl⟩ | ⟨hon, -⟩
    · rfl
    · rw [hoff] at hon; cases hon
  | survivingReferences r =>
    rcases survivingReferences_cases h with ⟨-, rfl⟩ | ⟨hon, -⟩
    · rfl
    · rw [hoff] at hon; cases hon
  | garbageCollectionStarted g t now => rw [garbageCollectionStarted_cases h]; rfl
  | garbageCollectionFinished t now =>
    rcases garbageCollectionFinished_cases h with ⟨-, rfl⟩ | ⟨hon, -⟩
    · rfl
    · rw [hoff] at hon; cases hon
  | _ => exact absurd rfl hc

theorem Ledger.congr (h : Ledger L s) (ht : s'.tracking = s.tracking)
    (hoff : s'.isDeallocEnable = s.isDeallocEnable) : Ledger L s' := by
  simp only [CoreProfiler.tracking, Prod.mk.injEq] at ht
  obtain ⟨h1, h2, h3⟩ := ht
  refine ⟨hoff.trans h.off, h3.trans h.dead, ?_⟩
  rw [← h.held]
  unfold CoreProfiler.held
  rw [h1, h2]

theorem Ledger.insert {o z : Nat} {c : ClassID} {t : ThreadID} {now : Clock} (h : Ledger L s) (ht : Tracked s)
    (hs : objectAllocated o c (some z) t now s = .ok s') :
    Ledger (L ++ [(o, ⟨z, s.classes.getD c "", t, s.gcNumber⟩)]) s' := by
  rcases objectAllocated_cases hs with ⟨hz, -⟩ | ⟨z', hz, rfl⟩
  · cases hz
  cases hz
  refine ⟨h.off, h.dead, ?_⟩
  rw [Std.ExtTreeMap.ofList_eq_insertMany_empty, Std.ExtTreeMap.insertMany_append,
    ← Std.ExtTreeMap.ofList_eq_insertMany_empty, ← h.held, Std.ExtTreeMap.insertMany_list_singleton]
  refine Std.ExtTreeMap.ext_getElem? fun k => ?_
  simp only [CoreProfiler.held, Std.ExtTreeMap.getElem?_filterMap', Std.ExtTreeMap.getElem?_insert]
  split
  · rw [Option.bind_some, Heap.get?_alloc_size]
    rfl
  · refine Option.bind_congr fun p hp => ?_
    obtain ⟨object, hobject⟩ := Option.isSome_iff_exists.1 (ht.live k p hp)
    rw [hobject, Heap.get?_alloc_of_some hobject]

theorem Ledger.step (h : Ledger L s) (ht : Tracked s) (hs : Perun.step s e = .ok s') :
    Ledger (L ++ (e.allocation s).toList) s' := by
  cases he : e.allocation s with
  | none =>
    rw [Option.toList_none, List.append_nil]
    exact h.congr (step_tracking h.off he hs) (step_isDeallocEnable hs)
  | some x =>
    unfold Callback.allocation at he
    split at he
    · cases he
      exact h.insert ht hs
    · cases he

end step

theorem run_ledger {c : Config} {es : List Callback} {s : CoreProfiler} (hd : c.enableDealloc ≠ "1")
    (h : run step c.start es = .ok s) : Ledger (allocations c.start es) s := by
  have hinv := run_inv_outputs (fun s e => e.allocation s)
    (P := fun L s => s.Alive ∧ Tracked s ∧ Ledger L s) ⟨(Reachable.start c).alive, (Reachable.start c).tracked, ?_⟩
    (fun L s e s' ⟨ha, ht, hl⟩ hs => ⟨ha.step hs, ht.step ha.info hs, hl.step ht hs⟩) h
  · exact hinv.2.2
  · refine ⟨by simpa [Config.start, initializeProfiler, construct] using hd, rfl, rfl⟩

theorem Ledger.objectsSection {L : List (Nat × Allocation)} {s : CoreProfiler} (h : Ledger L s) (ht : Tracked s) :
    ∃ records objects', Perun.objectsSection s = .ok (records, objects') ∧
      records.map ObjectRecord.allocation = (s.held.toList.map Prod.snd).map Allocation.printed := by
  obtain ⟨objects', hok, -⟩ := ht.objectsSection
  refine ⟨_, objects', hok, ?_⟩
  have hsurvive : ∀ object : ObjectClass, (object.survive s.gcNumber).record.allocation = object.allocation.printed := by
    intro object
    unfold ObjectClass.survive
    split <;> rfl
  rw [h.dead, CoreProfiler.held, Std.ExtTreeMap.toList_filterMap, List.filterMap_nil, List.nil_append,
    List.map_filterMap, List.map_filterMap, List.map_filterMap, List.filterMap_map]
  refine List.filterMap_congr fun e _ => ?_
  simp only [Function.comp_apply, Option.map_map]
  exact congrArg (Option.map · _) (funext hsurvive)

theorem allocations_size {s : CoreProfiler} {es : List Callback} :
    ∀ a ∈ (allocations s es).map Prod.snd, 0 ≤ a.size := by
  intro a ha
  obtain ⟨x, hx, rfl⟩ := List.mem_map.1 ha
  obtain ⟨s', e, -, he⟩ := mem_outputs hx
  unfold Callback.allocation at he
  split at he
  · rw [← Option.some.inj he]
    exact Int.natCast_nonneg _
  · cases he

/-- With `isDeallocEnable` false, the objects section has one record for every allocation of the run,
with its size, type, thread and collection number, exactly when the addresses are distinct, every size
is that of an `int`, and no type has a zero in its name. -/
theorem objectsSection_allocations_iff {c : Config} {es : List Callback} {s : CoreProfiler}
    (hd : c.enableDealloc ≠ "1") (h : run step c.start es = .ok s) :
    ∃ records objects', objectsSection s = .ok (records, objects') ∧
      ((records.map ObjectRecord.allocation).Perm ((allocations c.start es).map Prod.snd) ↔
        ((allocations c.start es).map Prod.fst).Nodup ∧ ∀ a ∈ (allocations c.start es).map Prod.snd,
          a.size < 2 ^ 31 ∧ '\x00' ∉ a.typeName.toList) := by
  have hl := run_ledger hd h
  obtain ⟨records, objects', hok, hrecords⟩ := hl.objectsSection (Reachable.tracked ⟨c, es, h⟩)
  refine ⟨records, objects', hok, ?_⟩
  have hprinted : (((allocations c.start es).map Prod.snd).map Allocation.printed).Perm
      ((allocations c.start es).map Prod.snd) ↔ ∀ a ∈ (allocations c.start es).map Prod.snd,
        a.size < 2 ^ 31 ∧ '\x00' ∉ a.typeName.toList := by
    rw [Allocation.map_printed_perm]
    refine forall₂_congr fun a ha => ?_
    have hpos := allocations_size a ha
    rw [Allocation.printed_eq_self]
    exact and_congr_left fun _ => ⟨fun h => h.2, fun h => ⟨by omega, h⟩⟩
  rw [hrecords, hl.held, ← hprinted]
  constructor
  · intro hperm
    have hlen := hperm.length_eq
    rw [List.length_map, List.length_map, List.length_map] at hlen
    have hnd := Map.length_ofList.1 hlen
    exact ⟨hnd, (((Map.toList_ofList_perm hnd).map Prod.snd).map _).symm.trans hperm⟩
  · rintro ⟨hnd, hperm⟩
    exact (((Map.toList_ofList_perm hnd).map Prod.snd).map _).trans hperm

/-- Two allocations around a collection. -/
def allocateTwice (objectId : Nat) : List Callback :=
  [.objectAllocated 100 5 (some 24) 1 ⟨1, 1⟩, .garbageCollectionStarted ⟨true, false, false⟩ 2 ⟨2, 2⟩,
    .garbageCollectionFinished 2 ⟨3, 3⟩, .objectAllocated objectId 5 (some 32) 1 ⟨4, 4⟩]

theorem objectsSection_allocations_iff_twice :
    ∃ s, run step Config.plain.start (allocateTwice 200) = .ok s ∧
      ∃ records objects', objectsSection s = .ok (records, objects') ∧
        ((records.map ObjectRecord.allocation).Perm
            ((allocations Config.plain.start (allocateTwice 200)).map Prod.snd) ↔
          ((allocations Config.plain.start (allocateTwice 200)).map Prod.fst).Nodup ∧
            ∀ a ∈ (allocations Config.plain.start (allocateTwice 200)).map Prod.snd,
              a.size < 2 ^ 31 ∧ '\x00' ∉ a.typeName.toList) :=
  ⟨_, rfl, objectsSection_allocations_iff (by decide)
    (show run step Config.plain.start (allocateTwice 200) = .ok _ from rfl)⟩

/-- The runtime hands out the same address after the collection. -/
theorem allocation_overwritten :
    ∃ s records objects', run step Config.plain.start (allocateTwice 100) = .ok s ∧ s.isDeallocEnable = false ∧
      objectsSection s = .ok (records, objects') ∧
      ¬ (records.map ObjectRecord.allocation).Perm
        ((allocations Config.plain.start (allocateTwice 100)).map Prod.snd) :=
  ⟨_, _, _, rfl, rfl, rfl, by decide⟩

end Perun
