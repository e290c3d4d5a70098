import PerunProfiler.Lib.Lists
import PerunProfiler.Lib.Text
import PerunProfiler.Lifetime

/-!
# The types of objects

`ObjectAllocated` copies the name of the class as it is known then, and nothing changes the copy. So an
object has the name that its class was loaded with last before the allocation, or none, whatever is
loaded later.
-/

namespace Perun
open Lib

/-- The class of the object whose record the callback makes. -/
def Callback.allocates : Callback → Option ClassID
  | .objectAllocated _ classId (some _) _ _ => some classId
  | _ => none

/-- The name that the callback obtains for a class. -/
def Callback.loads : Callback → Option (ClassID × String)
  | .classLoadFinished classId classIDInfo typeDefProps =>
    if classIDInfo && getTypeName typeDefProps ≠ "" then some (classId, getTypeName typeDefProps) else none
  | _ => none

/-- The classes of the records, in the order of allocation. -/
def allocated (es : List Callback) : List ClassID := es.filterMap Callback.allocates

/-- The names of the classes, in the order of their loading. -/
def loaded (es : List Callback) : List (ClassID × String) := es.filterMap Callback.loads

/-- The name the class was last loaded with. -/
def lastName (es : List Callback) (c : ClassID) : Option String :=
  ((loaded es).filter (·.1 = c)).getLast?.map Prod.snd

theorem lastName_none {es : List Callback} {e : Callback} (he : e.loads = none) (c : ClassID) :
    lastName (es ++ [e]) c = lastName es c := by
  rw [lastName, loaded, List.filterMap_append, List.filterMap_cons_none he, List.filterMap_nil, List.append_nil]
  rfl

theorem lastName_some {es : List Callback} {e : Callback} {c' : ClassID} {name : String}
    (he : e.loads = some (c', name)) (c : ClassID) :
    lastName (es ++ [e]) c = if c' = c then some name else lastName es c := by
  rw [lastName, loaded, List.filterMap_append, List.filterMap_cons_some he, List.filterMap_nil]
  exact lastAt_snoc (loaded es) c' c name

theorem lastName_mem {es : List Callback} {c : ClassID} {name : String} (h : lastName es c = some name) :
    (c, name) ∈ loaded es := by
  obtain ⟨⟨c', name⟩, hlast, rfl⟩ := Option.map_eq_some_iff.1 h
  obtain ⟨hmem, hc⟩ := List.mem_filter.1 (List.mem_of_getLast? hlast)
  obtain rfl : c' = c := of_decide_eq_true hc
  exact hmem

theorem getElem?_allocated {es₁ es₂ : List Callback} {e : Callback} {c : ClassID} (he : e.allocates = some c) :
    (allocated (es₁ ++ e :: es₂))[(allocated es₁).length]? = some c := by
  rw [allocated, List.filterMap_append, List.filterMap_cons_some he, allocated,
    List.getElem?_append_right (Nat.le_refl _), Nat.sub_self]
  rfl

/-! ### What the other callbacks leave alone -/

/-- The heap holds the same types. -/
def SameTypes (objects objects' : Heap ObjectClass) : Prop :=
  objects'.size = objects.size ∧ ∀ p, (objects'.get? p).map (·.typeName) = (objects.get? p).map (·.typeName)

theorem markUntil_sameTypes {objects₀ objects objects' : Heap ObjectClass} {gcNumber : Nat} {p : Ptr}
    (h : SameTypes objects₀ objects) (hs : markUntil gcNumber objects p = .ok objects') :
    SameTypes objects₀ objects' := by
  cases hp : objects.get? p with
  | none => simp [markUntil, deref, hp] at hs
  | some object =>
    obtain rfl := Except.ok.inj ((markUntil_live hp).symm.trans hs)
    refine ⟨Heap.size_set.trans h.1, fun q => ?_⟩
    rw [Heap.get?_set hp, ← h.2 q]
    split
    · next hq =>
      rw [hq, hp]
      rfl
    · rfl

theorem markSurviving_sameTypes {gcNumber : Nat} {objectsAlloc : Map Ptr} {ranges : List SurvivingRange}
    {objects objects' : Heap ObjectClass} (hs : markSurviving gcNumber objectsAlloc ranges objects = .ok objects') :
    SameTypes objects objects' := by
  rw [markSurviving, run_scan (fun _ objects entry => markUntil gcNumber objects entry.2)] at hs
  exact run_inv (P := SameTypes objects) ⟨rfl, fun _ => rfl⟩ (fun _ _ _ h hs => markUntil_sameTypes h hs) hs

theorem markMoved_sameTypes {gcNumber : Nat} {objectsAlloc : Map Ptr} {ranges : List MovedRange} {tmpMap : Map Nat}
    {objects objects' : Heap ObjectClass}
    (hs : markMoved gcNumber objectsAlloc ranges objects = .ok (tmpMap, objects')) : SameTypes objects objects' := by
  rw [markMoved, run_scan (moveEntry gcNumber)] at hs
  refine run_inv (P := fun x => SameTypes objects x.2) ⟨rfl, fun _ => rfl⟩ (fun x e x' h hs => ?_) hs
  rw [moveEntry] at hs
  split at hs
  · cases hs
  · next hmark =>
    obtain rfl := Except.ok.inj hs
    exact markUntil_sameTypes h hmark

section step
variable {s s' : CoreProfiler} {e : Callback}

theorem step_sameTypes (ha : e.allocates = none) (h : step s e = .ok s') : SameTypes s.objects s'.objects := by
  by_cases hc : e.isCall = true
  · have hsame : s'.objects = s.objects := (congrArg CoreProfiler.objects (step_besides hc h) :)
    rw [hsame]
    exact ⟨rfl, fun _ => rfl⟩
  cases e with
  | mapper2 f m => rcases mapper2_cases h with rfl | rfl <;> exact ⟨rfl, fun _ => rfl⟩
  | classLoadFinished c i p => rcases classLoadFinished_cases h with rfl | rfl <;> exact ⟨rfl, fun _ => rfl⟩
  | objectAllocated o c z t now =>
    rcases objectAllocated_cases h with ⟨-, rfl⟩ | ⟨z, rfl, -⟩
    · exact ⟨rfl, fun _ => rfl⟩
    · cases ha
  | movedReferences r =>
    rcases movedReferences_cases h with ⟨-, rfl⟩ | ⟨-, _, _, _, hmark, -, rfl⟩
    · exact ⟨rfl, fun _ => rfl⟩
    · exact markMoved_sameTypes hmark
  | survivingReferences r =>
    rcases survivingReferences_cases h with ⟨-, rfl⟩ | ⟨-, _, hmark, rfl⟩
    · exact ⟨rfl, fun _ => rfl⟩
    · exact markSurviving_sameTypes hmark
  | garbageCollectionStarted g t now =>
    rw [garbageCollectionStarted_cases h]
    exact ⟨rfl, fun _ => rfl⟩
  | garbageCollectionFinished t now =>
    rcases garbageCollectionFinished_cases h with ⟨-, rfl⟩ | ⟨-, _, _, -, rfl⟩ <;> exact ⟨rfl, fun _ => rfl⟩
  | _ => exact absurd rfl hc

theorem step_loads {c : ClassID} {name : String} (hl : e.loads = some (c, name)) (h : step s e = .ok s') :
    s'.classes = s.classes.insert c name := by
  unfold Callback.loads at hl
  split at hl
  · next classId classIDInfo typeDefProps =>
    split at hl
    · next hname =>
      obtain ⟨rfl, rfl⟩ := Prod.mk.inj (Option.some.inj hl)
      have h : classLoadFinished classId classIDInfo typeDefProps s = .ok s' := h
      unfold classLoadFinished at h
      rw [if_pos hname] at h
      split at h
      · rw [← Except.ok.inj h]
      · cases h
    · cases hl
  · cases hl

/-- The other callbacks may only add an empty name. -/
theorem step_classes (hl : e.loads = none) (h : step s e = .ok s') (c : ClassID) :
    s'.classes.getD c "" = s.classes.getD c "" := by
  by_cases hc : e.isCall = true
  · have hsame : s'.classes = s.classes := (congrArg CoreProfiler.classes (step_besides hc h) :)
    rw [hsame]
  cases e with
  | mapper2 f m => rcases mapper2_cases h with rfl | rfl <;> rfl
  | classLoadFinished c' i p =>
    have h : classLoadFinished c' i p s = .ok s' := h
    unfold classLoadFinished at h
    split at h
    · split at h
      · next hname =>
        rw [Callback.loads, if_pos hname] at hl
        cases hl
      · rw [← Except.ok.inj h]
    · cases h
  | objectAllocated o c' z t now =>
    have hclasses : s'.classes = s.classes.insertIfNew c' "" := by
      rcases objectAllocated_cases h with ⟨-, rfl⟩ | ⟨z, -, rfl⟩ <;> rfl
    rw [hclasses, Std.ExtTreeMap.getD_insertIfNew]
    split
    · next hnew =>
      obtain ⟨heq, hno⟩ := hnew
      obtain rfl : c' = c := by simpa using heq
      rw [Std.ExtTreeMap.getD_eq_fallback hno]
    · rfl
  | movedReferences | survivingReferences | garbageCollectionStarted | garbageCollectionFinished =>
    exact (congrArg (·.classes.getD c "") (step_besidesObjects rfl h) :)
  | _ => exact absurd rfl hc

end step

/-! ### The invariant -/

/-- What the names and the types of the records are after the callbacks. -/
structure Typed (es : List Callback) (s : CoreProfiler) : Prop where
  names : ∀ c, s.classes.getD c "" = (lastName es c).getD ""
  size : s.objects.size = (allocated es).length
  types : ∀ es₁ e es₂ c, es = es₁ ++ e :: es₂ → e.allocates = some c → ∀ object,
    s.objects.get? (allocated es₁).length = some object → object.typeName = (lastName es₁ c).getD ""

section typed
variable {es : List Callback} {s s' : CoreProfiler} {e : Callback}

theorem Typed.step_names (h : Typed es s) (hs : step s e = .ok s') (c : ClassID) :
    s'.classes.getD c "" = (lastName (es ++ [e]) c).getD "" := by
  cases he : e.loads with
  | none => rw [step_classes he hs, lastName_none he, h.names]
  | some x =>
    obtain ⟨c', name⟩ := x
    rw [step_loads he hs, lastName_some he, Std.ExtTreeMap.getD_insert]
    by_cases hc : c' = c
    · rw [if_pos (by simpa using hc), if_pos hc]
      rfl
    · rw [if_neg (by simpa using hc), if_neg hc, h.names]

theorem Typed.step (h : Typed es s) (hs : step s e = .ok s') : Typed (es ++ [e]) s' := by
  cases ha : e.allocates with
  | none =>
    obtain ⟨hsize, htypes⟩ := step_sameTypes ha hs
    have hlast : allocated (es ++ [e]) = allocated es := by
      rw [allocated, List.filterMap_append, List.filterMap_cons_none ha, List.filterMap_nil, List.append_nil]
      rfl
    refine ⟨h.step_names hs, by rw [hsize, h.size, hlast], fun es₁ e' es₂ c hes he' object hobject => ?_⟩
    rcases snoc_eq_append_cons hes with ⟨-, rfl⟩ | ⟨es₃, hold⟩
    · rw [ha] at he'
      cases he'
    · have hname := htypes (allocated es₁).length
      rw [hobject] at hname
      obtain ⟨old, hget, heq⟩ := Option.map_eq_some_iff.1 hname.symm
      exact (show object.typeName = old.typeName from heq.symm).trans (h.types es₁ e' es₃ c hold he' old hget)
  | some c =>
    obtain ⟨o, z, t, now, rfl⟩ : ∃ o z t now, e = .objectAllocated o c (some z) t now := by
      unfold Callback.allocates at ha
      split at ha
      · cases ha
        exact ⟨_, _, _, _, rfl⟩
      · cases ha
    have hs' : objectAllocated o c (some z) t now s = .ok s' := hs
    rcases objectAllocated_cases hs' with ⟨hz, -⟩ | ⟨z', -, rfl⟩
    · cases hz
    refine ⟨h.step_names hs, ?_, fun es₁ e' es₂ c' hes he' object hobject => ?_⟩
    · rw [allocated, List.filterMap_append, List.length_append, Heap.size_alloc, h.size]
      rfl
    rw [Heap.get?_alloc] at hobject
    rcases snoc_eq_append_cons hes with ⟨rfl, rfl⟩ | ⟨es₃, hold⟩
    · -- the new record
      rw [if_pos h.size.symm] at hobject
      obtain rfl := Option.some.inj hobject
      obtain rfl := Option.some.inj (ha.symm.trans he')
      exact h.names c
    · have hlt : (allocated es₁).length < s.objects.size := by
        rw [h.size, hold, allocated, allocated, List.filterMap_append, List.filterMap_cons_some he',
          List.length_append, List.length_cons]
        omega
      rw [if_neg (Nat.ne_of_lt hlt)] at hobject
      exact h.types es₁ e' es₃ c' hold he' object hobject

theorem run_typed {c : Config} (h : run Perun.step c.start es = .ok s) : Typed es s := by
  refine run_inv_events (P := Typed) ⟨fun _ => ?_, rfl, fun es₁ e es₂ c hes => ?_⟩ (fun es s e s' h hs => h.step hs) h
  · simp [Config.start, initializeProfiler, construct, lastName, loaded]
  · simp at hes

end typed

/-! ### What is written -/

/-- The record is the one of the object at `p`. -/
def WrittenOf (s : CoreProfiler) (p : Ptr) (r : ObjectRecord) : Prop :=
  ∃ object, s.objects.get? p = some object ∧ (r = object.record ∨ r = (object.survive s.gcNumber).record)

theorem WrittenOf.objType {s : CoreProfiler} {p : Ptr} {r : ObjectRecord} (h : WrittenOf s p r) :
    ∃ object, s.objects.get? p = some object ∧ r.objType = object.typeName := by
  obtain ⟨object, hobject, rfl | rfl⟩ := h
  · exact ⟨object, hobject, rfl⟩
  · refine ⟨object, hobject, ?_⟩
    unfold ObjectClass.survive
    split <;> rfl

theorem Tracked.written {s : CoreProfiler} (h : Tracked s) :
    ∃ records objects', Perun.objectsSection s = .ok (records, objects') ∧
      List.Forall₂ (WrittenOf s) s.heldRecords records := by
  obtain ⟨objects', hok, -⟩ := h.objectsSection
  refine ⟨_, objects', hok, List.rel_append (forall₂_filterMap fun p hp => ?_) (forall₂_filterMap fun p hp => ?_)⟩
  · obtain ⟨object, hobject⟩ := Option.isSome_iff_exists.1 (h.deadLive p hp)
    exact ⟨object.record, by rw [hobject]; rfl, object, hobject, .inl rfl⟩
  · obtain ⟨object, hobject⟩ := Option.isSome_iff_exists.1 (h.heldRecords_live p (List.mem_append_right _ hp))
    exact ⟨(object.survive s.gcNumber).record, by rw [hobject]; rfl, object, hobject, .inr rfl⟩

/-- Every record of a class is printed with the name that the class is loaded with, whenever that is. -/
def TypesNamed (es : List Callback) (s : CoreProfiler) (records : List ObjectRecord) : Prop :=
  List.Forall₂ (fun p r => ∀ c, (allocated es)[p]? = some c → ∀ name, (c, name) ∈ loaded es → cStr r.objType = name)
    s.heldRecords records

theorem ne_empty_of_loaded {es : List Callback} {c : ClassID} {name : String} (h : (c, name) ∈ loaded es) :
    name ≠ "" := by
  obtain ⟨e, -, he⟩ := List.mem_filterMap.1 h
  unfold Callback.loads at he
  split at he
  · split at he
    · next hname =>
      obtain ⟨-, rfl⟩ := Prod.mk.inj (Option.some.inj he)
      simp only [Bool.and_eq_true, decide_eq_true_eq] at hname
      exact hname.2
    · cases he
  · cases he

/-- After every run, the records carry the names of their classes exactly when every recorded object
was allocated after its class had been loaded with the name, and no such name has a zero in it. -/
theorem types_named_iff {c : Config} {es : List Callback} {s : CoreProfiler} (h : run step c.start es = .ok s) :
    ∃ records objects', objectsSection s = .ok (records, objects') ∧
      List.Forall₂ (WrittenOf s) s.heldRecords records ∧
      (TypesNamed es s records ↔ ∀ es₁ e es₂ classId, es = es₁ ++ e :: es₂ → e.allocates = some classId →
        (allocated es₁).length ∈ s.heldRecords → ∀ name, (classId, name) ∈ loaded es →
          lastName es₁ classId = some name ∧ '\x00' ∉ name.toList) := by
  have htyped := run_typed h
  obtain ⟨records, objects', hok, hwritten⟩ := (Reachable.tracked ⟨c, es, h⟩).written
  refine ⟨records, objects', hok, hwritten, ?_⟩
  constructor
  · rintro hnamed es₁ e es₂ classId rfl he hheld name hname
    obtain ⟨r, -, hr, hw⟩ := forall₂_mem_left hnamed hwritten hheld
    obtain ⟨object, hobject, htype⟩ := hw.objType
    have hprinted := hr classId (getElem?_allocated he) name hname
    refine ⟨?_, hprinted ▸ zero_notMem_cStr r.objType⟩
    have hcopied := htype.trans (htyped.types es₁ e es₂ classId rfl he object hobject)
    cases hlast : lastName es₁ classId with
    | none =>
      rw [hcopied, hlast] at hprinted
      exact absurd hprinted.symm (ne_empty_of_loaded hname)
    | some n =>
      -- the name that is copied is loaded, so it is printed as it is
      have hloaded : (classId, n) ∈ loaded (es₁ ++ e :: es₂) := by
        rw [loaded, List.filterMap_append]
        exact List.mem_append_left _ (lastName_mem hlast)
      rw [← hr classId (getElem?_allocated he) n hloaded, hprinted]
  · intro hbefore
    have hheld := (List.forall₂_and_left (p := (· ∈ s.heldRecords)) s.heldRecords records).2
      ⟨fun p hp => hp, hwritten⟩
    refine hheld.imp fun p r ⟨hp, hw⟩ classId hc name hname => ?_
    obtain ⟨object, hobject, htype⟩ := hw.objType
    obtain ⟨es₁, e, es₂, hes, he, rfl⟩ := filterMap_split hc
    obtain ⟨hlast, hzero⟩ := hbefore es₁ e es₂ classId hes he hp name hname
    rw [htype, htyped.types es₁ e es₂ classId hes he object hobject, hlast]
    exact cStr_eq_self.2 hzero

/-- `ClassLoadFinished` for the class 5, which is called `Shop`. -/
def Callback.loadShop : Callback := .classLoadFinished 5 true (some (utf16 "Shop".toList))

/-- One object is allocated before its class is loaded, one after. -/
def allocateAround : List Callback :=
  [.objectAllocated 100 5 (some 24) 1 ⟨1, 1⟩, .loadShop, .objectAllocated 200 5 (some 24) 1 ⟨2, 2⟩]

theorem types_named_iff_around :
    ∃ s, run step Config.plain.start allocateAround = .ok s ∧
      ∃ records objects', objectsSection s = .ok (records, objects') ∧
        List.Forall₂ (WrittenOf s) s.heldRecords records ∧
        (TypesNamed allocateAround s records ↔ ∀ es₁ e es₂ classId, allocateAround = es₁ ++ e :: es₂ →
          e.allocates = some classId → (allocated es₁).length ∈ s.heldRecords →
            ∀ name, (classId, name) ∈ loaded allocateAround →
              lastName es₁ classId = some name ∧ '\x00' ∉ name.toList) :=
  ⟨_, rfl, types_named_iff (show run step Config.plain.start allocateAround = .ok _ from rfl)⟩

/-- The older object has no type, though its class is loaded right after. -/
theorem older_unnamed :
    ∃ s records objects', run step Config.plain.start allocateAround = .ok s ∧
      objectsSection s = .ok (records, objects') ∧ loaded allocateAround = [(5, "Shop")] ∧
      allocated allocateAround = [5, 5] ∧ s.heldRecords = [0, 1] ∧ records.map (·.objType) = ["", "Shop"] ∧
      ¬ TypesNamed allocateAround s records := by
  refine ⟨_, _, _, rfl, rfl, by decide, rfl, by decide, by decide, fun h => ?_⟩
  have hfirst := (List.forall₂_iff_get.1 h).2 0 (by decide) (by decide) 5 (by decide) "Shop" (by decide)
  exact absurd hfirst (by decide)

end Perun
