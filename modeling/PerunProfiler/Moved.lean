import PerunProfiler.Objects

/-!
# The marking loops of `MovedReferences`

The loops mark and relocate the tracked addresses that pass the test `old ≤ key < new + len`; the
last range that passes gives the target (`markMoved_spec`). The addresses that moved are those with
`old ≤ key < old + len`, so the loops do their work when `Selects` holds.
-/

namespace Perun
open Lib

def ObjectClass.mark (gcNumber : Nat) (object : ObjectClass) : ObjectClass :=
  { object with untilGcNumber := gcNumber }

@[simp] theorem ObjectClass.mark_mark (gcNumber : Nat) (object : ObjectClass) :
    (object.mark gcNumber).mark gcNumber = object.mark gcNumber := rfl

namespace MovedRange

/-- The address lies in the old range. -/
def Holds (r : MovedRange) (k : Nat) : Prop := r.old ≤ k ∧ k < r.old + r.len

/-- The address passes the test of the loop. -/
def Passes (r : MovedRange) (k : Nat) : Prop := r.old ≤ k ∧ k < wrap (r.new + r.len)

def target (r : MovedRange) (k : Nat) : Nat := wrap (r.new + (k - r.old))

instance (r : MovedRange) (k : Nat) : Decidable (r.Passes k) := inferInstanceAs (Decidable (_ ∧ _))

instance (r : MovedRange) (k : Nat) : Decidable (r.Holds k) := inferInstanceAs (Decidable (_ ∧ _))

theorem target_of_holds {r : MovedRange} {k : Nat} (h : r.Holds k) (hw : r.new + r.len ≤ 2 ^ 64) :
    r.target k = r.new + (k - r.old) := by
  obtain ⟨h1, h2⟩ := h
  exact Nat.mod_eq_of_lt (by omega)

end MovedRange

section mark
variable {gcNumber : Nat} {objects : Heap ObjectClass} {p : Ptr}

theorem markUntil_live {object : ObjectClass} (h : objects.get? p = some object) :
    markUntil gcNumber objects p = .ok (objects.set p (object.mark gcNumber)) := by
  simp only [markUntil, deref_ok.2 h, ObjectClass.mark]

theorem run_markUntil (gcNumber : Nat) (objects : Heap ObjectClass) (L : List Ptr)
    (hlive : ∀ p ∈ L, (objects.get? p).isSome) :
    ∃ objects', run (markUntil gcNumber) objects L = .ok objects' ∧ objects'.size = objects.size ∧
      ∀ q, objects'.get? q = if q ∈ L then (objects.get? q).map (·.mark gcNumber) else objects.get? q := by
  induction L generalizing objects with
  | nil => exact ⟨objects, rfl, rfl, by simp⟩
  | cons p L ih =>
    obtain ⟨object, hp⟩ := Option.isSome_iff_exists.1 (hlive p (by simp))
    have hset := fun q => Heap.get?_set (a := object.mark gcNumber) (q := q) hp
    obtain ⟨objects', hrun, hsize, hget⟩ := ih (objects.set p (object.mark gcNumber)) fun q hq => by
      rw [hset]
      split
      · rfl
      · exact hlive q (List.mem_cons_of_mem _ hq)
    refine ⟨objects', run_cons.2 ⟨_, markUntil_live hp, hrun⟩, by rw [hsize, Heap.size_set], fun q => ?_⟩
    rw [hget, hset]
    by_cases hq : q = p
    · subst hq; simp [hp]
    · simp only [List.mem_cons, hq, false_or, if_false]

theorem run_moveEntry {L : List (MovedRange × Nat × Ptr)} {objects' : Heap ObjectClass} {tmpMap : Map Nat}
    (h : run (markUntil gcNumber) objects (L.map (·.2.2)) = .ok objects') :
    run (fun x (y : MovedRange × Nat × Ptr) => moveEntry gcNumber y.1 x y.2) (tmpMap, objects) L =
      .ok (L.foldl (fun m x => m.insert x.2.1 (x.1.target x.2.1)) tmpMap, objects') := by
  induction L generalizing tmpMap objects with
  | nil => cases h; rfl
  | cons x L ih =>
    obtain ⟨objects₁, hmark, h⟩ := run_cons.1 h
    refine run_cons.2 ⟨(tmpMap.insert x.2.1 (x.1.target x.2.1), objects₁), ?_, ih h⟩
    simp only [moveEntry, hmark, MovedRange.target]

end mark

/-- The address passes the test of the loop of `SurvivingReferences`. -/
def SurvivingRange.Passes (r : SurvivingRange) (k : Nat) : Prop := r.start ≤ k ∧ k < wrap (r.start + r.len)

instance (r : SurvivingRange) (k : Nat) : Decidable (r.Passes k) := inferInstanceAs (Decidable (_ ∧ _))

/-- The records whose addresses satisfy `P` are marked, the others are as they were. -/
structure Marked (gcNumber : Nat) (objectsAlloc : Map Ptr) (P : Nat → Prop) (objects objects' : Heap ObjectClass) :
    Prop where
  marked : ∀ (k : Nat) (p : Ptr), objectsAlloc[k]? = some p → P k →
    objects'.get? p = (objects.get? p).map (·.mark gcNumber)
  same : ∀ p, (∀ k : Nat, objectsAlloc[k]? = some p → ¬ P k) → objects'.get? p = objects.get? p

section spec
variable {objectsAlloc : Map Ptr} {objects objects' : Heap ObjectClass}

theorem Marked.cases {gcNumber : Nat} {P : Nat → Prop} (h : Marked gcNumber objectsAlloc P objects objects') (p : Ptr) :
    (∃ k : Nat, objectsAlloc[k]? = some p ∧ P k ∧ objects'.get? p = (objects.get? p).map (·.mark gcNumber)) ∨
      objects'.get? p = objects.get? p := by
  by_cases hex : ∃ k : Nat, objectsAlloc[k]? = some p ∧ P k
  · obtain ⟨k, hk, hP⟩ := hex
    exact .inl ⟨k, hk, hP, h.marked k p hk hP⟩
  · exact .inr (h.same p fun k hk hP => hex ⟨k, hk, hP⟩)

theorem Marked.isSome {gcNumber : Nat} {P : Nat → Prop} (h : Marked gcNumber objectsAlloc P objects objects')
    (p : Ptr) : (objects'.get? p).isSome = (objects.get? p).isSome := by
  rcases h.cases p with ⟨-, -, -, hp⟩ | hp
  · rw [hp, Option.isSome_map]
  · rw [hp]

theorem Marked.unique {gcNumber : Nat} {P : Nat → Prop} {objects₁ objects₂ : Heap ObjectClass}
    (h₁ : Marked gcNumber objectsAlloc P objects objects₁) (h₂ : Marked gcNumber objectsAlloc P objects objects₂)
    (p : Ptr) : objects₁.get? p = objects₂.get? p := by
  rcases h₁.cases p with ⟨k, hk, hP, h⟩ | h
  · rw [h, h₂.marked k p hk hP]
  · rcases h₂.cases p with ⟨k, hk, hP, h'⟩ | h'
    · rw [h', h₁.marked k p hk hP]
    · rw [h, h']

/-- What the marking loops of `MovedReferences` do. -/
theorem markMoved_spec (gcNumber : Nat) (ranges : List MovedRange)
    (hlive : ∀ (k : Nat) (p : Ptr), objectsAlloc[k]? = some p → (objects.get? p).isSome) :
    ∃ tmpMap objects', markMoved gcNumber objectsAlloc ranges objects = .ok (tmpMap, objects') ∧
      Marked gcNumber objectsAlloc (fun k => ∃ r ∈ ranges, r.Passes k) objects objects' ∧
      ∀ k : Nat, tmpMap[k]? = objectsAlloc[k]?.bind fun _ =>
        ((ranges.filter (·.Passes k)).getLast?).map (·.target k) := by
  obtain ⟨L, hL⟩ : ∃ L, scanned objectsAlloc (fun r : MovedRange => r.old) (fun r => wrap (r.new + r.len))
    ranges = L := ⟨_, rfl⟩
  have hmem : ∀ {r : MovedRange} {k : Nat} {p : Ptr},
      (r, k, p) ∈ L ↔ r ∈ ranges ∧ objectsAlloc[k]? = some p ∧ r.Passes k := by
    intro r k p
    rw [← hL, mem_scanned]
    rfl
  obtain ⟨objects', hmark, -, hget⟩ := run_markUntil gcNumber objects
    (L.map (·.2.2)) fun p hp => by
      obtain ⟨⟨r, k, q⟩, hx, rfl⟩ := List.mem_map.1 hp
      exact hlive k q (hmem.1 hx).2.1
  refine ⟨L.foldl (fun m x => m.insert x.2.1 (x.1.target x.2.1)) ∅, objects', ?_,
    ⟨fun k p hk ⟨r, hr, hpass⟩ => ?_, fun p hp => ?_⟩, fun k => ?_⟩
  · rw [markMoved, run_scan (moveEntry gcNumber), hL]
    exact run_moveEntry hmark
  · rw [hget, if_pos (List.mem_map.2 ⟨(r, k, p), hmem.2 ⟨hr, hk, hpass⟩, rfl⟩)]
  · rw [hget, if_neg]
    intro hm
    obtain ⟨⟨r, k, q⟩, hx, rfl⟩ := List.mem_map.1 hm
    obtain ⟨hr, hk, hpass⟩ := hmem.1 hx
    exact hp k hk ⟨r, hr, hpass⟩
  · rw [Map.getElem?_foldl_insert (fun x : MovedRange × Nat × Ptr => x.2.1), ← hL, scanned_filter_key]
    cases hk : objectsAlloc[k]? with
    | none => simp
    | some p =>
      have hfilter : (ranges.filterMap fun r =>
          if r.old ≤ k ∧ k < wrap (r.new + r.len) then (some p).map fun p => (r, k, p) else none) =
          (ranges.filter (·.Passes k)).map fun r => (r, k, p) := by
        rw [← List.filterMap_eq_map, List.filterMap_filter]
        refine List.filterMap_congr fun r _ => ?_
        by_cases hpass : r.Passes k
        · exact (if_pos hpass).trans (if_pos (decide_eq_true hpass)).symm
        · exact (if_neg hpass).trans (if_neg (by simpa using hpass)).symm
      rw [hfilter, List.getLast?_map]
      cases (ranges.filter (·.Passes k)).getLast? <;> simp

/-- What the marking loops of `SurvivingReferences` do. -/
theorem markSurviving_spec (gcNumber : Nat) (ranges : List SurvivingRange)
    (hlive : ∀ (k : Nat) (p : Ptr), objectsAlloc[k]? = some p → (objects.get? p).isSome) :
    ∃ objects', markSurviving gcNumber objectsAlloc ranges objects = .ok objects' ∧
      Marked gcNumber objectsAlloc (fun k => ∃ r ∈ ranges, r.Passes k) objects objects' := by
  obtain ⟨L, hL⟩ : ∃ L, scanned objectsAlloc (fun r : SurvivingRange => r.start) (fun r => wrap (r.start + r.len))
      ranges = L := ⟨_, rfl⟩
  have hmem : ∀ {r : SurvivingRange} {k : Nat} {p : Ptr}, (r, k, p) ∈ L ↔
      r ∈ ranges ∧ objectsAlloc[k]? = some p ∧ r.Passes k := by
    intro r k p
    rw [← hL, mem_scanned]
    rfl
  obtain ⟨objects', hmark, -, hget⟩ := run_markUntil gcNumber objects
    (L.map (·.2.2)) fun p hp => by
      obtain ⟨⟨r, k, q⟩, hx, rfl⟩ := List.mem_map.1 hp
      exact hlive k q (hmem.1 hx).2.1
  refine ⟨objects', ?_, fun k p hk ⟨r, hr, hpass⟩ => ?_, fun p hp => ?_⟩
  · rw [markSurviving, run_scan (fun _ objects entry => markUntil gcNumber objects entry.2), hL, ← hmark,
      run_map]
  · rw [hget, if_pos (List.mem_map.2 ⟨(r, k, p), hmem.2 ⟨hr, hk, hpass⟩, rfl⟩)]
  · rw [hget, if_neg]
    intro hm
    obtain ⟨⟨r, k, q⟩, hx, rfl⟩ := List.mem_map.1 hm
    obtain ⟨hr, hk, hpass⟩ := hmem.1 hx
    exact hp k hk ⟨r, hr, hpass⟩

end spec

/-! ### When the loops select the objects that moved -/

section relocated
variable {gcNumber : Nat} {objectsAlloc : Map Ptr} {ranges : List MovedRange} {objects objects' : Heap ObjectClass}
  {tmpMap : Map Nat}

/-- Exactly the objects with an address in an old range are marked and have a target, which is the
one of the range that holds the address. -/
structure Relocated (gcNumber : Nat) (objectsAlloc : Map Ptr) (ranges : List MovedRange)
    (objects : Heap ObjectClass) (tmpMap : Map Nat) (objects' : Heap ObjectClass) : Prop where
  target : ∀ k ∈ objectsAlloc, ∀ r ∈ ranges, r.Holds k → tmpMap[k]? = some (r.new + (k - r.old))
  noTarget : ∀ k, (k ∈ objectsAlloc → ∀ r ∈ ranges, ¬ r.Holds k) → tmpMap[k]? = none
  marked : ∀ (k : Nat) (p : Ptr), objectsAlloc[k]? = some p → ∀ r ∈ ranges, r.Holds k →
    objects'.get? p = (objects.get? p).map (·.mark gcNumber)
  unmarked : ∀ p, (∀ k : Nat, objectsAlloc[k]? = some p → ∀ r ∈ ranges, ¬ r.Holds k) →
    objects'.get? p = objects.get? p

/-- No tracked address passes the test of a range unless it moved, and the last range whose test a
moved address passes sends it where the range that holds it does. -/
structure Selects (objectsAlloc : Map Ptr) (ranges : List MovedRange) : Prop where
  only : ∀ k ∈ objectsAlloc, ∀ r ∈ ranges, r.Passes k → ∃ r' ∈ ranges, r'.Holds k
  last : ∀ k ∈ objectsAlloc, ∀ r ∈ ranges, r.Holds k →
    ∃ r', (ranges.filter (·.Passes k)).getLast? = some r' ∧ r'.target k = r.target k

theorem Selects.passes (h : Selects objectsAlloc ranges) {k : Nat} (hk : k ∈ objectsAlloc) {r : MovedRange}
    (hr : r ∈ ranges) (hold : r.Holds k) : ∃ r' ∈ ranges, r'.Passes k := by
  obtain ⟨r', hlast, -⟩ := h.last k hk r hr hold
  have hmem := List.mem_of_getLast? hlast
  rw [List.mem_filter, decide_eq_true_eq] at hmem
  exact ⟨r', hmem⟩

/-- The marking loops do what the relocation asks for exactly when `Selects` holds. -/
theorem markMoved_relocated_iff
    (hlive : ∀ (k : Nat) (p : Ptr), objectsAlloc[k]? = some p → (objects.get? p).isSome)
    (hwrap : ∀ r ∈ ranges, r.new + r.len ≤ 2 ^ 64) :
    ∃ tmpMap objects', markMoved gcNumber objectsAlloc ranges objects = .ok (tmpMap, objects') ∧
      (Relocated gcNumber objectsAlloc ranges objects tmpMap objects' ↔ Selects objectsAlloc ranges) := by
  obtain ⟨tmpMap, objects', hrun, hmarked, htmp⟩ := markMoved_spec gcNumber ranges hlive
  have htmp' : ∀ k ∈ objectsAlloc, tmpMap[k]? = ((ranges.filter (·.Passes k)).getLast?).map (·.target k) := by
    intro k hk
    rw [htmp, Std.ExtTreeMap.getElem?_eq_some_getElem hk, Option.bind_some]
  refine ⟨tmpMap, objects', hrun, fun h => ⟨?_, ?_⟩, fun h => ⟨?_, ?_, ?_, ?_⟩⟩
  · intro k hk r hr hpass
    by_contra hno
    have hnone := h.noTarget k fun _ r' hr' hold => hno ⟨r', hr', hold⟩
    rw [htmp' k hk, Option.map_eq_none_iff, List.getLast?_eq_none_iff, List.filter_eq_nil_iff] at hnone
    exact hnone r hr (by simpa using hpass)
  · intro k hk r hr hold
    have htarget := h.target k hk r hr hold
    rw [htmp' k hk, Option.map_eq_some_iff] at htarget
    obtain ⟨r', hlast, ht⟩ := htarget
    exact ⟨r', hlast, ht.trans (MovedRange.target_of_holds hold (hwrap r hr)).symm⟩
  · intro k hk r hr hold
    obtain ⟨r', hlast, ht⟩ := h.last k hk r hr hold
    rw [htmp' k hk, hlast, Option.map_some, ht, MovedRange.target_of_holds hold (hwrap r hr)]
  · intro k hno
    by_cases hk : k ∈ objectsAlloc
    · rw [htmp' k hk, Option.map_eq_none_iff, List.getLast?_eq_none_iff, List.filter_eq_nil_iff]
      intro r hr hpass
      obtain ⟨r', hr', hold⟩ := h.only k hk r hr (by simpa using hpass)
      exact hno hk r' hr' hold
    · rw [htmp, Std.ExtTreeMap.getElem?_eq_none hk, Option.bind_none]
  · intro k p hk r hr hold
    obtain ⟨r', hr', hpass⟩ := h.passes (Std.ExtTreeMap.mem_iff_isSome_getElem?.2 (by simp [hk])) hr hold
    exact hmarked.marked k p hk ⟨r', hr', hpass⟩
  · intro p hno
    refine hmarked.same p fun k hk ⟨r, hr, hpass⟩ => ?_
    obtain ⟨r', hr', hold⟩ := h.only k (Std.ExtTreeMap.mem_iff_isSome_getElem?.2 (by simp [hk])) r hr hpass
    exact hno k hk r' hr' hold

end relocated

/-- An object of 24 bytes at address 120, allocated before the first collection. -/
def object120 : ObjectClass :=
  { objectId := 120, threadId := 1, size := 24, typeName := "A", gcNumber := 1, untilGcNumber := 1
    cpuTimeAllocation := 0, wallTimeAllocation := 0 }

/-- The range [100, 150) moves up to [110, 160). -/
theorem markMoved_relocated_iff_up :
    ∃ tmpMap objects', markMoved 2 ((∅ : Map Ptr).insert 120 0) [⟨100, 110, 50⟩] (Heap.empty.alloc object120) =
        .ok (tmpMap, objects') ∧
      (Relocated 2 ((∅ : Map Ptr).insert 120 0) [⟨100, 110, 50⟩] (Heap.empty.alloc object120) tmpMap objects' ↔
        Selects ((∅ : Map Ptr).insert 120 0) [⟨100, 110, 50⟩]) := by
  refine markMoved_relocated_iff (fun k p h => ?_) (by decide)
  rw [Std.ExtTreeMap.getElem?_insert] at h
  split at h
  · cases h; rfl
  · simp at h

/-- The range [100, 150) moves down to [0, 50): the object at 120 stays unmarked and has no target. -/
theorem markMoved_down_not_relocated :
    ¬ ∃ tmpMap objects', markMoved 2 ((∅ : Map Ptr).insert 120 0) [⟨100, 0, 50⟩] (Heap.empty.alloc object120) =
        .ok (tmpMap, objects') ∧
      Relocated 2 ((∅ : Map Ptr).insert 120 0) [⟨100, 0, 50⟩] (Heap.empty.alloc object120) tmpMap objects' := by
  rintro ⟨tmpMap, objects', hrun, hrel⟩
  have hnone : markMoved 2 ((∅ : Map Ptr).insert 120 0) [⟨100, 0, 50⟩] (Heap.empty.alloc object120) =
      .ok (∅, Heap.empty.alloc object120) := by decide
  rw [hnone, Except.ok.injEq, Prod.mk.injEq] at hrun
  have htarget := hrel.target 120 (by decide) ⟨100, 0, 50⟩ (by simp) (by decide)
  rw [← hrun.1] at htarget
  simp at htarget

end Perun
