import PerunProfiler.Tracking

/-!
# Where `MovedReferences` puts the objects

The effect of one call on `m_objectsAlloc`, from the ranges alone: an address no range lets through
keeps its record, the others are vacated in ascending order, and a record arrives at its destination
if that is free when its turn comes.
-/

namespace Perun
open Lib

/-- The new address `tmp_map` has for `k`. -/
def destination (ranges : List MovedRange) (k : Nat) : Option Nat :=
  ((ranges.filter (·.Passes k)).getLast?).map (·.target k)

/-- The address `t` is free when the turn of `k` comes. -/
def FreeFor (m : Map Ptr) (ranges : List MovedRange) (k t : Nat) : Prop :=
  t ∈ m → (∃ r ∈ ranges, r.Passes t) ∧ t < k

/-- If `k` has a destination, it is free and `k` is the first to go there. -/
def Arrives (m : Map Ptr) (ranges : List MovedRange) (k : Nat) : Prop :=
  ∀ t, destination ranges k = some t →
    FreeFor m ranges k t ∧ ∀ k' < k, k' ∈ m → destination ranges k' = some t → ¬ FreeFor m ranges k' t

section destination
variable {ranges : List MovedRange} {k t : Nat}

theorem destination_eq_none : destination ranges k = none ↔ ∀ r ∈ ranges, ¬ r.Passes k := by
  simp [destination]

theorem destination_isSome : (∃ t, destination ranges k = some t) ↔ ∃ r ∈ ranges, r.Passes k := by
  rw [← Option.ne_none_iff_exists', Ne, destination_eq_none]
  simp

theorem exists_of_destination (h : destination ranges k = some t) :
    ∃ r ∈ ranges, r.Passes k ∧ r.target k = t := by
  obtain ⟨r, hlast, rfl⟩ := Option.map_eq_some_iff.1 h
  have hmem := List.mem_of_getLast? hlast
  rw [List.mem_filter, decide_eq_true_eq] at hmem
  exact ⟨r, hmem.1, hmem.2, rfl⟩

theorem destination_singleton {r : MovedRange} (h : r.Passes k) : destination [r] k = some (r.target k) := by
  simp [destination, h]

end destination

/-- What `MovedReferences` does: no fault, the addresses let through are marked, and a record is at `a`
afterwards if it stayed there or arrived. -/
theorem movedReferences_get {s : CoreProfiler} (ranges : List MovedRange) (hd : s.isDeallocEnable = true)
    (hlive : ∀ (k : Nat) (p : Ptr), s.objectsAlloc[k]? = some p → (s.objects.get? p).isSome) :
    ∃ objects' m', movedReferences ranges s = .ok { s with objects := objects', objectsAlloc := m' } ∧
      Marked s.gcNumber s.objectsAlloc (fun k => ∃ r ∈ ranges, r.Passes k) s.objects objects' ∧
      ∀ (a : Nat) (p : Ptr), m'[a]? = some p ↔
        ((∀ r ∈ ranges, ¬ r.Passes a) ∧ s.objectsAlloc[a]? = some p) ∨
        ∃ k : Nat, s.objectsAlloc[k]? = some p ∧ destination ranges k = some a ∧ Arrives s.objectsAlloc ranges k := by
  obtain ⟨tmpMap, objects', m', hok, hrekey, hkeys, htmp, hmarked⟩ := movedReferences_spec ranges hd hlive
  obtain ⟨m₁, hrekey₁, hget⟩ := rekey_get hkeys
  obtain rfl : m' = m₁ := Except.ok.inj (hrekey.symm.trans hrekey₁)
  refine ⟨objects', m', hok, hmarked, fun a p => ?_⟩
  have hdest : ∀ {k t : Nat}, tmpMap[k]? = some t ↔ k ∈ s.objectsAlloc ∧ destination ranges k = some t := by
    intro k t
    rw [htmp, Option.bind_eq_some_iff, Std.ExtTreeMap.mem_iff_isSome_getElem?, Option.isSome_iff_exists]
    exact ⟨fun ⟨p, hp, ht⟩ => ⟨⟨p, hp⟩, ht⟩, fun ⟨⟨p, hp⟩, ht⟩ => ⟨p, hp, ht⟩⟩
  have hmem : ∀ {k : Nat}, k ∈ tmpMap ↔ k ∈ s.objectsAlloc ∧ ∃ r ∈ ranges, r.Passes k := by
    intro k
    rw [Std.ExtTreeMap.mem_iff_isSome_getElem?, Option.isSome_iff_exists, ← destination_isSome]
    simp only [hdest, exists_and_left]
  have hsome : ∀ {k : Nat} {p : Ptr}, s.objectsAlloc[k]? = some p → k ∈ s.objectsAlloc := fun hk => by
    rw [Std.ExtTreeMap.mem_iff_isSome_getElem?, hk]
    rfl
  have hvacant : ∀ k t : Nat, Vacant s.objectsAlloc tmpMap k t ↔ FreeFor s.objectsAlloc ranges k t := by
    intro k t
    rw [Vacant, FreeFor, hmem]
    exact ⟨fun h ht => ⟨(h ht).1.2, (h ht).2⟩, fun h ht => ⟨⟨ht, (h ht).1⟩, (h ht).2⟩⟩
  rw [hget]
  simp only [hdest, hmem, hvacant]
  constructor
  · rintro (⟨hno, ha⟩ | ⟨k, ⟨hk, hkt⟩, hp, hfree, hfirst⟩)
    · exact .inl ⟨fun r hr hpass => hno ⟨hsome ha, r, hr, hpass⟩, ha⟩
    · refine .inr ⟨k, hp, hkt, fun t ht => ?_⟩
      obtain rfl := Option.some.inj (ht.symm.trans hkt)
      exact ⟨hfree, fun k' hlt hk' hdest' => hfirst k' hlt ⟨hk', hdest'⟩⟩
  · rintro (⟨hno, ha⟩ | ⟨k, hp, hkt, harr⟩)
    · exact .inl ⟨fun ⟨_, r, hr, hpass⟩ => hno r hr hpass, ha⟩
    · obtain ⟨hfree, hfirst⟩ := harr a hkt
      exact .inr ⟨k, ⟨hsome hp, hkt⟩, hp, hfree, fun k' hlt ⟨hk', hdest'⟩ => hfirst k' hlt hk' hdest'⟩

end Perun
