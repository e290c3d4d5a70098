import PerunProfiler.Lib.Heap

/-! # Reference counts

Objects with a counter each, the references to them that are out, and the objects whose last reference
has been given back and that are yet to be deleted. -/

namespace Lib

namespace Heap
variable {α : Type} {h : Heap α} {p q : Nat} {a b : α}

/-- The address has been in use and is not any more: 1, else 0. -/
def freed (h : Heap α) (p : Nat) : Nat := if p < h.size ∧ h.get? p = none then 1 else 0

theorem freed_alloc : (h.alloc a).freed q = h.freed q := by
  have hiff : q < (h.alloc a).size ∧ (h.alloc a).get? q = none ↔ q < h.size ∧ h.get? q = none := by
    rw [size_alloc, get?_alloc]
    split
    · next hq => exact iff_of_false (fun hn => nomatch hn.2) fun hn => Nat.lt_irrefl _ (hq ▸ hn.1)
    · next hq => exact and_congr_left fun _ => by omega
  rw [freed, freed, if_congr hiff rfl rfl]

theorem freed_set (hp : h.get? p = some b) : (h.set p a).freed q = h.freed q := by
  have hiff : q < (h.set p a).size ∧ (h.set p a).get? q = none ↔ q < h.size ∧ h.get? q = none := by
    rw [size_set, get?_set hp]
    split
    · next hq =>
      subst hq
      rw [hp]
      exact iff_of_false (fun hn => nomatch hn.2) fun hn => nomatch hn.2
    · rfl
  rw [freed, freed, if_congr hiff rfl rfl]

theorem freed_free (hp : h.get? p = some b) : (h.free p).freed q = (if p = q then 1 else 0) + h.freed q := by
  rw [freed, freed, size_free, get?_free]
  by_cases hq : q = p
  · subst hq
    rw [if_pos rfl, if_pos rfl, if_pos ⟨lt_size hp, rfl⟩, if_neg fun hn => nomatch hn.2.symm.trans hp]
  · rw [if_neg hq, if_neg (Ne.symm hq), Nat.zero_add]

end Heap

/-- Every counter is the number of references to its object; the `dying` objects have none left, and
the others are gone. -/
structure Counted (counts : Heap Nat) (refs dying : List Nat) : Prop where
  held : ∀ p ∈ refs, counts.get? p = some (refs.count p)
  dead : ∀ p ∈ dying, counts.get? p = some 0
  gone : ∀ p, p ∉ refs → p ∉ dying → counts.get? p = none
  nodup : dying.Nodup

namespace Counted
variable {counts : Heap Nat} {refs dying : List Nat} {p q : Nat}

theorem empty : Counted .empty [] [] := ⟨nofun, nofun, fun _ _ _ => rfl, .nil⟩

theorem not_mem_dying (h : Counted counts refs dying) (hp : p ∈ refs) : p ∉ dying := by
  intro hd
  have hcount := Option.some.inj ((h.held p hp).symm.trans (h.dead p hd))
  exact List.count_eq_zero.1 hcount hp

theorem live_iff (h : Counted counts refs dying) : (counts.get? p).isSome ↔ p ∈ refs ∨ p ∈ dying := by
  constructor
  · intro hlive
    by_contra hnot
    obtain ⟨hr, hd⟩ := not_or.1 hnot
    rw [h.gone p hr hd] at hlive
    cases hlive
  · rintro (hp | hp)
    · rw [h.held p hp]
      rfl
    · rw [h.dead p hp]
      rfl

theorem size_not_mem (h : Counted counts refs dying) : counts.size ∉ refs ∧ counts.size ∉ dying := by
  rw [← not_or, ← h.live_iff]
  intro hlive
  obtain ⟨n, hn⟩ := Option.isSome_iff_exists.1 hlive
  exact absurd (Heap.lt_size hn) (Nat.lt_irrefl _)

/-- A new object has one reference. -/
theorem alloc (h : Counted counts refs dying) : Counted (counts.alloc 1) (counts.size :: refs) dying := by
  obtain ⟨hr, hd⟩ := h.size_not_mem
  refine ⟨fun q hq => ?_, fun q hq => ?_, fun q hq hqd => ?_, h.nodup⟩
  · by_cases he : q = counts.size
    · rw [he, Heap.get?_alloc_size, List.count_cons_self, List.count_eq_zero_of_not_mem hr]
    · have hq := (List.mem_cons.1 hq).resolve_left he
      rw [List.count_cons_of_ne (Ne.symm he), Heap.get?_alloc_of_some (h.held q hq)]
  · exact Heap.get?_alloc_of_some (h.dead q hq)
  · obtain ⟨hne, hq⟩ := not_or.1 fun hm => hq (List.mem_cons.2 hm)
    rw [Heap.get?_alloc, if_neg hne, h.gone q hq hqd]

/-- One more reference to an object that has one. -/
theorem retain (h : Counted counts refs dying) (hp : p ∈ refs) :
    Counted (counts.set p (refs.count p + 1)) (p :: refs) dying := by
  have hget : ∀ q, (counts.set p (refs.count p + 1)).get? q = if q = p then some (refs.count p + 1) else counts.get? q :=
    fun q => Heap.get?_set (h.held p hp)
  refine ⟨fun q hq => ?_, fun q hq => ?_, fun q hq hqd => ?_, h.nodup⟩
  · rw [hget]
    split
    · next he => rw [he, List.count_cons_self]
    · next he => rw [List.count_cons_of_ne (Ne.symm he), h.held q ((List.mem_cons.1 hq).resolve_left he)]
  · rw [hget, if_neg, h.dead q hq]
    rintro rfl
    exact h.not_mem_dying hp hq
  · obtain ⟨hne, hq⟩ := not_or.1 fun hm => hq (List.mem_cons.2 hm)
    rw [hget, if_neg hne, h.gone q hq hqd]

/-- A reference that is not the last one is given back. -/
theorem release (h : Counted counts refs dying) (hp : p ∈ refs) (hcount : refs.count p ≠ 1) :
    Counted (counts.set p (refs.count p - 1)) (refs.erase p) dying := by
  have hpos := List.count_pos_iff.2 hp
  have hget : ∀ q, (counts.set p (refs.count p - 1)).get? q = if q = p then some (refs.count p - 1) else counts.get? q :=
    fun q => Heap.get?_set (h.held p hp)
  refine ⟨fun q hq => ?_, fun q hq => ?_, fun q hq hqd => ?_, h.nodup⟩
  · rw [hget]
    split
    · next he => rw [he, List.count_erase_self]
    · next he => rw [List.count_erase_of_ne he, h.held q (List.mem_of_mem_erase hq)]
  · rw [hget, if_neg, h.dead q hq]
    rintro rfl
    exact h.not_mem_dying hp hq
  · have hne : q ≠ p := by
      rintro rfl
      refine hq (List.count_pos_iff.1 ?_)
      rw [List.count_erase_self]
      omega
    rw [hget, if_neg hne, h.gone q (fun hm => hq ((List.mem_erase_of_ne hne).2 hm)) hqd]

/-- The last reference is given back. -/
theorem release_last (h : Counted counts refs dying) (hp : p ∈ refs) (hcount : refs.count p = 1) :
    Counted (counts.set p 0) (refs.erase p) (p :: dying) := by
  have hget : ∀ q, (counts.set p 0).get? q = if q = p then some 0 else counts.get? q :=
    fun q => Heap.get?_set (h.held p hp)
  have hlast : p ∉ refs.erase p := by
    rw [← List.count_eq_zero, List.count_erase_self, hcount]
  refine ⟨fun q hq => ?_, fun q hq => ?_, fun q hq hqd => ?_, List.nodup_cons.2 ⟨h.not_mem_dying hp, h.nodup⟩⟩
  · have hne : q ≠ p := fun he => hlast (he ▸ hq)
    rw [hget, if_neg hne, List.count_erase_of_ne hne, h.held q (List.mem_of_mem_erase hq)]
  · rw [hget]
    split
    · rfl
    · next he => exact h.dead q ((List.mem_cons.1 hq).resolve_left he)
  · obtain ⟨hne, hqd⟩ := not_or.1 fun hm => hqd (List.mem_cons.2 hm)
    rw [hget, if_neg hne, h.gone q (fun hm => hq ((List.mem_erase_of_ne hne).2 hm)) hqd]

/-- An object without references is deleted. -/
theorem delete (h : Counted counts refs dying) (hp : p ∈ dying) : Counted (counts.free p) refs (dying.erase p) := by
  refine ⟨fun q hq => ?_, fun q hq => ?_, fun q hq hqd => ?_, h.nodup.erase p⟩
  · rw [Heap.get?_free, if_neg, h.held q hq]
    rintro rfl
    exact h.not_mem_dying hq hp
  · obtain ⟨hne, hq⟩ := h.nodup.mem_erase_iff.1 hq
    rw [Heap.get?_free, if_neg hne, h.dead q hq]
  · rw [Heap.get?_free]
    split
    · rfl
    · next hne => exact h.gone q hq fun hm => hqd (h.nodup.mem_erase_iff.2 ⟨hne, hm⟩)

end Counted

end Lib
