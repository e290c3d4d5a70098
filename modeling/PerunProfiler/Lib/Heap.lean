import Mathlib.Data.List.Range
import Mathlib.Data.List.Nodup

/-! # A heap of records

Addresses are indices into a list of cells; `alloc` takes a fresh one, `free` leaves the cell empty
for good, so a freed address stays recognizable. -/

namespace Lib

structure Heap (α : Type) where
  cells : List (Option α)
deriving DecidableEq, Repr

namespace Heap

variable {α : Type} {h : Heap α} {p q : Nat} {a b : α}

def empty : Heap α := ⟨[]⟩

def size (h : Heap α) : Nat := h.cells.length

/-- The record at `p`, if the cell is live. -/
def get? (h : Heap α) (p : Nat) : Option α := h.cells[p]?.join

def alloc (h : Heap α) (a : α) : Heap α := ⟨h.cells ++ [some a]⟩

def set (h : Heap α) (p : Nat) (a : α) : Heap α := ⟨h.cells.set p (some a)⟩

def free (h : Heap α) (p : Nat) : Heap α := ⟨h.cells.set p none⟩

@[simp] theorem get?_empty : (empty : Heap α).get? p = none := rfl
@[simp] theorem size_alloc : (h.alloc a).size = h.size + 1 := by simp [size, alloc]
@[simp] theorem size_set : (h.set p a).size = h.size := by simp [size, set]
@[simp] theorem size_free : (h.free p).size = h.size := by simp [size, free]

theorem lt_size (hp : h.get? p = some a) : p < h.size := by
  by_contra hge
  have : h.cells[p]? = none := List.getElem?_eq_none (Nat.le_of_not_lt hge)
  simp [get?, this] at hp

theorem get?_alloc : (h.alloc a).get? q = if q = h.size then some a else h.get? q := by
  simp only [get?, alloc, size, List.getElem?_append]
  rcases Nat.lt_trichotomy q h.cells.length with hq | rfl | hq
  · simp [hq, Nat.ne_of_lt hq]
  · simp
  · have h1 : ¬ q < h.cells.length := by omega
    simp [h1, Nat.ne_of_gt hq, Nat.sub_ne_zero_of_lt hq]

@[simp] theorem get?_alloc_size : (h.alloc a).get? h.size = some a := by simp [get?_alloc]

theorem get?_alloc_of_some (hp : h.get? p = some b) : (h.alloc a).get? p = some b := by
  rw [get?_alloc, if_neg (Nat.ne_of_lt (lt_size hp)), hp]

theorem get?_set (hp : h.get? p = some b) : (h.set p a).get? q = if q = p then some a else h.get? q := by
  have hlt : p < h.cells.length := lt_size hp
  by_cases hq : q = p
  · subst hq; simp [get?, set, hlt]
  · simp [get?, set, hq, Ne.symm hq]

theorem get?_free : (h.free p).get? q = if q = p then none else h.get? q := by
  by_cases hq : q = p
  · subst hq
    by_cases hlt : q < h.cells.length
    · simp [get?, free, hlt]
    · simp [get?, free, hlt]
  · simp [get?, free, hq, Ne.symm hq]

theorem forall_get?_iff {Q : α → Prop} : (∀ p a, h.get? p = some a → Q a) ↔ ∀ c ∈ h.cells, ∀ a ∈ c, Q a := by
  constructor
  · intro hQ c hc a ha
    obtain ⟨p, hp⟩ := List.mem_iff_getElem?.1 hc
    refine hQ p a ?_
    rw [get?, hp]
    exact ha
  · intro hQ p a hp
    exact hQ (some a) (List.mem_iff_getElem?.2 ⟨p, Option.join_eq_some_iff.1 hp⟩) a rfl

instance {Q : α → Prop} [DecidablePred Q] : Decidable (∀ p a, h.get? p = some a → Q a) :=
  decidable_of_iff _ forall_get?_iff.symm

/-- The live addresses whose record satisfies `P`, in the order of allocation. -/
def addrs (P : α → Bool) (h : Heap α) : List Nat :=
  (List.range h.size).filter fun p => (h.get? p).any P

variable {P : α → Bool}

@[simp] theorem addrs_empty : addrs P (empty : Heap α) = [] := rfl

theorem mem_addrs : p ∈ h.addrs P ↔ ∃ a, h.get? p = some a ∧ P a = true := by
  simp only [addrs, List.mem_filter, List.mem_range, Option.any_eq_true]
  exact ⟨fun ⟨_, a, h1, h2⟩ => ⟨a, h1, h2⟩, fun ⟨a, h1, h2⟩ => ⟨lt_size h1, a, h1, h2⟩⟩

theorem nodup_addrs : (h.addrs P).Nodup := List.nodup_range.filter _

theorem length_addrs_le : (h.addrs P).length ≤ h.size :=
  (List.length_filter_le _ _).trans (by simp)

theorem addrs_alloc : (h.alloc a).addrs P = h.addrs P ++ if P a then [h.size] else [] := by
  have hlt : (List.range h.size).filter (fun p => ((h.alloc a).get? p).any P) = h.addrs P := by
    refine List.filter_congr fun p hp => ?_
    rw [get?_alloc, if_neg (Nat.ne_of_lt (List.mem_range.1 hp))]
  rw [addrs, size_alloc, List.range_succ, List.filter_append, hlt]
  cases hP : P a <;> simp [hP]

theorem addrs_congr {h' : Heap α} (hs : h'.size = h.size)
    (hP : ∀ p, (h'.get? p).any P = (h.get? p).any P) : h'.addrs P = h.addrs P := by
  simp only [addrs, hs, hP]

theorem addrs_set (hp : h.get? p = some b) (hP : P a = P b) : (h.set p a).addrs P = h.addrs P := by
  refine addrs_congr size_set fun q => ?_
  rw [get?_set hp]
  split
  · next hq => subst hq; simp [hp, hP]
  · rfl

end Heap

end Lib
