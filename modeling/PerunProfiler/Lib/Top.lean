import Mathlib.Data.Finset.Card
import Mathlib.Data.Finset.Sort
import Mathlib.Order.Interval.Finset.Nat

/-!
# The elements with the largest values

`top f s n` are the elements of `s` that fewer than `n` others exceed. With distinct values these are
`n` elements, or all if there are fewer (`isTop_top`): the first `n` of a list that is sorted downwards
(`mem_take_iff`). -/

namespace Lib

variable {α β : Type} [LinearOrder β] {f : α → β}

/-- `T` are `n` elements of `s`, or all if there are fewer, and have larger values than the others. -/
structure IsTop (f : α → β) (s T : Finset α) (n : ℕ) : Prop where
  subset : T ⊆ s
  card : T.card = min n s.card
  above : ∀ a ∈ T, ∀ b ∈ s, b ∉ T → f b < f a

/-- How many elements have a larger value. -/
def rank (f : α → β) (s : Finset α) (a : α) : ℕ := (s.filter (f a < f ·)).card

def top (f : α → β) (s : Finset α) (n : ℕ) : Finset α := s.filter (rank f s · < n)

section rank
variable {s : Finset α} {a b : α} {n : ℕ}

theorem mem_top : a ∈ top f s n ↔ a ∈ s ∧ rank f s a < n := Finset.mem_filter

theorem rank_le (h : f a ≤ f b) : rank f s b ≤ rank f s a :=
  Finset.card_le_card (Finset.monotone_filter_right s fun _ _ hc => h.trans_lt hc)

theorem rank_lt (h : f a < f b) (hb : b ∈ s) : rank f s b < rank f s a := by
  refine Finset.card_lt_card (Finset.ssubset_iff_of_subset ?_ |>.2 ⟨b, Finset.mem_filter.2 ⟨hb, h⟩, ?_⟩)
  · exact Finset.monotone_filter_right s fun _ _ hc => h.trans hc
  · exact fun hmem => lt_irrefl _ (Finset.mem_filter.1 hmem).2

theorem rank_lt_card (ha : a ∈ s) : rank f s a < s.card := by
  refine Finset.card_lt_card (Finset.ssubset_iff_of_subset (Finset.filter_subset _ _) |>.2 ⟨a, ha, ?_⟩)
  exact fun hmem => lt_irrefl _ (Finset.mem_filter.1 hmem).2

theorem rank_injOn (hf : Set.InjOn f s) : Set.InjOn (rank f s) s := by
  intro a ha b hb hab
  refine hf ha hb (le_antisymm (not_lt.1 fun h => ?_) (not_lt.1 fun h => ?_))
  · exact absurd hab (Nat.ne_of_lt (rank_lt h ha))
  · exact absurd hab.symm (Nat.ne_of_lt (rank_lt h hb))

/-- The ranks of distinct values count off the set. -/
theorem image_rank (hf : Set.InjOn f s) : s.image (rank f s) = Finset.range s.card := by
  refine Finset.eq_of_subset_of_card_le (fun k hk => ?_) ?_
  · obtain ⟨a, ha, rfl⟩ := Finset.mem_image.1 hk
    exact Finset.mem_range.2 (rank_lt_card ha)
  · rw [Finset.card_range, Finset.card_image_of_injOn (rank_injOn hf)]

theorem card_top (hf : Set.InjOn f s) (n : ℕ) : (top f s n).card = min n s.card := by
  have hinj : Set.InjOn (rank f s) (top f s n) := fun a ha b hb => rank_injOn hf (mem_top.1 ha).1 (mem_top.1 hb).1
  have himage : (top f s n).image (rank f s) = Finset.range (min n s.card) := by
    have hfilter : (s.image (rank f s)).filter (· < n) = (top f s n).image (rank f s) := Finset.filter_image
    rw [← hfilter, image_rank hf]
    ext k
    simp only [Finset.mem_filter, Finset.mem_range]
    omega
  rw [← Finset.card_image_of_injOn hinj, himage, Finset.card_range]

theorem isTop_top (hf : Set.InjOn f s) (n : ℕ) : IsTop f s (top f s n) n := by
  refine ⟨Finset.filter_subset _ _, card_top hf n, fun a ha b hb hno => not_le.1 fun h => hno ?_⟩
  exact mem_top.2 ⟨hb, (rank_le h).trans_lt (mem_top.1 ha).2⟩

end rank

section erase
variable [DecidableEq α] {s : Finset α} {x : α} {n : ℕ}

theorem rank_erase_le (a : α) : rank f (s.erase x) a ≤ rank f s a :=
  Finset.card_le_card (Finset.filter_subset_filter _ (Finset.erase_subset x s))

/-- Dropping an element before the choice keeps what is chosen besides it. -/
theorem top_erase_subset : (top f s n).erase x ⊆ top f (s.erase x) n := by
  intro a ha
  obtain ⟨hne, ha⟩ := Finset.mem_erase.1 ha
  obtain ⟨has, hrank⟩ := mem_top.1 ha
  exact mem_top.2 ⟨Finset.mem_erase.2 ⟨hne, has⟩, (rank_erase_le a).trans_lt hrank⟩

/-- Dropping `x` before or after the choice makes no difference exactly when `x` is not there, when all
others are chosen with a place to spare, or when `x` is not chosen. -/
theorem top_erase_eq_iff (hf : Set.InjOn f s) :
    (top f s n).erase x = top f (s.erase x) n ↔ x ∉ s ∨ (s.erase x).card < n ∨ n ≤ rank f s x := by
  by_cases hx : x ∈ s
  · have hcard := Finset.card_erase_of_mem hx
    have hpos : 0 < s.card := Finset.card_pos.2 ⟨x, hx⟩
    have htop := card_top hf n
    have herase := card_top (hf.mono (Finset.erase_subset x s)) n
    have heq : (top f s n).erase x = top f (s.erase x) n ↔
        (top f s n).card - (if rank f s x < n then 1 else 0) = (top f (s.erase x) n).card := by
      have hdrop : ((top f s n).erase x).card = (top f s n).card - if rank f s x < n then 1 else 0 := by
        by_cases hr : rank f s x < n
        · rw [if_pos hr, Finset.card_erase_of_mem (mem_top.2 ⟨hx, hr⟩)]
        · rw [if_neg hr, Finset.erase_eq_of_notMem fun h => hr (mem_top.1 h).2, Nat.sub_zero]
      rw [← hdrop]
      exact ⟨congrArg Finset.card, fun h => Finset.eq_of_subset_of_card_le top_erase_subset h.ge⟩
    have hrank := rank_lt_card (f := f) hx
    rw [heq, htop, herase]
    split <;> simp only [hx, not_true_eq_false, false_or] <;> omega
  · rw [Finset.erase_eq_of_notMem hx, Finset.erase_eq_of_notMem fun h => hx (mem_top.1 h).1]
    exact iff_of_true rfl (.inl hx)

end erase

/-! ### Lists sorted downwards -/

section lists
variable {L : List α} {a : α} {n : ℕ}

theorem mem_take_iff_filter (hL : L.Pairwise fun a b => f b < f a) (ha : a ∈ L) :
    a ∈ L.take n ↔ (L.filter (f a < f ·)).length < n := by
  induction L generalizing n with
  | nil => cases ha
  | cons x L ih =>
    obtain ⟨hx, hL⟩ := List.pairwise_cons.1 hL
    cases n with
    | zero => simp
    | succ n =>
      rw [List.take_succ_cons, List.mem_cons]
      rcases List.mem_cons.1 ha with rfl | ha
      · have hnil : (a :: L).filter (f a < f ·) = [] := by
          refine List.filter_eq_nil_iff.2 fun b hb => ?_
          rcases List.mem_cons.1 hb with rfl | hb
          · simp
          · simpa using (hx b hb).le
        rw [hnil]
        exact iff_of_true (.inl rfl) (Nat.succ_pos n)
      · have hne : a ≠ x := fun h => lt_irrefl _ (h ▸ hx a ha)
        rw [or_iff_right hne, ih hL ha, List.filter_cons_of_pos (by simpa using hx a ha), List.length_cons]
        exact (Nat.succ_lt_succ_iff).symm

/-- The first `n` of a list that is sorted downwards are those of the top elements. -/
theorem mem_take_iff [DecidableEq α] {ρ : Type} {rows : List ρ} {v : ρ → β} {r : ρ} (hL : L.Nodup)
    (hf : Set.InjOn f L.toFinset) (hperm : (rows.map v).Perm (L.map f)) (hrows : rows.Pairwise fun a b => v b ≤ v a)
    (hr : r ∈ rows) (ha : a ∈ L) (hv : v r = f a) : r ∈ rows.take n ↔ a ∈ top f L.toFinset n := by
  have hnd : (rows.map v).Nodup := by
    refine hperm.nodup_iff.2 (hL.map_on fun b hb c hc => hf ?_ ?_)
    · exact List.mem_toFinset.2 hb
    · exact List.mem_toFinset.2 hc
  have hstrict : rows.Pairwise fun a b => v b < v a :=
    hrows.imp₂ (fun _ _ hle hne => lt_of_le_of_ne hle (Ne.symm hne)) (List.pairwise_map.1 hnd)
  have hcount : (rows.filter (v r < v ·)).length = rank f L.toFinset a := by
    have hmap := hperm.countP_eq (f a < ·)
    rw [List.countP_map, List.countP_map, List.countP_eq_length_filter, List.countP_eq_length_filter] at hmap
    have hrank : rank f L.toFinset a = (L.filter (f a < f ·)).length := by
      rw [rank, ← List.toFinset_card_of_nodup (hL.filter _), List.toFinset_filter]
      simp only [decide_eq_true_eq]
    rw [hrank, hv]
    exact hmap
  rw [mem_take_iff_filter hstrict hr, hcount, mem_top, List.mem_toFinset]
  exact (and_iff_right ha).symm

end lists

/-! ### Lists with the largest values -/

/-- `T` lists `n` elements of `l`, each once and the largest first, or all if there are fewer; what it leaves
out is not larger. -/
structure Ranks (f : α → β) (l T : List α) [DecidableEq α] (n : ℕ) : Prop where
  nodup : T.Nodup
  subset : ∀ a ∈ T, a ∈ l
  length : T.length = min n l.dedup.length
  sorted : T.Pairwise fun a b => f b ≤ f a
  above : ∀ a ∈ T, ∀ b ∈ l, b ∉ T → f b ≤ f a

theorem Ranks.take [DecidableEq α] {l order : List α} (hperm : order.Perm l.dedup)
    (hsorted : order.Pairwise fun a b => f b ≤ f a) (n : ℕ) : Ranks f l (order.take n) n where
  nodup := (hperm.nodup_iff.2 (List.nodup_dedup l)).sublist (List.take_sublist n order)
  subset a ha := List.mem_dedup.1 (hperm.mem_iff.1 (List.mem_of_mem_take ha))
  length := by rw [List.length_take, hperm.length_eq]
  sorted := hsorted.sublist (List.take_sublist n order)
  above a ha b hb hno := by
    rw [← List.take_append_drop n order, List.pairwise_append] at hsorted
    have hmem := hperm.mem_iff.2 (List.mem_dedup.2 hb)
    rw [← List.take_append_drop n order, List.mem_append] at hmem
    exact hsorted.2.2 a ha b (hmem.resolve_left hno)

end Lib
