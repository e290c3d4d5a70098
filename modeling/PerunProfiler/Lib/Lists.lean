import Mathlib.Algebra.BigOperators.Group.List.Basic
import Mathlib.Data.List.Forall2
import Mathlib.Data.List.Induction

/-! # Lists: places, and the last value of a key -/

namespace Lib

section places
variable {α β : Type}

/-- A place in a list with one more element is the last one or a place in the list. -/
theorem snoc_eq_append_cons {l l₁ l₂ : List α} {a b : α} (h : l ++ [a] = l₁ ++ b :: l₂) :
    (l₁ = l ∧ b = a) ∨ ∃ l₃, l = l₁ ++ b :: l₃ := by
  rcases List.eq_nil_or_concat l₂ with rfl | ⟨l₃, a', rfl⟩
  · obtain ⟨hl, ha⟩ := List.append_inj' h rfl
    exact .inl ⟨hl.symm, (List.singleton_inj.1 ha).symm⟩
  · rw [List.concat_eq_append, ← List.cons_append, ← List.append_assoc] at h
    exact .inr ⟨l₃, (List.append_inj' h rfl).1⟩

theorem getElem?_snoc (l : List α) (a : α) (i : Nat) :
    (l ++ [a])[i]? = if i = l.length then some a else l[i]? := by
  by_cases hi : i = l.length
  · rw [if_pos hi, hi, List.getElem?_concat_length]
  · rw [if_neg hi, List.getElem?_append]
    split
    · rfl
    · next hlt =>
      rw [List.getElem?_eq_none (by simp; omega), List.getElem?_eq_none (by omega)]

theorem filterMap_range (l : List α) (f : α → β) :
    (List.range l.length).filterMap (fun i => l[i]?.map f) = l.map f := by
  induction l using List.reverseRecOn with
  | nil => rfl
  | append_singleton l a ih =>
    rw [List.length_append, List.length_singleton, List.range_succ, List.filterMap_append, List.map_append, ← ih]
    congr 1
    · refine List.filterMap_congr fun i hi => ?_
      rw [getElem?_snoc, if_neg (Nat.ne_of_lt (List.mem_range.1 hi))]
    · simp

/-- The place of an element among those that `f` keeps. -/
theorem filterMap_split {f : α → Option β} {l : List α} {i : Nat} {b : β} (h : (l.filterMap f)[i]? = some b) :
    ∃ l₁ a l₂, l = l₁ ++ a :: l₂ ∧ f a = some b ∧ (l₁.filterMap f).length = i := by
  induction l generalizing i with
  | nil => simp at h
  | cons a l ih =>
    cases ha : f a with
    | none =>
      rw [List.filterMap_cons_none ha] at h
      obtain ⟨l₁, a', l₂, rfl, hf, hi⟩ := ih h
      exact ⟨a :: l₁, a', l₂, rfl, hf, by rw [List.filterMap_cons_none ha, hi]⟩
    | some b' =>
      rw [List.filterMap_cons_some ha] at h
      cases i with
      | zero => exact ⟨[], a, l, rfl, ha.trans h, rfl⟩
      | succ i =>
        obtain ⟨l₁, a', l₂, rfl, hf, hi⟩ := ih h
        exact ⟨a :: l₁, a', l₂, rfl, hf, by rw [List.filterMap_cons_some ha, List.length_cons, hi]⟩

theorem forall₂_filterMap {R : α → β → Prop} {f : α → Option β} {l : List α}
    (h : ∀ a ∈ l, ∃ b, f a = some b ∧ R a b) : List.Forall₂ R l (l.filterMap f) := by
  induction l with
  | nil => exact .nil
  | cons a l ih =>
    obtain ⟨b, hf, hR⟩ := h a (List.mem_cons_self ..)
    rw [List.filterMap_cons_some hf]
    exact .cons hR (ih fun a ha => h a (List.mem_cons_of_mem _ ha))

/-- The element that is numbered `i`, when the elements are numbered off. -/
theorem filter_eq_getElem? {f : α → Nat} {l : List α} (h : l.map f = List.range l.length) (i : Nat) :
    l.filter (f · = i) = l[i]?.toList := by
  induction l using List.reverseRecOn with
  | nil => rfl
  | append_singleton l a ih =>
    rw [List.length_append, List.length_singleton, List.range_succ, List.map_append, List.map_singleton] at h
    obtain ⟨hl, ha⟩ := List.append_inj' h rfl
    have ha : f a = l.length := List.singleton_inj.1 ha
    rw [List.filter_append, ih hl, getElem?_snoc]
    by_cases hi : i = l.length
    · rw [if_pos hi, hi, List.getElem?_eq_none (Nat.le_refl _), List.filter_singleton, ha]
      simp
    · rw [if_neg hi, List.filter_singleton, ha]
      simp [Ne.symm hi]

/-- The first value that is there, when there is the same everywhere. -/
theorem findSome?_const {f : α → Option β} {l : List α} {b : Option β} (h : ∀ a ∈ l, f a = b) (hne : l ≠ []) :
    l.findSome? f = b := by
  cases b with
  | none => exact List.findSome?_eq_none_iff.2 h
  | some b =>
    obtain ⟨a, l, rfl⟩ := List.exists_cons_of_ne_nil hne
    rw [List.findSome?_cons, h a List.mem_cons_self]

/-- The elements of a list that is some order of images. -/
theorem exists_perm_map {f : α → β} {l : List β} {k : List α} (h : l.Perm (k.map f)) :
    ∃ k' : List α, k'.Perm k ∧ l = k'.map f := by
  have himage : List.Forall₂ (fun b a => b = f a) (k.map f) k :=
    List.forall₂_map_left_iff.2 (List.forall₂_same.2 fun _ _ => rfl)
  obtain ⟨k', hk', hperm⟩ := List.perm_comp_forall₂ h himage
  refine ⟨k', hperm, ?_⟩
  have heq := List.forall₂_map_right_iff.2 hk'
  exact List.forall₂_eq_eq_eq ▸ heq

end places

section groups
variable {α κ M : Type} [DecidableEq κ] [AddCommMonoid M]

/-- The sums of some groups add up to the sum over what is in one of them. -/
theorem sum_groups (key : α → κ) (f : α → M) (l : List α) {ks : List κ} (h : ks.Nodup) :
    (ks.map fun k => ((l.filter (key · = k)).map f).sum).sum = ((l.filter (key · ∈ ks)).map f).sum := by
  induction ks with
  | nil => simp
  | cons k ks ih =>
    rw [List.nodup_cons] at h
    obtain ⟨hk, h⟩ := h
    have hsplit := List.sum_map_filter_add_sum_map_filter_not (fun a => key a = k) f (l.filter (key · ∈ k :: ks))
    rw [List.filter_filter, List.filter_filter] at hsplit
    have hfirst : l.filter (fun a => decide (key a = k) && decide (key a ∈ k :: ks)) = l.filter (key · = k) :=
      List.filter_congr fun a _ => by grind
    have hrest : l.filter (fun a => decide (¬ key a = k) && decide (key a ∈ k :: ks)) = l.filter (key · ∈ ks) :=
      List.filter_congr fun a _ => by grind
    rw [hfirst, hrest] at hsplit
    rw [List.map_cons, List.sum_cons, ih h, hsplit]

end groups

section keyed
variable {κ ν : Type} [DecidableEq κ]

/-- The values of a key, in order. -/
def ofKey (k : κ) (l : List (κ × ν)) : List ν := l.filterMap fun x => if x.1 = k then some x.2 else none

theorem count_ofKey [DecidableEq ν] (k : κ) (v : ν) (l : List (κ × ν)) : (ofKey k l).count v = l.count (k, v) := by
  induction l with
  | nil => rfl
  | cons x l ih =>
    obtain ⟨k', v'⟩ := x
    rw [List.count_cons, ← ih, ofKey, List.filterMap_cons]
    by_cases hk : k' = k
    · simp [ofKey, hk, List.count_cons]
    · simp [ofKey, hk]

/-- Lists with the same values of every key. -/
theorem perm_of_ofKey {l l' : List (κ × ν)} (h : ∀ k, ofKey k l = ofKey k l') : l.Perm l' := by
  classical
  refine List.perm_iff_count.2 fun x => ?_
  rw [← Prod.eta x, ← count_ofKey, h, count_ofKey]

end keyed

section last
variable {κ ν : Type} [DecidableEq κ]

/-- The value that the key `k` got last. -/
def lastAt (l : List (κ × ν)) (k : κ) : Option ν := (l.filter (·.1 = k)).getLast?.map Prod.snd

theorem lastAt_snoc (l : List (κ × ν)) (k' k : κ) (v : ν) :
    lastAt (l ++ [(k', v)]) k = if k' = k then some v else lastAt l k := by
  rw [lastAt, List.filter_append]
  by_cases hk : k' = k
  · rw [if_pos hk, List.filter_cons_of_pos (by simpa using hk), List.getLast?_append]
    rfl
  · rw [if_neg hk, List.filter_cons_of_neg (by simpa using hk), List.filter_nil, List.append_nil]
    rfl

theorem lastAt_append (l₁ l₂ : List (κ × ν)) (k : κ) : lastAt (l₁ ++ l₂) k = (lastAt l₂ k).or (lastAt l₁ k) := by
  rw [lastAt, List.filter_append, List.getLast?_append, Option.map_or]
  rfl

theorem mem_of_lastAt {l : List (κ × ν)} {k : κ} {v : ν} (h : lastAt l k = some v) : (k, v) ∈ l := by
  obtain ⟨⟨k', v'⟩, hlast, rfl⟩ := Option.map_eq_some_iff.1 h
  obtain ⟨hmem, hk⟩ := List.mem_filter.1 (List.mem_of_getLast? hlast)
  cases of_decide_eq_true hk
  exact hmem

theorem lastAt_eq_none {l : List (κ × ν)} {k : κ} : lastAt l k = none ↔ k ∉ l.map Prod.fst := by
  rw [lastAt, Option.map_eq_none_iff, List.getLast?_eq_none_iff, List.filter_eq_nil_iff, List.mem_map]
  constructor
  · rintro h ⟨⟨k', v⟩, hm, rfl⟩
    exact h _ hm (decide_eq_true rfl)
  · rintro h ⟨k', v⟩ hm hk
    exact h ⟨_, hm, of_decide_eq_true hk⟩

theorem lastAt_map {κ' ν' : Type} [DecidableEq κ'] {f : κ → κ'} (hf : Function.Injective f) (v : ν → ν')
    (l : List (κ × ν)) (k : κ) : lastAt (l.map fun e => (f e.1, v e.2)) (f k) = (lastAt l k).map v := by
  induction l using List.reverseRecOn with
  | nil => rfl
  | append_singleton l e ih =>
    obtain ⟨k', x⟩ := e
    rw [List.map_append, List.map_singleton, lastAt_snoc, lastAt_snoc, ih]
    by_cases hk : k' = k
    · rw [if_pos (congrArg f hk), if_pos hk]
      rfl
    · rw [if_neg fun h => hk (hf h), if_neg hk]

end last

/-- Changing the first element with a key, of elements with distinct keys. -/
theorem modify_findIdx? {α κ : Type} [DecidableEq κ] {key : α → κ} {l : List α} (h : (l.map key).Nodup) (k : κ)
    (f : α → α) : (match l.findIdx? fun a => key a = k with
      | some i => l.modify i f
      | none => l) = l.map fun a => if key a = k then f a else a := by
  induction l with
  | nil => rfl
  | cons a l ih =>
    rw [List.map_cons, List.nodup_cons] at h
    rw [List.findIdx?_cons, List.map_cons]
    by_cases ha : key a = k
    · have hrest : l.map (fun b => if key b = k then f b else b) = l := by
        refine (List.map_congr_left fun b hb => if_neg fun hbk => ?_).trans (List.map_id l)
        exact h.1 (ha.trans hbk.symm ▸ List.mem_map_of_mem hb)
      rw [hrest]
      simp [ha]
    · have hl := ih h.2
      simp only [ha, decide_false, Bool.false_eq_true, if_false]
      cases hi : l.findIdx? (fun a => decide (key a = k)) with
      | none =>
        rw [hi] at hl
        simp only [Option.map_none]
        rw [← hl]
      | some i =>
        rw [hi] at hl
        simp only [Option.map_some, List.modify_succ_cons]
        rw [← hl]

section firsts
variable {α β : Type} [BEq α] [LawfulBEq α] [BEq β] [LawfulBEq β]

theorem eraseDups_snoc (l : List α) (a : α) :
    (l ++ [a]).eraseDups = if a ∈ l then l.eraseDups else l.eraseDups ++ [a] := by
  rw [List.eraseDups_append]
  by_cases ha : a ∈ l
  · rw [if_pos ha, show [a].removeAll l = [] by simp [List.removeAll, ha], List.eraseDups_nil, List.append_nil]
  · rw [if_neg ha, show [a].removeAll l = [a] by simp [List.removeAll, ha]]
    rfl

theorem eraseDups_map {f : α → β} (hf : Function.Injective f) (l : List α) :
    (l.map f).eraseDups = l.eraseDups.map f := by
  induction l using List.reverseRecOn with
  | nil => rfl
  | append_singleton l a ih =>
    rw [List.map_append, List.map_singleton, eraseDups_snoc, eraseDups_snoc, ih]
    by_cases ha : a ∈ l
    · rw [if_pos ha, if_pos (List.mem_map_of_mem ha)]
    · rw [if_neg ha, if_neg fun hm => ha ((List.mem_map_of_injective hf).1 hm), List.map_append, List.map_singleton]

theorem nodup_eraseDups (l : List α) : l.eraseDups.Nodup := by
  induction l using List.reverseRecOn with
  | nil => exact .nil
  | append_singleton l a ih =>
    rw [eraseDups_snoc]
    by_cases ha : a ∈ l
    · rwa [if_pos ha]
    · rw [if_neg ha, List.nodup_append]
      refine ⟨ih, List.pairwise_singleton _ a, fun b hb c hc => ?_⟩
      rw [List.mem_singleton.1 hc]
      rintro rfl
      exact ha (List.mem_eraseDups.1 hb)

theorem eraseDups_append {l₁ l₂ : List α} (h : ∀ a ∈ l₂, a ∉ l₁) :
    (l₁ ++ l₂).eraseDups = l₁.eraseDups ++ l₂.eraseDups := by
  induction l₂ using List.reverseRecOn with
  | nil => rw [List.append_nil, List.eraseDups_nil, List.append_nil]
  | append_singleton l₂ a ih =>
    rw [← List.append_assoc, eraseDups_snoc, eraseDups_snoc, ih fun b hb => h b (List.mem_append_left _ hb)]
    have ha : a ∈ l₁ ++ l₂ ↔ a ∈ l₂ := by
      rw [List.mem_append]
      exact or_iff_right (h a (by simp))
    by_cases hl : a ∈ l₂
    · rw [if_pos (ha.2 hl), if_pos hl]
    · rw [if_neg (mt ha.1 hl), if_neg hl, List.append_assoc]

end firsts

/-- The numbers below `n` that are not in `L`, and those that are. -/
theorem length_filter_range {L : List Nat} {n : Nat} (hnd : L.Nodup) (hlt : ∀ p ∈ L, p < n) :
    ((List.range n).filter (· ∉ L)).length + L.length = n := by
  have hperm : L.Perm ((List.range n).filter (· ∈ L)) := by
    refine (List.perm_ext_iff_of_nodup hnd (List.nodup_range.filter _)).2 fun p => ?_
    rw [List.mem_filter, List.mem_range, decide_eq_true_iff]
    exact ⟨fun hp => ⟨hlt p hp, hp⟩, And.right⟩
  have hsplit := (List.filter_append_perm (fun p => decide (p ∈ L)) (List.range n)).length_eq
  rw [List.length_append, List.length_range, ← hperm.length_eq, Nat.add_comm] at hsplit
  simpa only [decide_not] using hsplit

end Lib
