import Mathlib.Data.List.Find
import PerunProfiler.Moved

/-!
# The re-keying loop of `MovedReferences`

The loop goes through `tmp_map` in the order of the old addresses. A record that is put where the
key is taken is dropped, and so is a record whose target is its own address.
-/

namespace Perun
open Lib

/-- No record is held under two addresses. -/
def OneAddress (m : Map Ptr) : Prop := ∀ (k k' : Nat) (p : Ptr), m[k]? = some p → m[k']? = some p → k = k'

section rekeyEntry
variable {m m' : Map Ptr} {L : List (Nat × Nat)} {k t a : Nat} {p : Ptr}

theorem rekeyEntry_ok (hk : m[k]? = some p) :
    rekeyEntry m (k, t) = .ok (((m.erase k).insertIfNew t p).erase k) := by
  simp only [rekeyEntry, hk]

theorem getElem?_rekeyEntry (hk : m[k]? = some p) (h : rekeyEntry m (k, t) = .ok m') :
    m'[a]? = if a = k then none else if a = t ∧ m[t]? = none then some p else m[a]? := by
  rw [rekeyEntry_ok hk, Except.ok.injEq] at h
  rw [← h, Std.ExtTreeMap.getElem?_erase, Std.ExtTreeMap.getElem?_insertIfNew]
  by_cases hak : a = k
  · simp [hak]
  · have hka : ¬ k = a := fun e => hak e.symm
    by_cases hat : a = t
    · subst hat
      by_cases ha : a ∈ m <;> simp [hak, hka, ha]
    · have hta : ¬ t = a := fun e => hat e.symm
      simp [hak, hka, hat, hta, Std.ExtTreeMap.getElem?_erase]

/-- What the loop leaves under an address: the record that was there and does not move, or the first
one to come for which the address is vacant. -/
theorem run_rekeyEntry (hs : L.Pairwise fun a b => a.1 < b.1) (hkeys : ∀ e ∈ L, e.1 ∈ m) :
    ∃ m', run rekeyEntry m L = .ok m' ∧ ∀ a : Nat,
      m'[a]? = if a ∈ m ∧ a ∉ L.map Prod.fst then m[a]? else
        (L.find? fun e => decide (e.2 = a ∧ (a ∈ m → a ∈ L.map Prod.fst ∧ a < e.1))).bind fun e => m[e.1]? := by
  induction L generalizing m with
  | nil =>
    refine ⟨m, rfl, fun a => ?_⟩
    by_cases ha : a ∈ m <;> simp [ha]
  | cons e L ih =>
    obtain ⟨k, t⟩ := e
    obtain ⟨hk, hs⟩ := List.pairwise_cons.1 hs
    obtain ⟨p, hp⟩ : ∃ p, m[k]? = some p :=
      Option.isSome_iff_exists.1 (Std.ExtTreeMap.mem_iff_isSome_getElem?.1 (hkeys (k, t) (by simp)))
    obtain ⟨m₁, hstep⟩ : ∃ m₁, rekeyEntry m (k, t) = .ok m₁ := ⟨_, rekeyEntry_ok hp⟩
    have hget := fun a => getElem?_rekeyEntry (a := a) hp hstep
    have hmem : ∀ e ∈ L, e.1 ∈ m := fun e he => hkeys e (List.mem_cons_of_mem _ he)
    have hsome : ∀ {b : Nat}, b ∈ m → m[b]? ≠ none := fun hb hn => by
      rw [Std.ExtTreeMap.mem_iff_isSome_getElem?, hn] at hb
      cases hb
    have hold : ∀ e ∈ L, m₁[e.1]? = m[e.1]? := by
      intro e he
      rw [hget, if_neg (Nat.ne_of_gt (hk e he)), if_neg]
      rintro ⟨het, hn⟩
      exact hsome (hmem e he) (het ▸ hn)
    have hkeys₁ : ∀ e ∈ L, e.1 ∈ m₁ := fun e he => by
      rw [Std.ExtTreeMap.mem_iff_isSome_getElem?, hold e he, ← Std.ExtTreeMap.mem_iff_isSome_getElem?]
      exact hmem e he
    have hbind : ∀ q : Nat × Nat → Bool, (L.find? q).bind (fun e => m₁[e.1]?) = (L.find? q).bind fun e => m[e.1]? :=
      fun q => Option.bind_congr fun e he => hold e (List.mem_of_find?_eq_some he)
    obtain ⟨m', hrun, hm'⟩ := ih hs hkeys₁
    refine ⟨m', run_cons.2 ⟨m₁, hstep, hrun⟩, fun a => ?_⟩
    rw [hm', hbind, List.map_cons]
    by_cases hak : a = k
    · subst hak
      have hno : a ∉ m₁ := by rw [Std.ExtTreeMap.mem_iff_isSome_getElem?, hget]; simp
      have ham : a ∈ m := hkeys (a, t) (by simp)
      rw [if_neg fun hc => hno hc.1, if_neg fun hc => hc.2 List.mem_cons_self,
        List.find?_cons_of_neg (by simp [ham])]
      refine congrArg (Option.bind · _) (List.find?_congr fun e he => ?_)
      simp [hno, hk e he]
    by_cases hat : a = t ∧ a ∉ m
    · obtain ⟨rfl, ham⟩ := hat
      have haL : a ∉ L.map Prod.fst := fun hm => by
        obtain ⟨e, he, rfl⟩ := List.mem_map.1 hm
        exact ham (hmem e he)
      have hma : m₁[a]? = some p := by
        rw [hget, if_neg hak, if_pos ⟨rfl, Std.ExtTreeMap.getElem?_eq_none ham⟩]
      rw [if_pos ⟨Std.ExtTreeMap.mem_iff_isSome_getElem?.2 (by simp [hma]), haL⟩, if_neg fun hc => ham hc.1,
        List.find?_cons_of_pos (by simp [ham]), hma, Option.bind_some, hp]
    · have hsame : m₁[a]? = m[a]? := by
        rw [hget, if_neg hak, if_neg]
        rintro ⟨rfl, hn⟩
        exact hat ⟨rfl, fun ha => hsome ha hn⟩
      have hin : a ∈ m₁ ↔ a ∈ m := by
        rw [Std.ExtTreeMap.mem_iff_isSome_getElem?, Std.ExtTreeMap.mem_iff_isSome_getElem?, hsame]
      -- the first move does not end at `a`: it is taken, and what is there moves later if at all
      rw [List.find?_cons_of_neg]
      · simp only [hin, hsame, List.mem_cons, hak, false_or]
      · simp only [decide_eq_true_eq, List.mem_cons, hak, false_or]
        rintro ⟨rfl, hvac⟩
        obtain ⟨hL, hlt⟩ := hvac (by_contra fun ham => hat ⟨rfl, ham⟩)
        obtain ⟨e, he, rfl⟩ := List.mem_map.1 hL
        exact Nat.lt_asymm hlt (hk e he)

end rekeyEntry

section rekey
variable {m m' : Map Ptr} {tmpMap : Map Nat} {objectsDeAlloc : List Ptr}

/-- When the turn of `k` comes, the address `a` is free. -/
def Vacant (m : Map Ptr) (tmpMap : Map Nat) (k a : Nat) : Prop := a ∈ m → a ∈ tmpMap ∧ a < k

/-- The loop does not fail. A record that has no target stays; of those with one target the first to
find it vacant gets it. -/
theorem rekey_get (hkeys : ∀ k ∈ tmpMap, k ∈ m) :
    ∃ m', rekey tmpMap m = .ok m' ∧ ∀ (a : Nat) (p : Ptr), m'[a]? = some p ↔
      (a ∉ tmpMap ∧ m[a]? = some p) ∨
      ∃ k : Nat, tmpMap[k]? = some a ∧ m[k]? = some p ∧ Vacant m tmpMap k a ∧
        ∀ k' < k, tmpMap[k']? = some a → ¬ Vacant m tmpMap k' a := by
  have hfst : ∀ {k : Nat}, k ∈ tmpMap.toList.map Prod.fst ↔ k ∈ tmpMap := by
    intro k
    rw [Std.ExtTreeMap.map_fst_toList_eq_keys, Std.ExtTreeMap.mem_keys]
  obtain ⟨m', hrun, hget⟩ := run_rekeyEntry tmpMap.toList_sorted fun e he =>
    hkeys e.1 (hfst.1 (List.mem_map_of_mem he))
  refine ⟨m', hrun, fun a p => ?_⟩
  have hmem : m[a]? = some p → a ∈ m := fun h => by
    rw [Std.ExtTreeMap.mem_iff_isSome_getElem?, h]
    rfl
  rw [hget]
  simp only [hfst]
  by_cases hstay : a ∈ m ∧ a ∉ tmpMap
  · rw [if_pos hstay]
    refine ⟨fun h => .inl ⟨hstay.2, h⟩, ?_⟩
    rintro (⟨-, h⟩ | ⟨k, -, -, hvacant, -⟩)
    · exact h
    · exact absurd (hvacant hstay.1).1 hstay.2
  · rw [if_neg hstay, Option.bind_eq_some_iff]
    constructor
    · rintro ⟨⟨k, b⟩, hfind, hp⟩
      obtain ⟨hk, hq, hleast⟩ := tmpMap.find?_toList.1 hfind
      obtain ⟨rfl, hvacant⟩ := of_decide_eq_true hq
      exact .inr ⟨k, hk, hp, hvacant, fun k' hlt hk' hv => of_decide_eq_false (hleast k' hlt b hk') ⟨rfl, hv⟩⟩
    · rintro (⟨hno, h⟩ | ⟨k, hk, hp, hvacant, hleast⟩)
      · exact absurd ⟨hmem h, hno⟩ hstay
      · refine ⟨(k, a), tmpMap.find?_toList.2 ⟨hk, decide_eq_true ⟨rfl, hvacant⟩, fun k' hlt b hb => ?_⟩, hp⟩
        refine decide_eq_false ?_
        rintro ⟨rfl, hv⟩
        exact hleast k' hlt hb hv

theorem rekey_oneAddress (hkeys : ∀ k ∈ tmpMap, k ∈ m) (hone : OneAddress m) (h : rekey tmpMap m = .ok m') :
    (∀ (a : Nat) (p : Ptr), m'[a]? = some p → ∃ b : Nat, m[b]? = some p) ∧ OneAddress m' := by
  obtain ⟨m₁, hok, hget⟩ := rekey_get hkeys
  obtain rfl : m' = m₁ := Except.ok.inj (h.symm.trans hok)
  refine ⟨fun a p ha => ?_, fun a b p ha hb => ?_⟩
  · rcases (hget a p).1 ha with ⟨-, hp⟩ | ⟨k, -, hp, -⟩
    · exact ⟨a, hp⟩
    · exact ⟨k, hp⟩
  · have hmem : ∀ {k t : Nat}, tmpMap[k]? = some t → k ∈ tmpMap := fun hk => by
      rw [Std.ExtTreeMap.mem_iff_isSome_getElem?, hk]
      rfl
    rcases (hget a p).1 ha with ⟨han, hpa⟩ | ⟨k, hka, hpk, -⟩ <;>
      rcases (hget b p).1 hb with ⟨hbn, hpb⟩ | ⟨k', hkb, hpk', -⟩
    · exact hone a b p hpa hpb
    · exact absurd (hmem hkb) (hone a k' p hpa hpk' ▸ han)
    · exact absurd (hmem hka) (hone b k p hpb hpk ▸ hbn)
    · obtain rfl := hone k k' p hpk hpk'
      exact Option.some.inj (hka.symm.trans hkb)

/-! ### When the loop loses nothing -/

/-- Every relocated record is at its target and every record is still held. -/
structure Rekeyed (m : Map Ptr) (tmpMap : Map Nat) (objectsDeAlloc : List Ptr) (m' : Map Ptr) : Prop where
  relocated : ∀ k t : Nat, tmpMap[k]? = some t → m'[t]? = m[k]?
  held : ∀ p, (p ∈ objectsDeAlloc ∨ ∃ k : Nat, m[k]? = some p) → p ∈ objectsDeAlloc ∨ ∃ k : Nat, m'[k]? = some p

/-- No target is its own source, and a target that is tracked is a source of a smaller address. -/
def Clear (m : Map Ptr) (tmpMap : Map Nat) : Prop :=
  ∀ k t : Nat, tmpMap[k]? = some t → t ≠ k ∧ (t ∈ m → t ∈ tmpMap ∧ t < k)

/-- The loop does not fail; it loses nothing if the targets are clear, and only then when no record
has two addresses. -/
theorem rekey_rekeyed_iff (hkeys : ∀ k ∈ tmpMap, k ∈ m)
    (htargets : ∀ k k' t : Nat, tmpMap[k]? = some t → tmpMap[k']? = some t → k = k') :
    ∃ m', rekey tmpMap m = .ok m' ∧ (Clear m tmpMap → Rekeyed m tmpMap objectsDeAlloc m') ∧
      (OneAddress m → Rekeyed m tmpMap objectsDeAlloc m' → Clear m tmpMap) := by
  obtain ⟨m', hrun, hget⟩ := rekey_get hkeys
  have hsome : ∀ {k t : Nat}, tmpMap[k]? = some t → k ∈ tmpMap := fun hk => by
    rw [Std.ExtTreeMap.mem_iff_isSome_getElem?, hk]
    rfl
  have hsource : ∀ {k t : Nat}, tmpMap[k]? = some t → ∃ p, m[k]? = some p := fun h =>
    Option.isSome_iff_exists.1 (Std.ExtTreeMap.mem_iff_isSome_getElem?.1 (hkeys _ (hsome h)))
  refine ⟨m', hrun, fun hclear => ?_, fun hone h k t hkt => ?_⟩
  · have harrive : ∀ (k t : Nat) (p : Ptr), tmpMap[k]? = some t → m[k]? = some p → m'[t]? = some p := by
      refine fun k t p hkt hp => (hget t p).2 (.inr ⟨k, hkt, hp, (hclear k t hkt).2, fun k' hlt hk' => ?_⟩)
      exact absurd (htargets k k' t hkt hk') (Nat.ne_of_gt hlt)
    refine ⟨fun k t hkt => ?_, fun p hp => hp.imp_right ?_⟩
    · obtain ⟨p, hp⟩ := hsource hkt
      rw [hp, harrive k t p hkt hp]
    · rintro ⟨k, hk⟩
      by_cases hkt : k ∈ tmpMap
      · obtain ⟨t, ht⟩ := Option.isSome_iff_exists.1 (Std.ExtTreeMap.mem_iff_isSome_getElem?.1 hkt)
        exact ⟨t, harrive k t p ht hk⟩
      · exact ⟨k, (hget k p).2 (.inl ⟨hkt, hk⟩)⟩
  · obtain ⟨p, hp⟩ := hsource hkt
    rcases (hget t p).1 ((h.relocated k t hkt).trans hp) with ⟨hno, ht⟩ | ⟨k', -, hp', hvacant, -⟩
    · exact absurd (hsome hkt) (hone t k p ht hp ▸ hno)
    · obtain rfl := hone k k' p hp hp'
      refine ⟨fun htk => ?_, hvacant⟩
      subst htk
      exact Nat.lt_irrefl _ (hvacant (hkeys _ (hsome hkt))).2

end rekey

/-- The object at 100 moves to 80, the one at 120 to 100, which is then free. -/
theorem rekey_rekeyed_iff_slide :
    ∃ m', rekey (((∅ : Map Nat).insert 100 80).insert 120 100) (((∅ : Map Ptr).insert 100 0).insert 120 1) = .ok m' ∧
      (Clear (((∅ : Map Ptr).insert 100 0).insert 120 1) (((∅ : Map Nat).insert 100 80).insert 120 100) →
        Rekeyed (((∅ : Map Ptr).insert 100 0).insert 120 1) (((∅ : Map Nat).insert 100 80).insert 120 100) [] m') ∧
      (OneAddress (((∅ : Map Ptr).insert 100 0).insert 120 1) →
        Rekeyed (((∅ : Map Ptr).insert 100 0).insert 120 1) (((∅ : Map Nat).insert 100 80).insert 120 100) [] m' →
        Clear (((∅ : Map Ptr).insert 100 0).insert 120 1) (((∅ : Map Nat).insert 100 80).insert 120 100)) := by
  refine rekey_rekeyed_iff (fun k hk => ?_) fun k k' t hk hk' => ?_
  · simpa using hk
  · simp only [Std.ExtTreeMap.getElem?_insert, Std.ExtTreeMap.getElem?_empty, Nat.compare_eq_eq] at hk hk'
    grind

/-- The object at 100 is reported in a range that did not move: its record is lost. -/
theorem rekey_same_not_rekeyed :
    ¬ ∃ m', rekey ((∅ : Map Nat).insert 100 100) ((∅ : Map Ptr).insert 100 0) = .ok m' ∧
      Rekeyed ((∅ : Map Ptr).insert 100 0) ((∅ : Map Nat).insert 100 100) [] m' := by
  rintro ⟨m', hrun, hrel⟩
  have hempty : rekey ((∅ : Map Nat).insert 100 100) ((∅ : Map Ptr).insert 100 0) = .ok ∅ := by decide
  rw [hempty, Except.ok.injEq] at hrun
  have hat := hrel.relocated 100 100 (by decide)
  rw [← hrun] at hat
  simp at hat

end Perun
