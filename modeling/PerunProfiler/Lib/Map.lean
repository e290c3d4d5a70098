import Mathlib.Data.List.Dedup
import Mathlib.Data.List.Sort
import PerunProfiler.Lib.Run

/-!
# Ordered maps with numbers as keys, and the bounded scan over one

A map is `Std.ExtTreeMap`. `scan` is the loop over the entries in key order that acts on the keys of
an interval and breaks at its upper end.
-/

namespace Lib

abbrev Map (α : Type) := Std.ExtTreeMap Nat α

variable {α σ φ : Type}

theorem Map.toList_sorted (m : Map α) : m.toList.Pairwise fun a b => a.1 < b.1 := by
  have h := m.ordered_keys_toList
  simpa [Nat.compare_eq_lt] using h

@[simp] theorem Map.toList_empty : (∅ : Map α).toList = [] := rfl

theorem Map.nodup_keys (m : Map α) : (m.toList.map Prod.fst).Nodup :=
  List.pairwise_map.2 (m.toList_sorted.imp fun h => Nat.ne_of_lt h)

theorem Map.filter_key (m : Map α) (k : Nat) :
    m.toList.filter (fun e => e.1 = k) = (m[k]?.map fun a => (k, a)).toList := by
  have hnd : (m.toList.filter fun e => e.1 = k).Nodup := (m.nodup_keys.of_map _).filter _
  have hmem : ∀ e, e ∈ m.toList.filter (fun e => e.1 = k) ↔ e.1 = k ∧ m[e.1]? = some e.2 := by
    intro e
    rw [List.mem_filter, show e = (e.1, e.2) from rfl, Std.ExtTreeMap.mem_toList_iff_getElem?_eq_some]
    simp [and_comm]
  cases hk : m[k]? with
  | none =>
    refine List.eq_nil_iff_forall_not_mem.2 fun e he => ?_
    obtain ⟨h1, h2⟩ := (hmem e).1 he
    rw [h1, hk] at h2
    cases h2
  | some a =>
    refine List.perm_singleton.1 ((List.perm_ext_iff_of_nodup hnd (List.nodup_singleton _)).2 fun e => ?_)
    obtain ⟨k', b⟩ := e
    rw [hmem, List.mem_singleton, Prod.mk.injEq]
    constructor
    · rintro ⟨rfl, hb⟩
      exact ⟨rfl, Option.some.inj (hb.symm.trans hk)⟩
    · rintro ⟨rfl, rfl⟩
      exact ⟨rfl, hk⟩

/-- Maps with the same keys list them alike. -/
theorem Map.keys_congr {β : Type} {m : Map α} {m' : Map β} (h : ∀ k, m.contains k = m'.contains k) :
    m.toList.map Prod.fst = m'.toList.map Prod.fst := by
  have hmem : ∀ {γ : Type} (m : Map γ) (k : Nat), k ∈ m.toList.map Prod.fst ↔ m.contains k = true := by
    intro γ m k
    rw [Std.ExtTreeMap.map_fst_toList_eq_keys, Std.ExtTreeMap.mem_keys, Std.ExtTreeMap.contains_iff_mem]
  have hsorted : ∀ {γ : Type} (m : Map γ), (m.toList.map Prod.fst).Pairwise (· < ·) := fun m =>
    List.pairwise_map.2 m.toList_sorted
  refine List.Perm.eq_of_pairwise (fun a b _ _ hab hba => absurd hab (Nat.lt_asymm hba)) (hsorted m) (hsorted m') ?_
  refine (List.perm_ext_iff_of_nodup m.nodup_keys m'.nodup_keys).2 fun k => ?_
  rw [hmem, hmem, h]

theorem Map.filterMap_toList {β : Type} (m : Map α) (f : α → Option β) :
    m.toList.filterMap (fun e => f e.2) = (m.toList.map Prod.fst).filterMap fun k => m[k]?.bind f := by
  rw [List.filterMap_map]
  refine List.filterMap_congr fun e he => ?_
  rw [Function.comp_apply, Std.ExtTreeMap.mem_toList_iff_getElem?_eq_some.1 (show (e.1, e.2) ∈ m.toList from he),
    Option.bind_some]

/-- The first entry with `q` is the one with the least key. -/
theorem Map.find?_toList (m : Map α) {q : Nat × α → Bool} {k : Nat} {a : α} :
    m.toList.find? q = some (k, a) ↔
      m[k]? = some a ∧ q (k, a) = true ∧ ∀ k' < k, ∀ b, m[k']? = some b → q (k', b) = false := by
  have hsorted := m.toList_sorted
  have hget : ∀ {k : Nat} {a : α}, (k, a) ∈ m.toList ↔ m[k]? = some a :=
    Std.ExtTreeMap.mem_toList_iff_getElem?_eq_some
  constructor
  · intro h
    obtain ⟨hq, l, r, hlr, hl⟩ := List.find?_eq_some_iff_append.1 h
    refine ⟨hget.1 (List.mem_of_find?_eq_some h), hq, fun k' hlt b hb => ?_⟩
    rw [hlr, List.pairwise_append, List.pairwise_cons] at hsorted
    have hmem := hget.2 hb
    rw [hlr, List.mem_append, List.mem_cons] at hmem
    rcases hmem with hmem | heq | hmem
    · simpa using hl _ hmem
    · exact absurd (congrArg Prod.fst heq) (Nat.ne_of_lt hlt)
    · exact absurd (hsorted.2.1.1 _ hmem) (Nat.lt_asymm hlt)
  · rintro ⟨hk, hq, hleast⟩
    obtain ⟨l, r, hlr⟩ := List.append_of_mem (hget.2 hk)
    rw [List.find?_eq_some_iff_append]
    refine ⟨hq, l, r, hlr, fun e he => ?_⟩
    rw [hlr, List.pairwise_append] at hsorted
    have hlt := hsorted.2.2 e he (k, a) (by simp)
    simpa using hleast e.1 hlt e.2 (hget.1 (by rw [hlr]; exact List.mem_append_left _ he))

/-- Acts on the entries with `lo ≤ key < hi`, in order, and stops after the first key from `hi` on. -/
def scan (lo hi : Nat) (act : σ → Nat × α → Except φ σ) : List (Nat × α) → σ → Except φ σ
  | [], s => .ok s
  | (key, value) :: es, s =>
    match if lo ≤ key ∧ key < hi then act s (key, value) else .ok s with
    | .error f => .error f
    | .ok s => if key ≥ hi then .ok s else scan lo hi act es s

/-- On entries in key order the break loses nothing. -/
theorem scan_eq_run {lo hi : Nat} {act : σ → Nat × α → Except φ σ} {es : List (Nat × α)} {s : σ}
    (h : es.Pairwise fun a b => a.1 < b.1) :
    scan lo hi act es s = run act s (es.filter fun e => lo ≤ e.1 ∧ e.1 < hi) := by
  induction es generalizing s with
  | nil => rfl
  | cons e es ih =>
    obtain ⟨key, value⟩ := e
    obtain ⟨hkey, hes⟩ := List.pairwise_cons.1 h
    by_cases hhi : key < hi
    · by_cases hlo : lo ≤ key
      · simp only [scan, hlo, hhi, and_self, if_true, decide_true, List.filter_cons, run]
        cases act s (key, value) with
        | error f => rfl
        | ok s => simpa [Nat.not_le.2 hhi] using ih hes
      · simp only [scan, hlo, hhi, false_and, if_false, decide_false, List.filter_cons]
        simpa [Nat.not_le.2 hhi] using ih hes
    · have hnil : es.filter (fun e => lo ≤ e.1 ∧ e.1 < hi) = [] := by
        refine List.filter_eq_nil_iff.2 fun e he => ?_
        have := hkey e he
        simp only at this
        simp only [decide_eq_true_eq]
        omega
      rw [List.filter_cons_of_neg (by simp [hhi]), hnil]
      simp [scan, hhi, Nat.not_lt.1 hhi]

/-! ### Scans one after the other -/

section scanned
variable {ι : Type} {m : Map α} {lo hi : ι → Nat} {is : List ι}

/-- The entries the scans of the intervals `is` act on, in order. -/
def scanned (m : Map α) (lo hi : ι → Nat) (is : List ι) : List (ι × Nat × α) :=
  is.flatMap fun i => (m.toList.filter fun e => lo i ≤ e.1 ∧ e.1 < hi i).map (i, ·)

theorem run_scan (act : ι → σ → Nat × α → Except φ σ) (s : σ) :
    run (fun s i => scan (lo i) (hi i) (act i) m.toList s) s is =
      run (fun s (x : ι × Nat × α) => act x.1 s x.2) s (scanned m lo hi is) := by
  simp only [scan_eq_run m.toList_sorted]
  exact run_run act (fun i => m.toList.filter fun e => lo i ≤ e.1 ∧ e.1 < hi i) is

theorem mem_scanned {i : ι} {k : Nat} {a : α} :
    (i, k, a) ∈ scanned m lo hi is ↔ i ∈ is ∧ m[k]? = some a ∧ lo i ≤ k ∧ k < hi i := by
  simp only [scanned, List.mem_flatMap, List.mem_map, List.mem_filter, decide_eq_true_eq, Prod.mk.injEq]
  constructor
  · rintro ⟨i', hi', e, ⟨he, hin⟩, rfl, rfl⟩
    exact ⟨hi', Std.ExtTreeMap.mem_toList_iff_getElem?_eq_some.1 he, hin⟩
  · rintro ⟨hi', hk, hin⟩
    exact ⟨i, hi', (k, a), ⟨Std.ExtTreeMap.mem_toList_iff_getElem?_eq_some.2 hk, hin⟩, rfl, rfl⟩

theorem scanned_filter_key (k : Nat) : (scanned m lo hi is).filter (fun x => x.2.1 = k) =
    is.filterMap fun i => if lo i ≤ k ∧ k < hi i then m[k]?.map fun a => (i, k, a) else none := by
  have hone : ∀ i, ((m.toList.filter fun e => lo i ≤ e.1 ∧ e.1 < hi i).map (i, ·)).filter (fun x => x.2.1 = k) =
      (if lo i ≤ k ∧ k < hi i then m[k]?.map fun a => (i, k, a) else none).toList := by
    intro i
    rw [List.filter_map, List.filter_filter]
    have hcomm : (m.toList.filter fun e => ((fun x : ι × Nat × α => decide (x.2.1 = k)) ∘ (i, ·)) e &&
        decide (lo i ≤ e.1 ∧ e.1 < hi i)) =
        (m.toList.filter fun e => e.1 = k).filter fun _ => lo i ≤ k ∧ k < hi i := by
      rw [List.filter_filter]
      refine List.filter_congr fun e _ => ?_
      by_cases he : e.1 = k <;> simp [he]
    rw [hcomm, Map.filter_key]
    cases m[k]? <;> by_cases hin : lo i ≤ k ∧ k < hi i <;> simp [hin]
  rw [scanned, List.filter_flatMap, List.flatMap_congr fun i _ => hone i, ← List.filterMap_eq_flatMap_toList]

end scanned

/-! ### Many updates -/

theorem Map.getElem?_foldl_insert {β : Type} (key : β → Nat) (val : β → α) (m : Map α) (L : List β) (k : Nat) :
    (L.foldl (fun m x => m.insert (key x) (val x)) m)[k]? =
      ((L.filter (key · = k)).getLast?).elim m[k]? fun x => some (val x) := by
  induction L generalizing m with
  | nil => simp
  | cons x L ih =>
    rw [List.foldl_cons, ih, List.filter_cons]
    by_cases hk : key x = k
    · cases h : (L.filter fun x => key x = k).getLast? <;> simp [List.getLast?_cons, h, hk]
    · simp [hk, Std.ExtTreeMap.getElem?_insert]

theorem Map.getElem?_foldl_erase (m : Map α) (ks : List Nat) (k : Nat) :
    (ks.foldl (fun m k => m.erase k) m)[k]? = if k ∈ ks then none else m[k]? := by
  induction ks generalizing m with
  | nil => simp
  | cons k' ks ih =>
    rw [List.foldl_cons, ih]
    by_cases hks : k ∈ ks
    · simp [hks]
    · by_cases hk : k = k'
      · simp [hk]
      · have : ¬ k' = k := fun e => hk e.symm
        simp [hks, hk, this, Std.ExtTreeMap.getElem?_erase]

/-! ### The map of a list -/

section ofList
variable {L : List (Nat × α)}

theorem Map.keys_ofList_perm :
    ((Std.ExtTreeMap.ofList L : Map α).toList.map Prod.fst).Perm (L.map Prod.fst).dedup := by
  refine (List.perm_ext_iff_of_nodup (Map.nodup_keys _) (List.nodup_dedup _)).2 fun k => ?_
  rw [List.mem_dedup, Std.ExtTreeMap.map_fst_toList_eq_keys, Std.ExtTreeMap.mem_keys, Std.ExtTreeMap.mem_ofList,
    List.contains_iff_mem]

theorem Map.length_ofList : (Std.ExtTreeMap.ofList L : Map α).toList.length = L.length ↔ (L.map Prod.fst).Nodup := by
  have hlen := (Map.keys_ofList_perm (L := L)).length_eq
  rw [List.length_map] at hlen
  constructor
  · intro h
    have hsame := (List.dedup_sublist (L.map Prod.fst)).eq_of_length (by rw [← hlen, h, List.length_map])
    exact List.dedup_eq_self.1 hsame
  · intro h
    rw [hlen, h.dedup, List.length_map]

theorem Map.toList_ofList_perm (h : (L.map Prod.fst).Nodup) : (Std.ExtTreeMap.ofList L : Map α).toList.Perm L := by
  have hget : ∀ (k : Nat) (a : α), (k, a) ∈ L → (Std.ExtTreeMap.ofList L : Map α)[k]? = some a := by
    intro k a hm
    refine Std.ExtTreeMap.getElem?_ofList_of_mem Std.ReflCmp.compare_self ?_ hm
    exact (List.pairwise_map.1 h).imp fun hne => by simpa [Nat.compare_eq_eq] using hne
  have hperm := (Map.keys_ofList_perm (L := L)).trans (by rw [h.dedup])
  refine (List.perm_ext_iff_of_nodup ((Map.nodup_keys _).of_map _) (h.of_map _)).2 ?_
  rintro ⟨k, a⟩
  rw [Std.ExtTreeMap.mem_toList_iff_getElem?_eq_some]
  refine ⟨fun hk => ?_, hget k a⟩
  have hkey : k ∈ L.map Prod.fst :=
    hperm.mem_iff.1 (List.mem_map_of_mem (f := Prod.fst) (Std.ExtTreeMap.mem_toList_iff_getElem?_eq_some.2 hk))
  obtain ⟨⟨k', b⟩, hm, rfl⟩ := List.mem_map.1 hkey
  rw [← Option.some.inj ((hget k' b hm).symm.trans hk)]
  exact hm

end ofList

end Lib
