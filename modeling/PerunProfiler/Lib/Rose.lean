import Mathlib.Data.List.Nodup
import Mathlib.Data.List.Flatten

/-!
# Ordered trees

`Rose α` with its preorder listing, the path of last children, and `rebuild`, which reads a tree
back from its preorder listing when every node knows its own key and its parent's.
-/

namespace Lib

inductive Rose (α : Type) where
  | node (a : α) (cs : List (Rose α))

namespace Rose

variable {α β κ : Type}

def root : Rose α → α
  | node a _ => a

def children : Rose α → List (Rose α)
  | node _ cs => cs

@[simp] theorem root_node (a : α) (cs : List (Rose α)) : (node a cs).root = a := rfl
@[simp] theorem children_node (a : α) (cs : List (Rose α)) : (node a cs).children = cs := rfl

theorem node_root_children (t : Rose α) : node t.root t.children = t := by cases t; rfl

@[induction_eliminator]
theorem induct {motive : Rose α → Prop} (node : ∀ a cs, (∀ c ∈ cs, motive c) → motive (.node a cs)) :
    ∀ t, motive t
  | .node a cs => node a cs fun c _ => induct node c

/-! ### Preorder -/

mutual
/-- The labels, every node before its children, children left to right. -/
def preorder : Rose α → List α
  | node a cs => a :: preorderList cs
def preorderList : List (Rose α) → List α
  | [] => []
  | c :: cs => preorder c ++ preorderList cs
end

theorem preorderList_eq (cs : List (Rose α)) : preorderList cs = cs.flatMap preorder := by
  induction cs with
  | nil => rfl
  | cons c cs ih => simp [preorderList, ih]

@[simp] theorem preorder_node (a : α) (cs : List (Rose α)) :
    (node a cs).preorder = a :: cs.flatMap preorder := by
  rw [preorder, preorderList_eq]

theorem root_mem_preorder (t : Rose α) : t.root ∈ t.preorder := by
  cases t; simp

theorem preorder_length_pos (t : Rose α) : 0 < t.preorder.length :=
  List.length_pos_of_mem t.root_mem_preorder

mutual
def map (f : α → β) : Rose α → Rose β
  | node a cs => node (f a) (mapList f cs)
def mapList (f : α → β) : List (Rose α) → List (Rose β)
  | [] => []
  | c :: cs => map f c :: mapList f cs
end

theorem mapList_eq (f : α → β) (cs : List (Rose α)) : mapList f cs = cs.map (map f) := by
  induction cs with
  | nil => rfl
  | cons c cs ih => simp [mapList, ih]

@[simp] theorem map_node (f : α → β) (a : α) (cs : List (Rose α)) :
    (node a cs).map f = node (f a) (cs.map (map f)) := by
  rw [map, mapList_eq]

theorem preorder_map (f : α → β) (t : Rose α) : (t.map f).preorder = t.preorder.map f := by
  induction t with
  | node a cs ih =>
    simp only [map_node, preorder_node, List.map_cons, List.map_flatMap, List.flatMap_map]
    congr 1
    exact List.flatMap_congr fun c hc => ih c hc

theorem map_map {δ : Type} (f : α → β) (g : β → δ) (t : Rose α) :
    (t.map f).map g = t.map fun a => g (f a) := by
  induction t with
  | node a cs ih =>
    simp only [map_node, List.map_map, node.injEq, true_and]
    exact List.map_congr_left fun c hc => ih c hc

theorem map_congr {f g : α → β} {t : Rose α} (h : ∀ a ∈ t.preorder, f a = g a) : t.map f = t.map g := by
  induction t with
  | node a cs ih =>
    simp only [map_node, node.injEq]
    refine ⟨h a (by simp), List.map_congr_left fun c hc => ih c hc fun b hb => h b ?_⟩
    simp only [preorder_node, List.mem_cons, List.mem_flatMap]
    exact .inr ⟨c, hc, hb⟩

mutual
/-- The preorder listing with the distance from a root at distance `d`. -/
def depths (d : Nat) : Rose α → List (α × Nat)
  | node a cs => (a, d) :: depthsList (d + 1) cs
def depthsList (d : Nat) : List (Rose α) → List (α × Nat)
  | [] => []
  | c :: cs => depths d c ++ depthsList d cs
end

theorem depthsList_eq (d : Nat) (cs : List (Rose α)) : depthsList d cs = cs.flatMap (depths d) := by
  induction cs with
  | nil => rfl
  | cons c cs ih => simp [depthsList, ih]

@[simp] theorem depths_node (d : Nat) (a : α) (cs : List (Rose α)) :
    (node a cs).depths d = (a, d) :: cs.flatMap (depths (d + 1)) := by
  rw [depths, depthsList_eq]

mutual
/-- The subtrees in the order of their roots. -/
def subtrees : Rose α → List (Rose α)
  | node a cs => node a cs :: subtreesList cs
def subtreesList : List (Rose α) → List (Rose α)
  | [] => []
  | c :: cs => subtrees c ++ subtreesList cs
end

theorem subtreesList_eq (cs : List (Rose α)) : subtreesList cs = cs.flatMap subtrees := by
  induction cs with
  | nil => rfl
  | cons c cs ih => simp [subtreesList, ih]

@[simp] theorem subtrees_node (a : α) (cs : List (Rose α)) :
    (node a cs).subtrees = node a cs :: cs.flatMap subtrees := by
  rw [subtrees, subtreesList_eq]

theorem map_root_subtrees (t : Rose α) : t.subtrees.map root = t.preorder := by
  induction t with
  | node a cs ih =>
    simp only [subtrees_node, List.map_cons, root_node, preorder_node, List.map_flatMap]
    congr 1
    exact List.flatMap_congr ih

theorem mem_preorder {a : α} {t : Rose α} : a ∈ t.preorder ↔ ∃ u ∈ t.subtrees, u.root = a := by
  rw [← map_root_subtrees, List.mem_map]

mutual
/-- The root, its last child, that child's last child and so on. -/
def lastPath : Rose α → List α
  | node a cs => a :: lastPathList cs
def lastPathList : List (Rose α) → List α
  | [] => []
  | [c] => lastPath c
  | _ :: c :: cs => lastPathList (c :: cs)
end

theorem lastPathList_concat (cs : List (Rose α)) (c : Rose α) :
    lastPathList (cs ++ [c]) = c.lastPath := by
  induction cs with
  | nil => simp [lastPathList]
  | cons d cs ih =>
    cases cs with
    | nil => simp [lastPathList]
    | cons e cs => simpa [lastPathList] using ih

/-! ### Reading a tree back from its listing -/

/-- Every node of the tree names its parent's key, the root names `k`. -/
inductive Linked (key : β → κ) (par : β → Option κ) : Option κ → Rose β → Prop
  | node {k : Option κ} {b : β} {cs : List (Rose β)} (hb : par b = k)
      (hcs : ∀ c ∈ cs, Linked key par (some (key b)) c) : Linked key par k (node b cs)

/-- The trees below the nodes of `R` whose parent key is the given one, `n` levels deep. -/
def rebuild [DecidableEq κ] (key : β → κ) (par : β → Option κ) (R : List β) :
    Nat → Option κ → List (Rose β)
  | 0, _ => []
  | n + 1, k => (R.filter fun b => par b = k).map fun b => node b (rebuild key par R n (some (key b)))

namespace Linked
variable {key : β → κ} {par : β → Option κ} {k : Option κ} {t : Rose β}

theorem par_root (h : Linked key par k t) : par t.root = k := by
  cases h with | node hb _ => exact hb

theorem child {b : β} {cs : List (Rose β)} (h : Linked key par k (.node b cs)) :
    ∀ c ∈ cs, Linked key par (some (key b)) c := by
  cases h with | node _ hcs => exact hcs

theorem filter_ne_none [DecidableEq κ] {q : κ} (h : Linked key par (some q) t) :
    t.preorder.filter (fun b => par b = none) = [] := by
  induction t generalizing q with
  | node b cs ih =>
    have hb : par b ≠ none := by rw [show par b = some q from h.par_root]; simp
    rw [preorder_node, List.filter_cons_of_neg (by simpa using hb), List.filter_flatMap,
      List.flatMap_eq_nil_iff]
    exact fun c hc => ih c hc (h.child c hc)

variable [DecidableEq κ] {q : κ}

theorem filter_of_not_mem (h : Linked key par k t) (hk : k ≠ some q)
    (hq : q ∉ t.preorder.map key) : t.preorder.filter (fun b => par b = some q) = [] := by
  induction t generalizing k with
  | node b cs ih =>
    simp only [preorder_node, List.map_cons, List.mem_cons, not_or] at hq
    have hb : par b ≠ some q := by rw [show par b = k from h.par_root]; exact hk
    rw [preorder_node, List.filter_cons_of_neg (by simpa using hb), List.filter_flatMap,
      List.flatMap_eq_nil_iff]
    intro c hc
    refine ih c hc (h.child c hc) (fun e => hq.1 (Option.some.inj e).symm) fun hm => hq.2 ?_
    rw [List.map_flatMap]
    exact List.mem_flatMap.2 ⟨c, hc, hm⟩

theorem filter_root {b : β} {cs : List (Rose β)} (h : Linked key par k (.node b cs))
    (hnd : ((Rose.node b cs).preorder.map key).Nodup) (hk : k ≠ some (key b)) :
    (Rose.node b cs).preorder.filter (fun x => par x = some (key b)) = cs.map root := by
  simp only [preorder_node, List.map_cons, List.nodup_cons] at hnd
  have hb : par b ≠ some (key b) := by rw [show par b = k from h.par_root]; exact hk
  rw [preorder_node, List.filter_cons_of_neg (by simpa using hb), List.filter_flatMap,
    List.map_eq_flatMap]
  refine List.flatMap_congr fun c hc => ?_
  have hkc : key b ∉ c.preorder.map key := fun hm => hnd.1 (by
    rw [List.map_flatMap]; exact List.mem_flatMap.2 ⟨c, hc, hm⟩)
  have hl := h.child c hc
  obtain ⟨d, ds⟩ := c
  rw [preorder_node, List.filter_cons_of_pos (by simpa using hl.par_root), List.filter_flatMap,
    List.flatMap_eq_nil_iff.2]
  · rfl
  intro e he
  simp only [preorder_node, List.map_cons, List.mem_cons, not_or] at hkc
  refine filter_of_not_mem (hl.child e he) (fun e => hkc.1 (Option.some.inj e).symm) fun hm => hkc.2 ?_
  rw [List.map_flatMap]
  exact List.mem_flatMap.2 ⟨e, he, hm⟩

theorem filter_child {b : β} {cs : List (Rose β)} {c : Rose β} (h : Linked key par k (.node b cs))
    (hnd : ((Rose.node b cs).preorder.map key).Nodup) (hk : k ≠ some q) (hc : c ∈ cs)
    (hq : q ∈ c.preorder.map key) :
    (Rose.node b cs).preorder.filter (fun x => par x = some q) =
      c.preorder.filter (fun x => par x = some q) := by
  have hb : par b ≠ some q := by rw [show par b = k from h.par_root]; exact hk
  obtain ⟨l, r, rfl⟩ := List.append_of_mem hc
  simp only [preorder_node, List.map_cons, List.nodup_cons, List.flatMap_append, List.flatMap_cons,
    List.map_append, List.nodup_append, List.mem_append, not_or] at hnd
  obtain ⟨⟨-, hbc, -⟩, -, ⟨-, -, hcr⟩, hl⟩ := hnd
  have hne : some (key b) ≠ some q := fun e => hbc (Option.some.inj e ▸ hq)
  have other : ∀ d ∈ l ++ c :: r, q ∉ d.preorder.map key →
      d.preorder.filter (fun x => par x = some q) = [] :=
    fun d hd hqd => filter_of_not_mem (h.child d hd) hne hqd
  have hleft : (l.flatMap preorder).filter (fun x => par x = some q) = [] := by
    rw [List.filter_flatMap, List.flatMap_eq_nil_iff]
    refine fun d hd => other d (by simp [hd]) fun hm => ?_
    exact hl q (by rw [List.map_flatMap]; exact List.mem_flatMap.2 ⟨d, hd, hm⟩) q (.inl hq) rfl
  have hright : (r.flatMap preorder).filter (fun x => par x = some q) = [] := by
    rw [List.filter_flatMap, List.flatMap_eq_nil_iff]
    refine fun d hd => other d (by simp [hd]) fun hm => ?_
    exact hcr q hq q (by rw [List.map_flatMap]; exact List.mem_flatMap.2 ⟨d, hd, hm⟩) rfl
  rw [preorder_node, List.filter_cons_of_neg (by simpa using hb)]
  simp [hleft, hright]

/-- The children of a node are the labels that name it, in the order of the listing. -/
theorem filter_subtree (h : Linked key par k t) (hnd : (t.preorder.map key).Nodup)
    (hk : ∀ q ∈ t.preorder.map key, k ≠ some q) {u : Rose β} (hu : u ∈ t.subtrees) :
    t.preorder.filter (fun x => par x = some (key u.root)) = u.children.map root := by
  induction t generalizing k with
  | node b cs ih =>
    rw [subtrees_node, List.mem_cons] at hu
    rcases hu with rfl | hu
    · exact filter_root h hnd (hk _ (by simp))
    obtain ⟨c, hc, hu⟩ := List.mem_flatMap.1 hu
    have hsub : (c.preorder.map key).Sublist ((Rose.node b cs).preorder.map key) := by
      rw [preorder_node]
      exact ((List.sublist_flatten_of_mem (List.mem_map_of_mem hc)).trans
        (List.sublist_cons_self _ _)).map key
    have hq : key u.root ∈ c.preorder.map key := List.mem_map_of_mem (mem_preorder.2 ⟨u, hu, rfl⟩)
    have hbc : key b ∉ c.preorder.map key := fun hm => by
      simp only [preorder_node, List.map_cons, List.nodup_cons, List.map_flatMap] at hnd
      exact hnd.1 (List.mem_flatMap.2 ⟨c, hc, hm⟩)
    rw [filter_child h hnd (hk _ (hsub.subset hq)) hc hq]
    exact ih c hc (h.child c hc) (hnd.sublist hsub) (fun q hq e => hbc (Option.some.inj e ▸ hq)) hu

/-- A label names another one, or what the root names. -/
theorem exists_subtree (h : Linked key par k t) (hk : k ≠ some q) {x : β} (hx : x ∈ t.preorder)
    (hpar : par x = some q) : ∃ u ∈ t.subtrees, key u.root = q := by
  by_contra hno
  have hq : q ∉ t.preorder.map key := by
    intro hm
    obtain ⟨y, hy, rfl⟩ := List.mem_map.1 hm
    obtain ⟨u, hu, rfl⟩ := mem_preorder.1 hy
    exact hno ⟨u, hu, rfl⟩
  have hnil := h.filter_of_not_mem hk hq
  have hmem : x ∈ t.preorder.filter (fun b => par b = some q) := List.mem_filter.2 ⟨hx, by simpa using hpar⟩
  rw [hnil] at hmem
  cases hmem

/-- `rebuild` reads the children of a subtree back from any listing that names the subtree's keys
only inside the subtree. -/
theorem rebuild_children {R : List β} {n : Nat} (h : Linked key par k t)
    (hnd : (t.preorder.map key).Nodup) (hk : ∀ q ∈ t.preorder.map key, k ≠ some q)
    (hR : ∀ q ∈ t.preorder.map key,
      R.filter (fun x => par x = some q) = t.preorder.filter (fun x => par x = some q))
    (hn : t.preorder.length ≤ n) : rebuild key par R n (some (key t.root)) = t.children := by
  induction t generalizing k n with
  | node b cs ih =>
    obtain ⟨n, rfl⟩ : ∃ m, n = m + 1 := ⟨n - 1, by simp at hn; omega⟩
    rw [rebuild, root_node, children_node, hR _ (by simp), filter_root h hnd (hk _ (by simp)), List.map_map]
    conv_rhs => rw [← List.map_id cs]
    refine List.map_congr_left fun c hc => ?_
    have hsub : (c.preorder.map key).Sublist ((Rose.node b cs).preorder.map key) := by
      rw [preorder_node]
      exact ((List.sublist_flatten_of_mem (List.mem_map_of_mem hc)).trans
        (List.sublist_cons_self _ _)).map key
    have hbc : key b ∉ c.preorder.map key := fun hm => by
      simp only [preorder_node, List.map_cons, List.nodup_cons, List.map_flatMap] at hnd
      exact hnd.1 (List.mem_flatMap.2 ⟨c, hc, hm⟩)
    have hlen : c.preorder.length ≤ n := by
      have h1 := (List.sublist_flatten_of_mem (List.mem_map_of_mem (f := preorder) hc)).length_le
      simp only [preorder_node, List.length_cons, List.flatMap_def] at hn
      omega
    have hkids := ih c hc (h.child c hc) (hnd.sublist hsub)
      (fun q hq e => hbc (Option.some.inj e ▸ hq))
      (fun q hq => (hR q (hsub.subset hq)).trans
        (filter_child h hnd (hk q (hsub.subset hq)) hc hq)) hlen
    simp only [Function.comp_apply, id_eq, hkids, node_root_children]

/-- Only the root names none. -/
theorem filter_none (h : Linked key par none t) : t.preorder.filter (fun x => par x = none) = [t.root] := by
  obtain ⟨b, cs⟩ := t
  rw [preorder_node, List.filter_cons_of_pos (by simpa using h.par_root), List.filter_flatMap,
    List.flatMap_eq_nil_iff.2]
  · rfl
  · exact fun c hc => filter_ne_none (h.child c hc)

/-- A tree is read back from its own listing. -/
theorem rebuild_eq (h : Linked key par none t) (hnd : (t.preorder.map key).Nodup) {n : Nat}
    (hn : t.preorder.length < n) : rebuild key par t.preorder n none = [t] := by
  obtain ⟨n, rfl⟩ : ∃ m, n = m + 1 := ⟨n - 1, by omega⟩
  rw [rebuild, h.filter_none, List.map_singleton,
    h.rebuild_children hnd (by simp) (fun _ _ => rfl) (by omega), node_root_children]

end Linked

/-! ### Listings with depths -/

/-- `L` lists a tree: one label names no parent, every other one the key of a label one level above. -/
structure Listing [DecidableEq κ] (key : β → κ) (par : β → Option κ) (depth : β → Nat) (L : List β) : Prop where
  nodup : (L.map key).Nodup
  root : ∃ r, L.filter (fun x => par x = none) = [r]
  parents : ∀ x ∈ L, (par x = none ∧ depth x = 0) ∨ ∃ y ∈ L, par x = some (key y) ∧ depth x = depth y + 1

/-- The labels down to a level list a tree again. -/
theorem Listing.cut [DecidableEq κ] {key : β → κ} {par : β → Option κ} {depth : β → Nat} {L : List β}
    (h : Listing key par depth L) (n : Nat) : Listing key par depth (L.filter fun x => depth x ≤ n) := by
  obtain ⟨r, hr⟩ := h.root
  obtain ⟨hmem, hnone⟩ : r ∈ L ∧ par r = none := by
    have hrf : r ∈ L.filter (fun x => par x = none) := by rw [hr]; exact List.mem_singleton_self r
    simpa using hrf
  have hdepth : depth r ≤ n := by
    rcases h.parents r hmem with ⟨-, h0⟩ | ⟨y, -, hpar, -⟩
    · omega
    · rw [hnone] at hpar
      cases hpar
  refine ⟨h.nodup.sublist (List.filter_sublist.map key), ⟨r, ?_⟩, fun x hx => ?_⟩
  · rw [List.filter_comm, hr, List.filter_cons_of_pos (by simpa using hdepth), List.filter_nil]
  · obtain ⟨hx, hxn⟩ := List.mem_filter.1 hx
    have hxn : depth x ≤ n := of_decide_eq_true hxn
    rcases h.parents x hx with h0 | ⟨y, hy, hpar, hyx⟩
    · exact .inl h0
    · have hyn : depth y ≤ n := by omega
      exact .inr ⟨y, List.mem_filter.2 ⟨hy, decide_eq_true hyn⟩, hpar, hyx⟩

/-! ### Cutting a tree off -/

/-- The tree down to `n` levels below its root. -/
def cut : Nat → Rose α → Rose α
  | 0, node a _ => node a []
  | n + 1, node a cs => node a (cs.map (cut n))

/-- The labels know the level they are on. -/
inductive Leveled (depth : β → Nat) : Nat → Rose β → Prop
  | node {d : Nat} {b : β} {cs : List (Rose β)} (hb : depth b = d)
      (hcs : ∀ c ∈ cs, Leveled depth (d + 1) c) : Leveled depth d (node b cs)

namespace Leveled
variable {depth : β → Nat} {d : Nat} {t : Rose β}

theorem root (h : Leveled depth d t) : depth t.root = d := by
  cases h with | node hb _ => exact hb

theorem child {b : β} {cs : List (Rose β)} (h : Leveled depth d (.node b cs)) :
    ∀ c ∈ cs, Leveled depth (d + 1) c := by
  cases h with | node _ hcs => exact hcs

theorem le (h : Leveled depth d t) : ∀ b ∈ t.preorder, d ≤ depth b := by
  induction t generalizing d with
  | node b cs ih =>
    intro x hx
    rw [preorder_node, List.mem_cons] at hx
    rcases hx with rfl | hx
    · exact (Nat.le_of_eq h.root.symm)
    · obtain ⟨c, hc, hx⟩ := List.mem_flatMap.1 hx
      exact Nat.le_of_succ_le (ih c hc (h.child c hc) x hx)

/-- To drop the labels below a level is to cut the tree off there. -/
theorem preorder_cut (h : Leveled depth d t) (n : Nat) :
    (t.cut n).preorder = t.preorder.filter fun b => depth b ≤ d + n := by
  induction n generalizing d t with
  | zero =>
    obtain ⟨b, cs⟩ := t
    rw [cut, preorder_node, preorder_node, List.filter_cons_of_pos (by simpa using Nat.le_of_eq h.root),
      List.filter_flatMap, List.flatMap_nil, List.flatMap_eq_nil_iff.2]
    intro c hc
    rw [List.filter_eq_nil_iff]
    intro x hx
    have hlt := (h.child c hc).le x hx
    simp only [Nat.add_zero, decide_eq_true_eq]
    omega
  | succ n ih =>
    obtain ⟨b, cs⟩ := t
    rw [cut, preorder_node, preorder_node, List.filter_cons_of_pos (by have := h.root; simp at this ⊢; omega),
      List.filter_flatMap, List.flatMap_map]
    congr 1
    refine List.flatMap_congr fun c hc => ?_
    rw [ih (h.child c hc)]
    refine List.filter_congr fun x _ => decide_eq_decide.2 ?_
    omega

end Leveled

namespace Linked
variable {key : β → κ} {par : β → Option κ} {k : Option κ} {t : Rose β}

theorem cut (h : Linked key par k t) (n : Nat) : Linked key par k (t.cut n) := by
  induction n generalizing k t with
  | zero =>
    obtain ⟨b, cs⟩ := t
    exact .node h.par_root (by simp)
  | succ n ih =>
    obtain ⟨b, cs⟩ := t
    refine .node h.par_root fun c' hc' => ?_
    obtain ⟨c, hc, rfl⟩ := List.mem_map.1 hc'
    exact ih (h.child c hc)

/-- A tree stays linked when its labels are renamed along with their keys. -/
theorem map {γ ι : Type} {key' : γ → ι} {par' : γ → Option ι} {f : β → γ} {g : κ → ι}
    (hkey : ∀ b, key' (f b) = g (key b)) (hpar : ∀ b, par' (f b) = (par b).map g) (h : Linked key par k t) :
    Linked key' par' (k.map g) (t.map f) := by
  induction t generalizing k with
  | node b cs ih =>
    rw [map_node]
    refine .node (by rw [hpar, show par b = k from h.par_root]) fun c' hc' => ?_
    obtain ⟨c, hc, rfl⟩ := List.mem_map.1 hc'
    rw [hkey]
    exact ih c hc (h.child c hc)

/-- In a listing with depths every label is on the level of its depth. -/
theorem leveled [DecidableEq κ] {depth : β → Nat} {L : List β} (hL : Listing key par depth L)
    (h : Linked key par k t) (hsub : ∀ b ∈ t.preorder, b ∈ L) : Leveled depth (depth t.root) t := by
  induction t generalizing k with
  | node b cs ih =>
    refine .node rfl fun c hc => ?_
    have hcs : ∀ x ∈ c.preorder, x ∈ L := fun x hx => hsub x (by
      rw [preorder_node]
      exact List.mem_cons_of_mem _ (List.mem_flatMap.2 ⟨c, hc, hx⟩))
    have hchild := h.child c hc
    have hlevel := ih c hc hchild hcs
    have hroot : c.root ∈ L := hcs _ (by cases c; simp)
    rcases hL.parents c.root hroot with ⟨hnone, -⟩ | ⟨q, hq, hpar, hdepth⟩
    · rw [hchild.par_root] at hnone
      cases hnone
    · rw [hchild.par_root, Option.some.injEq] at hpar
      obtain rfl : b = q := List.inj_on_of_nodup_map hL.nodup (hsub b (by simp)) hq hpar
      rwa [hdepth] at hlevel

end Linked

theorem cut_map (f : α → β) (n : Nat) (t : Rose α) : (t.map f).cut n = (t.cut n).map f := by
  induction n generalizing t with
  | zero =>
    obtain ⟨a, cs⟩ := t
    rw [map_node, cut, cut, map_node, List.map_nil]
  | succ n ih =>
    obtain ⟨a, cs⟩ := t
    rw [map_node, cut, cut, map_node, List.map_map, List.map_map]
    exact congrArg (node (f a)) (List.map_congr_left fun c _ => ih c)

end Rose

end Lib
