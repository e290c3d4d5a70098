import PerunProfiler.Lib.Rose

/-!
# A tree grown at its last path

A `Spine` is an ordered tree read from a node on the path of last children up to the root, with the
finished subtrees to the left of the path. `push` starts a new last child, `pop` steps up and
finishes the node left behind, except at the root, where it does nothing. -/

namespace Lib

/-- Nodes on the path, the innermost first, each with its finished children. -/
abbrev Spine (α : Type) := List (α × List (Rose α))

namespace Spine

variable {α : Type}

def push (a : α) (sp : Spine α) : Spine α := (a, []) :: sp

def pop : Spine α → Spine α
  | (a, cs) :: (b, ds) :: sp => (b, ds ++ [.node a cs]) :: sp
  | sp => sp

/-- The nodes on the path, the innermost first. -/
def path (sp : Spine α) : List α := sp.map Prod.fst

/-- Closes every frame over the subtree `t`. -/
def plug (t : Rose α) : Spine α → Rose α
  | [] => t
  | (a, cs) :: sp => plug (.node a (cs ++ [t])) sp

/-- The trees the spine stands for: none when it is empty. -/
def trees : Spine α → List (Rose α)
  | [] => []
  | (a, cs) :: sp => [plug (.node a cs) sp]

def preorder : Spine α → List α
  | [] => []
  | (a, cs) :: sp => preorder sp ++ a :: cs.flatMap Rose.preorder

@[simp] theorem preorder_nil : preorder ([] : Spine α) = [] := rfl

theorem preorder_cons (a : α) (cs : List (Rose α)) (sp : Spine α) :
    preorder ((a, cs) :: sp) = preorder sp ++ (Rose.node a cs).preorder := by
  simp [preorder]

theorem preorder_plug (t : Rose α) (sp : Spine α) : (plug t sp).preorder = preorder sp ++ t.preorder := by
  induction sp generalizing t with
  | nil => rfl
  | cons x sp ih =>
    obtain ⟨a, cs⟩ := x
    simp [plug, ih, preorder_cons]

theorem preorder_trees (sp : Spine α) : sp.trees.flatMap Rose.preorder = preorder sp := by
  cases sp with
  | nil => rfl
  | cons x sp =>
    obtain ⟨a, cs⟩ := x
    simp [trees, preorder_plug, preorder_cons]

@[simp] theorem preorder_push (a : α) (sp : Spine α) : preorder (push a sp) = preorder sp ++ [a] := by
  simp [push, preorder_cons]

theorem trees_pop (sp : Spine α) : (pop sp).trees = sp.trees := by
  match sp with
  | [] => rfl
  | [_] => rfl
  | (a, cs) :: (b, ds) :: sp => simp [pop, trees, plug]

theorem preorder_pop (sp : Spine α) : preorder (pop sp) = preorder sp := by
  rw [← preorder_trees, trees_pop, preorder_trees]

@[simp] theorem path_push (a : α) (sp : Spine α) : path (push a sp) = a :: path sp := rfl

theorem path_pop (sp : Spine α) : path (pop sp) = if sp.length ≤ 1 then path sp else (path sp).tail := by
  match sp with
  | [] => rfl
  | [_] => rfl
  | (a, cs) :: (b, ds) :: sp => simp [pop, path]

theorem lastPath_plug (t : Rose α) (sp : Spine α) :
    (plug t sp).lastPath = (path sp).reverse ++ t.lastPath := by
  induction sp generalizing t with
  | nil => rfl
  | cons x sp ih =>
    obtain ⟨a, cs⟩ := x
    rw [plug, ih, Rose.lastPath, Rose.lastPathList_concat]
    simp [path]

theorem length_le_preorder (sp : Spine α) : sp.length ≤ (preorder sp).length := by
  induction sp with
  | nil => exact Nat.le_refl _
  | cons x sp ih =>
    have := (Rose.node x.1 x.2).preorder_length_pos
    rw [preorder_cons, List.length_cons, List.length_append]
    omega

theorem path_reverse_sublist (sp : Spine α) : (path sp).reverse.Sublist (preorder sp) := by
  induction sp with
  | nil => exact .slnil
  | cons x sp ih =>
    obtain ⟨a, cs⟩ := x
    rw [preorder_cons, Rose.preorder_node, path, List.map_cons, List.reverse_cons]
    exact ih.append (List.singleton_sublist.2 List.mem_cons_self)

theorem nodup_path {sp : Spine α} (h : (preorder sp).Nodup) : (path sp).Nodup :=
  List.nodup_reverse.1 (h.sublist (path_reverse_sublist sp))

theorem path_subset_lastPath {sp : Spine α} {t : Rose α} (h : sp.trees = [t]) :
    ∀ a ∈ path sp, a ∈ t.lastPath := by
  cases sp with
  | nil => simp [path]
  | cons x sp =>
    obtain ⟨b, cs⟩ := x
    obtain rfl : plug (.node b cs) sp = t := by simpa [trees] using h
    intro a ha
    rw [lastPath_plug, Rose.lastPath]
    simp only [path, List.map_cons, List.mem_cons] at ha
    rcases ha with rfl | ha
    · simp
    · exact List.mem_append_left _ (List.mem_reverse.2 ha)

/-! ### Renaming the nodes -/

section map
variable {β : Type}

def map (f : α → β) (sp : Spine α) : Spine β := List.map (fun x => (f x.1, x.2.map (Rose.map f))) sp

/-- Renames the nodes on the path only. -/
def mapPath (f : α → α) (sp : Spine α) : Spine α := List.map (fun x => (f x.1, x.2)) sp

theorem length_map (f : α → β) (sp : Spine α) : (map f sp).length = sp.length := List.length_map _

theorem path_map (f : α → β) (sp : Spine α) : path (map f sp) = (path sp).map f := by
  simp [path, map]

theorem preorder_map (f : α → β) (sp : Spine α) : preorder (map f sp) = (preorder sp).map f := by
  induction sp with
  | nil => rfl
  | cons x sp ih =>
    obtain ⟨a, cs⟩ := x
    show preorder ((f a, cs.map (Rose.map f)) :: map f sp) = _
    rw [preorder_cons, preorder_cons, ih, List.map_append, ← Rose.map_node, Rose.preorder_map]

theorem map_pop (f : α → β) (sp : Spine α) : map f (pop sp) = pop (map f sp) := by
  match sp with
  | [] => rfl
  | [_] => rfl
  | (a, cs) :: (b, ds) :: sp => simp [pop, map]

theorem map_congr {f g : α → β} {sp : Spine α} (h : ∀ a ∈ preorder sp, f a = g a) : map f sp = map g sp := by
  induction sp with
  | nil => rfl
  | cons x sp ih =>
    obtain ⟨a, cs⟩ := x
    rw [preorder_cons] at h
    have hnode : (Rose.node a cs).map f = (Rose.node a cs).map g :=
      Rose.map_congr fun b hb => h b (List.mem_append_right _ hb)
    simp only [Rose.map_node, Rose.node.injEq] at hnode
    show (f a, cs.map (Rose.map f)) :: map f sp = (g a, cs.map (Rose.map g)) :: map g sp
    rw [hnode.1, hnode.2, ih fun b hb => h b (List.mem_append_left _ hb)]

/-- A renaming that acts by `k` on the path and by `f` elsewhere. -/
theorem map_eq_mapPath {f g : α → β} {k : β → β} {sp : Spine α} (hnd : (preorder sp).Nodup)
    (hpath : ∀ a ∈ path sp, g a = k (f a)) (hrest : ∀ a ∈ preorder sp, a ∉ path sp → g a = f a) :
    map g sp = mapPath k (map f sp) := by
  induction sp with
  | nil => rfl
  | cons x sp ih =>
    obtain ⟨a, cs⟩ := x
    simp only [preorder_cons, Rose.preorder_node, List.nodup_append, List.nodup_cons] at hnd
    obtain ⟨hnd, ⟨hacs, -⟩, hdisj⟩ := hnd
    rw [preorder_cons, Rose.preorder_node] at hrest
    have hp : path ((a, cs) :: sp) = a :: path sp := rfl
    rw [hp] at hpath hrest
    have hsub : ∀ b ∈ path sp, b ∈ preorder sp := fun b hb =>
      (path_reverse_sublist sp).subset (List.mem_reverse.2 hb)
    have hcs : cs.map (Rose.map g) = cs.map (Rose.map f) := by
      refine List.map_congr_left fun c hc => Rose.map_congr fun b hb => ?_
      have hbm : b ∈ cs.flatMap Rose.preorder := List.mem_flatMap.2 ⟨c, hc, hb⟩
      refine hrest b (List.mem_append_right _ (List.mem_cons_of_mem _ hbm)) fun hbp => ?_
      rcases List.mem_cons.1 hbp with rfl | hbp
      · exact hacs hbm
      · exact hdisj b (hsub b hbp) b (List.mem_cons_of_mem _ hbm) rfl
    show (g a, cs.map (Rose.map g)) :: map g sp = (k (f a), cs.map (Rose.map f)) :: mapPath k (map f sp)
    rw [hpath a (by simp), hcs, ih hnd (fun b hb => hpath b (List.mem_cons_of_mem _ hb)) fun b hb hbp =>
      hrest b (List.mem_append_left _ hb) fun hba => ?_]
    rcases List.mem_cons.1 hba with rfl | hba
    · exact hdisj b hb b (by simp) rfl
    · exact hbp hba

theorem plug_map (f : α → β) (t : Rose α) (sp : Spine α) : (plug t sp).map f = plug (t.map f) (map f sp) := by
  induction sp generalizing t with
  | nil => rfl
  | cons x sp ih =>
    obtain ⟨a, cs⟩ := x
    show (plug (.node a (cs ++ [t])) sp).map f = plug (.node (f a) (cs.map (Rose.map f) ++ [t.map f])) (map f sp)
    rw [ih, Rose.map_node, List.map_append, List.map_singleton]

theorem trees_map (f : α → β) (sp : Spine α) : (map f sp).trees = sp.trees.map (Rose.map f) := by
  cases sp with
  | nil => rfl
  | cons x sp =>
    obtain ⟨a, cs⟩ := x
    show [plug (.node (f a) (cs.map (Rose.map f))) (map f sp)] = [(plug (.node a cs) sp).map f]
    rw [plug_map, Rose.map_node]

end map

end Spine

end Lib
