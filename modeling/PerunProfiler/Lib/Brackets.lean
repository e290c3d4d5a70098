import PerunProfiler.Lib.Spine

/-!
# Trees as brackets

A tree walked from left to right opens and closes every node. A spine that follows the walk gets the
tree back as a finished subtree; what it keeps of a node is made by the opening bracket and changed by
the closing one. -/

namespace Lib

inductive Bracket (α : Type) where
  | opens (a : α)
  | closes (a : α)

def Bracket.label {α : Type} : Bracket α → α
  | opens a | closes a => a

namespace Rose

variable {α β : Type}

mutual
def brackets : Rose α → List (Bracket α)
  | node a cs => .opens a :: (bracketsList cs ++ [.closes a])
def bracketsList : List (Rose α) → List (Bracket α)
  | [] => []
  | c :: cs => brackets c ++ bracketsList cs
end

theorem bracketsList_eq (cs : List (Rose α)) : bracketsList cs = cs.flatMap brackets := by
  induction cs with
  | nil => rfl
  | cons c cs ih => simp [bracketsList, ih]

@[simp] theorem brackets_node (a : α) (cs : List (Rose α)) :
    (node a cs).brackets = .opens a :: (cs.flatMap brackets ++ [.closes a]) := by
  rw [brackets, bracketsList_eq]

/-! ### Leaving nodes out -/

mutual
/-- The nodes with `p`, each below the nearest one above it. -/
def splice (p : α → Bool) : Rose α → List (Rose α)
  | node a cs => if p a then [node a (spliceList p cs)] else spliceList p cs
def spliceList (p : α → Bool) : List (Rose α) → List (Rose α)
  | [] => []
  | c :: cs => splice p c ++ spliceList p cs
end

theorem spliceList_eq (p : α → Bool) (cs : List (Rose α)) : spliceList p cs = cs.flatMap (splice p) := by
  induction cs with
  | nil => rfl
  | cons c cs ih => simp [spliceList, ih]

@[simp] theorem splice_node (p : α → Bool) (a : α) (cs : List (Rose α)) :
    (node a cs).splice p = if p a then [node a (cs.flatMap (splice p))] else cs.flatMap (splice p) := by
  rw [splice, spliceList_eq]

/-- The walk through what is left is what is left of the walk. -/
theorem brackets_splice (p : α → Bool) (t : Rose α) :
    (t.splice p).flatMap brackets = t.brackets.filter (p ·.label) := by
  induction t with
  | node a cs ih =>
    have hcs : (cs.flatMap (splice p)).flatMap brackets = (cs.flatMap brackets).filter (p ·.label) := by
      rw [List.flatMap_assoc, List.filter_flatMap]
      exact List.flatMap_congr ih
    rw [splice_node, brackets_node]
    by_cases hp : p a = true
    · simp [hp, hcs, Bracket.label]
    · simp [hp, hcs, Bracket.label]

end Rose

namespace Spine

variable {α β : Type} (opening : α → β) (closing : α → β → β)

/-- An opening bracket starts a node, a closing one finishes the innermost node. -/
def follow : Spine β → Bracket α → Spine β
  | sp, .opens a => sp.push (opening a)
  | (b, cs) :: sp, .closes a => pop ((closing a b, cs) :: sp)
  | [], .closes _ => []

/-- What the brackets of a node make of it. -/
def made (a : α) : β := closing a (opening a)

variable {opening closing}

theorem foldl_brackets (t : Rose α) (b : β) (ds : List (Rose β)) (sp : Spine β) :
    t.brackets.foldl (follow opening closing) ((b, ds) :: sp) =
      (b, ds ++ [t.map (made opening closing)]) :: sp := by
  induction t generalizing b ds sp with
  | node a cs ih =>
    -- the subtrees are added to the new node one by one
    have hcs : ∀ (l : List (Rose α)), (∀ c ∈ l, c ∈ cs) → ∀ es : List (Rose β),
        (l.flatMap Rose.brackets).foldl (follow opening closing) ((opening a, es) :: (b, ds) :: sp) =
          (opening a, es ++ l.map (Rose.map (made opening closing))) :: (b, ds) :: sp := by
      intro l
      induction l with
      | nil => simp
      | cons c l ihl =>
        intro hl es
        rw [List.flatMap_cons, List.foldl_append, ih c (hl c (by simp)),
          ihl (fun d hd => hl d (List.mem_cons_of_mem _ hd))]
        simp
    rw [Rose.brackets_node, List.foldl_cons, List.foldl_append]
    show List.foldl _ ((cs.flatMap Rose.brackets).foldl _ ((opening a, []) :: (b, ds) :: sp)) _ = _
    rw [hcs cs (fun c hc => hc)]
    simp [follow, pop, made]

theorem foldl_forest (F : List (Rose α)) (b : β) (ds : List (Rose β)) (sp : Spine β) :
    (F.flatMap Rose.brackets).foldl (follow opening closing) ((b, ds) :: sp) =
      (b, ds ++ F.map (Rose.map (made opening closing))) :: sp := by
  induction F generalizing ds with
  | nil => simp
  | cons t F ih =>
    rw [List.flatMap_cons, List.foldl_append, foldl_brackets, ih]
    simp

/-- The first root stays on the path when it is closed, and the other trees end up below it. -/
def hang : List (Rose β) → List (Rose β)
  | [] => []
  | .node b cs :: F => [.node b (cs ++ F)]

/-- A walk from nothing leaves the first root on the path. -/
theorem foldl_hang (F : List (Rose α)) : (F.flatMap Rose.brackets).foldl (follow opening closing) [] =
    (hang (F.map (Rose.map (made opening closing)))).map fun t => (t.root, t.children) := by
  cases F with
  | nil => rfl
  | cons t F =>
    obtain ⟨a, cs⟩ := t
    rw [List.flatMap_cons, List.foldl_append, Rose.brackets_node, List.foldl_cons, List.foldl_append]
    show (F.flatMap Rose.brackets).foldl _ (List.foldl _
      ((cs.flatMap Rose.brackets).foldl _ [(opening a, [])]) _) = _
    rw [foldl_forest]
    show (F.flatMap Rose.brackets).foldl _ [(closing a (opening a), _)] = _
    rw [foldl_forest, List.nil_append, List.map_cons, Rose.map_node]
    rfl

end Spine

end Lib
