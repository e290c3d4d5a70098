import Mathlib.Order.Basic
import PerunProfiler.Lib.Rose

/-!
# Intervals nested in time

Every label of a tree has a start and a stop. `Nested lo hi cs`: the trees of `cs` run one after the
other between `lo` and `hi`, and the children of every node so run within the node. -/

namespace Lib

variable {α κ : Type} [Preorder κ] {start stop : α → κ}

inductive Nested (start stop : α → κ) : κ → κ → List (Rose α) → Prop
  | nil {lo hi : κ} (h : lo ≤ hi) : Nested start stop lo hi []
  | cons {lo hi : κ} {a : α} {cs rest : List (Rose α)} (hlo : lo ≤ start a)
      (hcs : Nested start stop (start a) (stop a) cs) (hrest : Nested start stop (stop a) hi rest) :
      Nested start stop lo hi (.node a cs :: rest)

namespace Nested
variable {lo mid hi lo' hi' : κ} {a : α} {cs ds : List (Rose α)}

theorem le (h : Nested start stop lo hi cs) : lo ≤ hi := by
  induction h with
  | nil h => exact h
  | cons hlo _ _ ihcs ihrest => exact (hlo.trans ihcs).trans ihrest

theorem mono (h : Nested start stop lo hi cs) (hlo : lo' ≤ lo) (hhi : hi ≤ hi') : Nested start stop lo' hi' cs := by
  induction h generalizing lo' with
  | nil h => exact .nil ((hlo.trans h).trans hhi)
  | cons h hcs _ _ ihrest => exact .cons (hlo.trans h) hcs (ihrest le_rfl hhi)

theorem append (h : Nested start stop lo mid cs) (h' : Nested start stop mid hi ds) :
    Nested start stop lo hi (cs ++ ds) := by
  induction h with
  | nil h => exact h'.mono h le_rfl
  | cons h hcs _ _ ihrest => exact .cons h hcs (ihrest h')

/-- One more tree after the others. -/
theorem concat (h : Nested start stop lo (start a) cs) (hds : Nested start stop (start a) (stop a) ds)
    (hhi : stop a ≤ hi) : Nested start stop lo hi (cs ++ [.node a ds]) :=
  h.append (.cons le_rfl hds (.nil hhi))

theorem roots (h : Nested start stop lo hi cs) : ∀ c ∈ cs, lo ≤ start c.root ∧ stop c.root ≤ hi := by
  induction h with
  | nil => simp
  | @cons lo hi a cs rest hlo hcs hrest _ ihrest =>
    intro c hc
    rcases List.mem_cons.1 hc with rfl | hc
    · exact ⟨hlo, hrest.le⟩
    · exact ⟨(hlo.trans hcs.le).trans (ihrest c hc).1, (ihrest c hc).2⟩

/-- Of two trees side by side the left one stops before the right one starts. -/
theorem pairwise (h : Nested start stop lo hi cs) : (cs.map Rose.root).Pairwise fun a b => stop a ≤ start b := by
  induction h with
  | nil => exact .nil
  | @cons lo hi a cs rest hlo hcs hrest _ ihrest =>
    rw [List.map_cons, Rose.root_node]
    refine List.pairwise_cons.2 ⟨fun b hb => ?_, ihrest⟩
    obtain ⟨c, hc, rfl⟩ := List.mem_map.1 hb
    exact (hrest.roots c hc).1

theorem subtree (h : Nested start stop lo hi cs) :
    ∀ c ∈ cs, ∀ u ∈ c.subtrees, Nested start stop (start u.root) (stop u.root) u.children := by
  induction h with
  | nil => simp
  | @cons lo hi a cs rest hlo hcs hrest ihcs ihrest =>
    intro c hc u hu
    rcases List.mem_cons.1 hc with rfl | hc
    · rw [Rose.subtrees_node, List.mem_cons] at hu
      rcases hu with rfl | hu
      · exact hcs
      · obtain ⟨d, hd, hu⟩ := List.mem_flatMap.1 hu
        exact ihcs d hd u hu
    · exact ihrest c hc u hu

end Nested

end Lib
