import PerunProfiler.CallTree
import PerunProfiler.CallStack

/-!
# What the writers of the call trees do

The climb stops at the root of the tree and repairs the leave times on the way. `Serialize` writes a
tree in preorder and deletes every node below the root after its own subtree has been written.
-/

namespace Perun
open Lib

/-- The record `Serialize` prints of the call at `p`. -/
def recordOf (look : Ptr → Option FunctionClass) (p : Ptr) : FunctionRecord :=
  ((look p).map fun f => f.record (f.prevFunction.bind fun q => (look q).map (·.callOrderNumber))).getD default

mutual
def treeEvents (look : Ptr → Option FunctionClass) : Rose Ptr → List FunctionEvent
  | .node p cs => .written p (recordOf look p) :: calledEvents look cs
def calledEvents (look : Ptr → Option FunctionClass) : List (Rose Ptr) → List FunctionEvent
  | [] => []
  | c :: cs => treeEvents look c ++ .deleted c.root :: calledEvents look cs
end

theorem calledEvents_eq (look : Ptr → Option FunctionClass) (cs : List (Rose Ptr)) :
    calledEvents look cs = cs.flatMap fun c => treeEvents look c ++ [.deleted c.root] := by
  induction cs with
  | nil => simp [calledEvents]
  | cons c cs ih => simp [calledEvents, ih]

theorem treeEvents_node (look : Ptr → Option FunctionClass) (p : Ptr) (cs : List (Rose Ptr)) :
    treeEvents look (.node p cs) =
      .written p (recordOf look p) :: cs.flatMap fun c => treeEvents look c ++ [.deleted c.root] := by
  rw [treeEvents, calledEvents_eq]

section tree
variable {h h' : Heap FunctionClass} {look look' : Ptr → Option FunctionClass} {prev : Option Ptr} {d : Nat}
  {p q : Ptr} {cs : List (Rose Ptr)} {t : Rose Ptr}

theorem TreeRep.child (hr : TreeRep h prev d (.node p cs)) : ∀ c ∈ cs, TreeRep h (some p) (d + 1) c := by
  cases hr with | node _ hcs => exact hcs

theorem TreeRep.get (hr : TreeRep h prev d (.node p cs)) :
    ∃ f, h.get? p = some f ∧ f.prevFunction = prev ∧ f.calledFunctions = cs.map Rose.root ∧ f.depth = d := by
  cases hr with | node hp _ => simpa [shape] using hp

theorem TreeRep.live (hr : TreeRep h prev d t) : ∀ q ∈ t.preorder, ∃ f, h.get? q = some f := by
  induction hr with
  | @node prev d p cs hp _ ih =>
    intro q hq
    rw [Rose.preorder_node, List.mem_cons] at hq
    rcases hq with rfl | hq
    · cases hq : h.get? q with
      | none => simp [shape, hq] at hp
      | some f => exact ⟨f, rfl⟩
    · obtain ⟨c, hc, hq⟩ := List.mem_flatMap.1 hq
      exact ih c hc q hq

theorem TreeRep.recordOf_congr (hr : TreeRep h prev d t) (hp : ∀ q, prev = some q → look q = h.get? q)
    (H : ∀ q ∈ t.preorder, look q = h.get? q) : ∀ q ∈ t.preorder, recordOf look q = recordOf h.get? q := by
  induction hr with
  | @node prev d p cs hshape _ ih =>
    have hpp := H p (by simp)
    intro q hq
    rw [Rose.preorder_node, List.mem_cons] at hq
    rcases hq with rfl | hq
    · cases hget : h.get? q with
      | none => simp [shape, hget] at hshape
      | some f =>
        have hprev : f.prevFunction = prev := by
          simp only [shape, hget, Option.map_some, Option.some.injEq, Prod.mk.injEq] at hshape
          exact hshape.1
        simp only [recordOf, hpp, hget, Option.map_some, hprev]
        cases prev with
        | none => rfl
        | some r => simp only [Option.bind_some, hp r rfl]
    · obtain ⟨c, hc, hq⟩ := List.mem_flatMap.1 hq
      refine ih c hc (fun r hr => ?_) (fun r hr => H r ?_) q hq
      · rw [← Option.some.inj hr]
        exact hpp
      · rw [Rose.preorder_node]
        exact List.mem_cons_of_mem _ (List.mem_flatMap.2 ⟨c, hc, hr⟩)

theorem treeEvents_congr (H : ∀ q ∈ t.preorder, recordOf look q = recordOf look' q) :
    treeEvents look t = treeEvents look' t := by
  induction t with
  | node p cs ih =>
    rw [treeEvents_node, treeEvents_node, H p (by simp)]
    congr 1
    refine List.flatMap_congr fun c hc => ?_
    rw [ih c hc fun q hq => H q ?_]
    rw [Rose.preorder_node]
    exact List.mem_cons_of_mem _ (List.mem_flatMap.2 ⟨c, hc, hq⟩)

/-! ### `Serialize` -/

def Serializes (fuel : Nat) (t : Rose Ptr) : Prop :=
  ∀ {h : Heap FunctionClass} {prev : Option Ptr} {d : Nat}, TreeRep h prev d t → t.preorder.Nodup →
    (∀ q, prev = some q → q ∉ t.preorder ∧ ∃ f, h.get? q = some f) →
    ∃ h', serialize fuel t.root h = .ok (treeEvents h.get? t, h') ∧ h'.size = h.size ∧
      (∀ q, q ∉ t.preorder → h'.get? q = h.get? q) ∧ (∃ f, h'.get? t.root = some f) ∧
      ∀ q ∈ t.preorder, q ≠ t.root → h'.get? q = none

theorem serializeCalled_spec {fuel : Nat} (hs : ∀ c ∈ cs, Serializes fuel c)
    (hr : ∀ c ∈ cs, TreeRep h (some p) d c) (hnd : (cs.flatMap Rose.preorder).Nodup)
    (hp : p ∉ cs.flatMap Rose.preorder) (hlive : ∃ f, h.get? p = some f) :
    ∃ h', serializeCalled (serialize fuel) (cs.map Rose.root) h = .ok (calledEvents h.get? cs, h') ∧
      h'.size = h.size ∧ (∀ q, q ∉ cs.flatMap Rose.preorder → h'.get? q = h.get? q) ∧
      ∀ q ∈ cs.flatMap Rose.preorder, h'.get? q = none := by
  induction cs generalizing h with
  | nil => exact ⟨h, rfl, rfl, fun _ _ => rfl, by simp⟩
  | cons c cs ih =>
    simp only [List.flatMap_cons, List.nodup_append, List.mem_append, not_or] at hnd hp
    obtain ⟨hndc, hndcs, hdisj⟩ := hnd
    have hrc := hr c (by simp)
    obtain ⟨h₁, hser, hsize, hsame, ⟨f, hroot⟩, hgone⟩ := hs c (by simp) hrc hndc fun q hq => by
      rw [← Option.some.inj hq]
      exact ⟨hp.1, hlive⟩
    have hfree : ∀ q, (h₁.free c.root).get? q = if q ∈ c.preorder then none else h.get? q := by
      intro q
      rw [Heap.get?_free]
      by_cases hq : q ∈ c.preorder
      · by_cases hqr : q = c.root
        · rw [if_pos hqr, if_pos hq]
        · rw [if_neg hqr, if_pos hq, hgone q hq hqr]
      · rw [if_neg fun (e : q = c.root) => hq (e ▸ c.root_mem_preorder), if_neg hq, hsame q hq]
    -- the rest of the trees and the record above them are untouched so far
    have hrest : ∀ q ∈ cs.flatMap Rose.preorder, (h₁.free c.root).get? q = h.get? q := by
      intro q hq
      rw [hfree, if_neg fun hqc => hdisj q hqc q hq rfl]
    have hpp : (h₁.free c.root).get? p = h.get? p := by rw [hfree, if_neg hp.1]
    have hr' : ∀ c' ∈ cs, TreeRep (h₁.free c.root) (some p) d c' := fun c' hc' =>
      (hr c' (List.mem_cons_of_mem _ hc')).congr fun q hq => by
        simp only [shape, hrest q (List.mem_flatMap.2 ⟨c', hc', hq⟩)]
    obtain ⟨h₂, hser₂, hsize₂, hsame₂, hgone₂⟩ := ih (fun c' hc' => hs c' (List.mem_cons_of_mem _ hc')) hr' hndcs
      hp.2 (by rw [hpp]; exact hlive)
    have hevents : calledEvents (h₁.free c.root).get? cs = calledEvents h.get? cs := by
      rw [calledEvents_eq, calledEvents_eq]
      refine List.flatMap_congr fun c' hc' => ?_
      rw [treeEvents_congr]
      refine (hr c' (List.mem_cons_of_mem _ hc')).recordOf_congr (fun q hq => ?_) fun q hq => ?_
      · rw [← Option.some.inj hq]
        exact hpp
      · exact hrest q (List.mem_flatMap.2 ⟨c', hc', hq⟩)
    refine ⟨h₂, ?_, by rw [hsize₂, Heap.size_free, hsize], fun q hq => ?_, fun q hq => ?_⟩
    · simp only [List.map_cons, serializeCalled, hser, deref_ok.2 hroot, hser₂, hevents, calledEvents]
    · simp only [List.flatMap_cons, List.mem_append, not_or] at hq
      rw [hsame₂ q hq.2, hfree, if_neg hq.1]
    · simp only [List.flatMap_cons, List.mem_append] at hq
      by_cases hqcs : q ∈ cs.flatMap Rose.preorder
      · exact hgone₂ q hqcs
      · rw [hsame₂ q hqcs, hfree, if_pos (hq.resolve_right hqcs)]

theorem serializes {fuel : Nat} (hf : t.preorder.length ≤ fuel) : Serializes fuel t := by
  induction t generalizing fuel with
  | node p cs ih =>
    intro h prev d hr hnd hprev
    obtain ⟨fuel, rfl⟩ : ∃ n, fuel = n + 1 := ⟨fuel - 1, by simp at hf; omega⟩
    obtain ⟨f, hp, hfprev, hfcalled, -⟩ := hr.get
    rw [Rose.preorder_node, List.nodup_cons] at hnd
    have hlen : ∀ c ∈ cs, c.preorder.length ≤ fuel := by
      intro c hc
      have h1 := (List.sublist_flatten_of_mem (List.mem_map_of_mem (f := Rose.preorder) hc)).length_le
      simp only [Rose.preorder_node, List.length_cons, List.flatMap_def] at hf
      omega
    obtain ⟨h', hser, hsize, hsame, hgone⟩ := serializeCalled_spec (fun c hc => ih c hc (hlen c hc)) hr.child
      hnd.2 hnd.1 ⟨f, hp⟩
    have hp' : h'.get? p = some f := (hsame p hnd.1).trans hp
    have hnum : previousNumber h f.prevFunction =
        .ok (f.prevFunction.bind fun q => (h.get? q).map (·.callOrderNumber)) := by
      rw [hfprev]
      cases prev with
      | none => rfl
      | some q =>
        obtain ⟨-, g, hg⟩ := hprev q rfl
        simp only [previousNumber, deref_ok.2 hg, Option.bind_some, hg, Option.map_some]
    have hget := fun q => Heap.get?_set (a := { f with calledFunctions := [] }) (q := q) hp'
    refine ⟨h'.set p { f with calledFunctions := [] }, ?_, by rw [Heap.size_set, hsize], fun q hq => ?_,
      ⟨_, (hget p).trans (if_pos rfl)⟩, fun q hq hne => ?_⟩
    · rw [Rose.root_node, serialize]
      simp only [deref_ok.2 hp, hnum, hfcalled, hser, deref_ok.2 hp', treeEvents, recordOf, hp, Option.map_some,
        Option.getD_some]
    · rw [Rose.preorder_node, List.mem_cons, not_or] at hq
      rw [hget, if_neg hq.1, hsame q hq.2]
    · rw [Rose.preorder_node, List.mem_cons] at hq
      rw [Rose.root_node] at hne
      rw [hget, if_neg hne, hgone q (hq.resolve_left hne)]

/-! ### The climb -/

/-- The climb ends at the root; it repairs the records on the path and no other. -/
theorem climb_spec (now : Clock) {fuel : Nat} {next : Option Ptr} {sp : Spine Ptr}
    (hr : SpineRep h next ((p, cs) :: sp)) (hnd : (p :: Spine.path sp).Nodup) (hf : sp.length < fuel)
    (ds : List (Rose Ptr)) :
    ∃ h', climb now fuel p h = .ok ((Spine.plug (.node p ds) sp).root, h') ∧ h'.size = h.size ∧
      ∀ q, h'.get? q = if q ∈ p :: Spine.path sp then (h.get? q).map (·.repair now) else h.get? q := by
  induction sp generalizing p cs h next fuel ds with
  | nil =>
    obtain ⟨fuel, rfl⟩ : ∃ n, fuel = n + 1 := ⟨fuel - 1, by omega⟩
    obtain ⟨f, hp, hprev, -⟩ := hr.get
    refine ⟨h.set p (f.repair now), ?_, Heap.size_set, fun q => ?_⟩
    · rw [climb]
      simp only [deref_ok.2 hp, hprev]
      rfl
    · rw [Heap.get?_set hp]
      by_cases hq : q = p <;> simp [Spine.path, hq, hp]
  | cons x sp ih =>
    obtain ⟨r, es⟩ := x
    obtain ⟨fuel, rfl⟩ : ∃ n, fuel = n + 1 := ⟨fuel - 1, by simp at hf; omega⟩
    obtain ⟨f, hp, hprev, -⟩ := hr.get
    have hnd' : (r :: Spine.path sp).Nodup := (List.nodup_cons.1 hnd).2
    have hshape : ∀ q, shape (h.set p (f.repair now)) q = shape h q := by
      intro q
      simp only [shape, Heap.get?_set hp]
      split
      · next hq =>
        rw [hq, hp]
        simp only [Option.map_some, FunctionClass.repair]
        split <;> rfl
      · rfl
    obtain ⟨h', hclimb, hsize, hget⟩ := ih (hr.2.2.congr fun q _ => hshape q) hnd' (by simpa using hf)
      (es ++ [.node p ds])
    refine ⟨h', ?_, by rw [hsize, Heap.size_set], fun q => ?_⟩
    · rw [climb]
      simp only [deref_ok.2 hp, hprev]
      exact hclimb
    · rw [hget, Heap.get?_set hp]
      by_cases hq : q = p
      · subst hq
        have hno : q ∉ r :: Spine.path sp := (List.nodup_cons.1 hnd).1
        rw [if_neg hno, if_pos rfl, if_pos (by simp), hp]
        rfl
      · rw [if_neg hq]
        have hmem : q ∈ p :: Spine.path ((r, es) :: sp) ↔ q ∈ r :: Spine.path sp := by
          simp [Spine.path, hq]
        simp only [hmem]

end tree

end Perun
