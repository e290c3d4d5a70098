import PerunProfiler.Callbacks
import PerunProfiler.Lib.Spine

/-!
# The call records of a thread as a spine

`ThreadRep s tid sp`: the records of the thread are the tree `sp` stands for, linked both ways, and
the active function and its chain of previous functions are the path of `sp`. Entering pushes,
leaving pops (`spineStep`); every callback keeps the relation (`Spines.step`).
-/

namespace Perun
open Lib

/-- What the call trees are made of in a record: everything but the times and the name. -/
def FunctionClass.skel (f : FunctionClass) : Option Ptr × List Ptr × Nat × ThreadID × FunctionID × Nat :=
  (f.prevFunction, f.calledFunctions, f.depth, f.TID, f.funcId, f.callOrderNumber)

def shape (h : Heap FunctionClass) (p : Ptr) : Option (Option Ptr × List Ptr × Nat) :=
  (h.get? p).map fun f => (f.prevFunction, f.calledFunctions, f.depth)

def orderNumber (h : Heap FunctionClass) (p : Ptr) : Nat := (h.get? p).elim 0 (·.callOrderNumber)

/-- The records of a thread, in the order of their creation. -/
def CoreProfiler.recordsOf (s : CoreProfiler) (tid : ThreadID) : List Ptr :=
  s.functions.addrs fun f => f.TID = tid

/-- `t` is the tree below its root record, linked both ways, with `prev` before the root and the
root at depth `d`. -/
inductive TreeRep (h : Heap FunctionClass) : Option Ptr → Nat → Rose Ptr → Prop
  | node {prev : Option Ptr} {d : Nat} {p : Ptr} {cs : List (Rose Ptr)}
      (hp : shape h p = some (prev, cs.map Rose.root, d)) (hcs : ∀ c ∈ cs, TreeRep h (some p) (d + 1) c) :
      TreeRep h prev d (.node p cs)

/-- The frames of a spine; `next` is the last called function of the innermost one. -/
def SpineRep (h : Heap FunctionClass) : Option Ptr → Spine Ptr → Prop
  | _, [] => True
  | next, (p, cs) :: sp =>
    shape h p = some ((Spine.path sp).head?, cs.map Rose.root ++ next.toList, sp.length) ∧
      (∀ c ∈ cs, TreeRep h (some p) (sp.length + 1) c) ∧ SpineRep h (some p) sp

structure ThreadRep (s : CoreProfiler) (tid : ThreadID) (sp : Spine Ptr) : Prop where
  active : s.activeFunction tid = sp.path.head?
  rep : SpineRep s.functions none sp
  pre : sp.preorder = s.recordsOf tid
  num : (s.recordsOf tid).map (orderNumber s.functions) = List.range (s.recordsOf tid).length
  count : sp ≠ [] → (s.threadEntry tid).1 + 1 = (s.recordsOf tid).length

section heap
variable {h h' : Heap FunctionClass} {p q : Ptr}

theorem shape_of_skel (hs : (h'.get? p).map FunctionClass.skel = (h.get? p).map FunctionClass.skel) :
    shape h' p = shape h p := by
  have := congrArg (Option.map fun x => (x.1, x.2.1, x.2.2.1)) hs
  simpa [shape, Option.map_map, Function.comp_def, FunctionClass.skel] using this

theorem orderNumber_of_skel (hs : (h'.get? p).map FunctionClass.skel = (h.get? p).map FunctionClass.skel) :
    orderNumber h' p = orderNumber h p := by
  have := congrArg (fun x => x.elim 0 fun y => y.2.2.2.2.2) hs
  simpa [orderNumber, Option.elim_map, Function.comp_def, FunctionClass.skel] using this

theorem tid_of_skel (tid : ThreadID)
    (hs : (h'.get? p).map FunctionClass.skel = (h.get? p).map FunctionClass.skel) :
    (h'.get? p).any (fun f => f.TID = tid) = (h.get? p).any (fun f => f.TID = tid) := by
  cases hp : h'.get? p <;> cases hq : h.get? p <;> simp_all [FunctionClass.skel]

theorem TreeRep.congr {prev : Option Ptr} {d : Nat} {t : Rose Ptr}
    (H : ∀ p ∈ t.preorder, shape h' p = shape h p) (hr : TreeRep h prev d t) : TreeRep h' prev d t := by
  induction hr with
  | @node prev d p cs hp _ ih =>
    refine .node ((H p (by simp)).trans hp) fun c hc => ih c hc fun q hq => H q ?_
    rw [Rose.preorder_node]
    exact List.mem_cons_of_mem _ (List.mem_flatMap.2 ⟨c, hc, hq⟩)

theorem SpineRep.congr {next : Option Ptr} {sp : Spine Ptr}
    (H : ∀ p ∈ sp.preorder, shape h' p = shape h p) (hr : SpineRep h next sp) : SpineRep h' next sp := by
  induction sp generalizing next with
  | nil => trivial
  | cons x sp ih =>
    obtain ⟨p, cs⟩ := x
    obtain ⟨hp, hcs, hsp⟩ := hr
    rw [Spine.preorder_cons] at H
    refine ⟨(H p (by simp)).trans hp, fun c hc => (hcs c hc).congr fun q hq => H q ?_,
      ih (fun q hq => H q (List.mem_append_left _ hq)) hsp⟩
    rw [Rose.preorder_node]
    exact List.mem_append_right _ (List.mem_cons_of_mem _ (List.mem_flatMap.2 ⟨c, hc, hq⟩))

theorem SpineRep.push {n : Ptr} {cs : List (Rose Ptr)} {sp : Spine Ptr} (hr : SpineRep h none ((q, cs) :: sp))
    (hnd : (Spine.preorder ((q, cs) :: sp)).Nodup)
    (hn : shape h' n = some (some q, [], sp.length + 1))
    (hq : shape h' q = some (sp.path.head?, cs.map Rose.root ++ [n], sp.length))
    (H : ∀ p ∈ Spine.preorder ((q, cs) :: sp), p ≠ q → shape h' p = shape h p) :
    SpineRep h' none (Spine.push n ((q, cs) :: sp)) := by
  obtain ⟨_, hcs, hsp⟩ := hr
  simp only [Spine.preorder_cons, Rose.preorder_node, List.nodup_append, List.nodup_cons] at hnd
  obtain ⟨-, ⟨hqcs, -⟩, hdisj⟩ := hnd
  rw [Spine.preorder_cons, Rose.preorder_node] at H
  refine ⟨hn, by simp, hq, fun c hc => (hcs c hc).congr fun p hp => ?_, hsp.congr fun p hp => ?_⟩
  · have hpm : p ∈ cs.flatMap Rose.preorder := List.mem_flatMap.2 ⟨c, hc, hp⟩
    exact H p (by simp [hpm]) fun e => hqcs (e ▸ hpm)
  · exact H p (List.mem_append_left _ hp) (hdisj p hp q (by simp))

theorem SpineRep.pop {sp : Spine Ptr} (hr : SpineRep h none sp) : SpineRep h none sp.pop := by
  match sp with
  | [] => exact hr
  | [_] => exact hr
  | (p, cs) :: (q, ds) :: sp =>
    obtain ⟨hp, hcs, hq, hds, hsp⟩ := hr
    refine ⟨by simpa using hq, fun c hc => ?_, hsp⟩
    rcases List.mem_append.1 hc with hc | hc
    · exact hds c hc
    · rw [List.mem_singleton.1 hc]
      exact .node (by simpa [Spine.path] using hp) hcs

theorem SpineRep.get {next : Option Ptr} {cs : List (Rose Ptr)} {sp : Spine Ptr}
    (hr : SpineRep h next ((p, cs) :: sp)) :
    ∃ f, h.get? p = some f ∧ f.prevFunction = sp.path.head? ∧
      f.calledFunctions = cs.map Rose.root ++ next.toList ∧ f.depth = sp.length := by
  obtain ⟨hp, -⟩ := hr
  simpa [shape] using hp

end heap

def spineStep (s : CoreProfiler) (tid : ThreadID) (e : Callback) (sp : Spine Ptr) : Spine Ptr :=
  match e.move with
  | some (.enter f t _) => if t = tid ∧ s.traced f then sp.push s.functions.size else sp
  | some (.leave t _) => if t = tid then sp.pop else sp
  | none => sp

def Spines (s : CoreProfiler) (σ : ThreadID → Spine Ptr) : Prop := ∀ tid, ThreadRep s tid (σ tid)

namespace ThreadRep
variable {s s' : CoreProfiler} {tid t : ThreadID} {sp : Spine Ptr}

theorem congr (hr : ThreadRep s tid sp) (hsz : s'.functions.size = s.functions.size)
    (hsk : ∀ p, (s'.functions.get? p).map FunctionClass.skel = (s.functions.get? p).map FunctionClass.skel)
    (ha : s'.activeFunction tid = s.activeFunction tid) (hc : (s'.threadEntry tid).1 = (s.threadEntry tid).1) :
    ThreadRep s' tid sp := by
  have hrec : s'.recordsOf tid = s.recordsOf tid := Heap.addrs_congr hsz fun p => tid_of_skel tid (hsk p)
  refine ⟨ha.trans hr.active, hr.rep.congr fun p _ => shape_of_skel (hsk p), hr.pre.trans hrec.symm, ?_, ?_⟩
  · rw [hrec, ← hr.num]
    exact List.map_congr_left fun p _ => orderNumber_of_skel (hsk p)
  · rw [hrec, hc]; exact hr.count

theorem of_eq (hr : ThreadRep s tid sp) (hf : s'.functions = s.functions)
    (he : s'.threadEntry tid = s.threadEntry tid) : ThreadRep s' tid sp :=
  hr.congr (by rw [hf]) (fun p => by rw [hf]) (by simp only [CoreProfiler.activeFunction, he]) (by rw [he])

theorem mem_preorder (hr : ThreadRep s tid sp) {p : Ptr} :
    p ∈ sp.preorder ↔ ∃ f, s.functions.get? p = some f ∧ f.TID = tid := by
  rw [hr.pre, CoreProfiler.recordsOf, Heap.mem_addrs]; simp

theorem nodup (hr : ThreadRep s tid sp) : sp.preorder.Nodup := by
  rw [hr.pre]; exact Heap.nodup_addrs

theorem cons_of_active (hr : ThreadRep s tid sp) {p : Ptr} (ha : s.activeFunction tid = some p) :
    ∃ cs rest, sp = (p, cs) :: rest := by
  cases sp with
  | nil => rw [hr.active] at ha; cases ha
  | cons x rest =>
    obtain ⟨q, cs⟩ := x
    rw [hr.active] at ha
    obtain rfl : q = p := by simpa [Spine.path] using ha
    exact ⟨cs, rest, rfl⟩

theorem nil_of_active (hr : ThreadRep s tid sp) (ha : s.activeFunction tid = none) : sp = [] := by
  cases sp with
  | nil => rfl
  | cons x rest => rw [hr.active] at ha; simp [Spine.path] at ha

/-- Leaving the innermost call: the heap is the same up to times and the path is one shorter. -/
theorem pop (hr : ThreadRep s tid sp) (hsz : s'.functions.size = s.functions.size)
    (hsk : ∀ p, (s'.functions.get? p).map FunctionClass.skel = (s.functions.get? p).map FunctionClass.skel)
    (ha : s'.activeFunction tid = sp.pop.path.head?) (hc : (s'.threadEntry tid).1 = (s.threadEntry tid).1) :
    ThreadRep s' tid sp.pop := by
  have hrec : s'.recordsOf tid = s.recordsOf tid := Heap.addrs_congr hsz fun p => tid_of_skel tid (hsk p)
  refine ⟨ha, (hr.rep.congr fun p _ => shape_of_skel (hsk p)).pop, ?_, ?_, fun hne => ?_⟩
  · rw [Spine.preorder_pop, hr.pre, hrec]
  · rw [hrec, ← hr.num]
    exact List.map_congr_left fun p _ => orderNumber_of_skel (hsk p)
  · rw [hrec, hc]
    exact hr.count fun h => hne (by rw [h]; rfl)

theorem enterTop {function : FunctionClass} (hr : ThreadRep s t []) (ht : function.TID = t)
    (hcf : function.calledFunctions = []) :
    ThreadRep (enterTop function t s) t (Spine.push s.functions.size []) := by
  have hnil : s.recordsOf t = [] := hr.pre.symm
  have hrec : (Perun.enterTop function t s).recordsOf t = [s.functions.size] := by
    show (s.functions.alloc _).addrs _ = _
    rw [Heap.addrs_alloc, show s.functions.addrs _ = _ from hnil]
    simp [ht]
  refine ⟨?_, ⟨?_, by simp, trivial⟩, by rw [hrec]; rfl, ?_, fun _ => ?_⟩
  · simp [CoreProfiler.activeFunction, CoreProfiler.threadEntry, Perun.enterTop, Spine.path, Spine.push]
  · simp [shape, Perun.enterTop, Spine.path, hcf]
  · rw [hrec]; simp [orderNumber, Perun.enterTop]
  · rw [hrec]; simp [CoreProfiler.threadEntry, Perun.enterTop]

end ThreadRep

section enterBelow
variable {s : CoreProfiler} {t tid : ThreadID} {first : Nat} {function prevFunction : FunctionClass} {prev : Ptr}

theorem get?_enterBelow (function : FunctionClass) (t : ThreadID) (first : Nat)
    (hp : s.functions.get? prev = some prevFunction) (q : Ptr) :
    (enterBelow function t first prev prevFunction s).functions.get? q =
      if q = prev then
        some { prevFunction with calledFunctions := prevFunction.calledFunctions ++ [s.functions.size] }
      else if q = s.functions.size then
        some { function with
          callOrderNumber := first + 1, depth := prevFunction.depth + 1, prevFunction := some prev }
      else s.functions.get? q := by
  show ((s.functions.alloc _).set prev _).get? q = _
  rw [Heap.get?_set (Heap.get?_alloc_of_some hp), Heap.get?_alloc]

theorem recordsOf_enterBelow (function : FunctionClass) (t tid : ThreadID) (first : Nat)
    (hp : s.functions.get? prev = some prevFunction) :
    (enterBelow function t first prev prevFunction s).recordsOf tid =
      s.recordsOf tid ++ if function.TID = tid then [s.functions.size] else [] := by
  show ((s.functions.alloc _).set prev _).addrs _ = _
  refine (Heap.addrs_set (Heap.get?_alloc_of_some hp) (by simp)).trans ?_
  simp [Heap.addrs_alloc, CoreProfiler.recordsOf]

theorem threadEntry_enterBelow (s : CoreProfiler) (function prevFunction : FunctionClass) (t tid : ThreadID)
    (first : Nat) (prev : Ptr) : (enterBelow function t first prev prevFunction s).threadEntry tid =
    if t = tid then (first + 1, some s.functions.size) else s.threadEntry tid := by
  simp [CoreProfiler.threadEntry, enterBelow, Std.ExtTreeMap.getD_insert]

theorem ThreadRep.enterBelow_ne {sp : Spine Ptr} (hr : ThreadRep s tid sp) (hne : t ≠ tid)
    (hp : s.functions.get? prev = some prevFunction) (hpt : prevFunction.TID = t) (ht : function.TID = t) :
    ThreadRep (enterBelow function t first prev prevFunction s) tid sp := by
  have hget : ∀ p ∈ sp.preorder,
      (enterBelow function t first prev prevFunction s).functions.get? p = s.functions.get? p := by
    intro p hps
    obtain ⟨f, hf, hft⟩ := hr.mem_preorder.1 hps
    have h1 : p ≠ prev := fun e => hne (by
      rw [e, hp] at hf
      rw [← hft, ← Option.some.inj hf, hpt])
    rw [get?_enterBelow _ _ _ hp, if_neg h1, if_neg (Nat.ne_of_lt (Heap.lt_size hf))]
  have hrec : (enterBelow function t first prev prevFunction s).recordsOf tid = s.recordsOf tid := by
    rw [recordsOf_enterBelow _ _ _ _ hp, if_neg (ht ▸ hne), List.append_nil]
  have hte := threadEntry_enterBelow s function prevFunction t tid first prev
  rw [if_neg hne] at hte
  refine ⟨by simp only [CoreProfiler.activeFunction, hte]; exact hr.active,
    hr.rep.congr fun p hps => by simp only [shape, hget p hps], hr.pre.trans hrec.symm, ?_, ?_⟩
  · rw [hrec, ← hr.num]
    refine List.map_congr_left fun p hps => ?_
    simp only [orderNumber, hget p (hr.pre ▸ hps)]
  · rw [hrec, hte]; exact hr.count

theorem ThreadRep.enterBelow {cs : List (Rose Ptr)} {rest : Spine Ptr}
    (hr : ThreadRep s t ((prev, cs) :: rest)) (hp : s.functions.get? prev = some prevFunction)
    (ht : function.TID = t) (hcf : function.calledFunctions = []) :
    ThreadRep (enterBelow function t (s.threadEntry t).1 prev prevFunction s) t
      (Spine.push s.functions.size ((prev, cs) :: rest)) := by
  have hsize : s.functions.size ≠ prev := (Nat.ne_of_lt (Heap.lt_size hp)).symm
  obtain ⟨f, hf, hfp, hfc, hfd⟩ := hr.rep.get
  obtain rfl : prevFunction = f := Option.some.inj (hp.symm.trans hf)
  have hget := get?_enterBelow function t (s.threadEntry t).1 hp
  have hrec := recordsOf_enterBelow function t t (s.threadEntry t).1 hp
  have hte := threadEntry_enterBelow s function prevFunction t t (s.threadEntry t).1 prev
  rw [if_pos ht] at hrec
  rw [if_pos rfl] at hte
  have hcount := hr.count (by simp)
  refine ⟨by simp only [CoreProfiler.activeFunction, hte, Spine.path_push, List.head?_cons],
    hr.rep.push hr.nodup ?_ ?_ ?_, ?_, ?_, fun _ => ?_⟩
  · simp [shape, hget, hsize, hcf, hfd]
  · simp [shape, hget, hfp, hfc, hfd]
  · intro p hps hne
    obtain ⟨g, hg, -⟩ := hr.mem_preorder.1 hps
    simp only [shape, hget, if_neg hne, if_neg (Nat.ne_of_lt (Heap.lt_size hg))]
  · rw [Spine.preorder_push, hr.pre, hrec]
  · rw [hrec, List.map_append, List.length_append, List.length_singleton, List.range_succ, ← hr.num]
    congr 1
    · refine List.map_congr_left fun p hps => ?_
      obtain ⟨g, hg, -⟩ := hr.mem_preorder.1 (hr.pre ▸ hps)
      by_cases hpp : p = prev
      · subst hpp; simp [orderNumber, hget, hp]
      · simp only [orderNumber, hget, if_neg hpp, if_neg (Nat.ne_of_lt (Heap.lt_size hg))]
    · simp [orderNumber, hget, hsize, hcount]
  · rw [hte, hrec, List.length_append, List.length_singleton, ← hcount]

end enterBelow

theorem ThreadRep.enterTop_ne {s : CoreProfiler} {t tid : ThreadID} {function : FunctionClass} {sp : Spine Ptr}
    (hr : ThreadRep s tid sp) (hne : t ≠ tid) (ht : function.TID = t) :
    ThreadRep (Perun.enterTop function t s) tid sp := by
  have hget : ∀ p ∈ sp.preorder, (Perun.enterTop function t s).functions.get? p = s.functions.get? p := by
    intro p hps
    obtain ⟨f, hf, -⟩ := hr.mem_preorder.1 hps
    show (s.functions.alloc _).get? p = _
    rw [Heap.get?_alloc, if_neg (Nat.ne_of_lt (Heap.lt_size hf))]
  have hrec : (Perun.enterTop function t s).recordsOf tid = s.recordsOf tid := by
    show (s.functions.alloc _).addrs _ = _
    rw [Heap.addrs_alloc]
    simp [ht, hne, CoreProfiler.recordsOf]
  have hte : (Perun.enterTop function t s).threadEntry tid = s.threadEntry tid := by
    simp [CoreProfiler.threadEntry, Perun.enterTop, Std.ExtTreeMap.getD_insert, hne]
  refine ⟨by simp only [CoreProfiler.activeFunction, hte]; exact hr.active,
    hr.rep.congr fun p hps => by simp only [shape, hget p hps], hr.pre.trans hrec.symm, ?_, ?_⟩
  · rw [hrec, ← hr.num]
    refine List.map_congr_left fun p hps => ?_
    simp only [orderNumber, hget p (hr.pre ▸ hps)]
  · rw [hrec, hte]; exact hr.count

namespace Spines
variable {s s' : CoreProfiler} {σ : ThreadID → Spine Ptr} {f : FunctionID} {t : ThreadID} {now : Clock}

theorem enter (hσ : Spines s σ) (h : Perun.enter f t now s = .ok s') (tid : ThreadID) :
    ThreadRep s' tid (if t = tid ∧ s.traced f then (σ tid).push s.functions.size else σ tid) := by
  rcases enter_cases h with ⟨hf, rfl⟩ | ⟨hf, info, -, ⟨ha, rfl⟩ | ⟨prev, prevFunction, ha, hp, rfl⟩⟩
  · rw [if_neg (by simp [hf])]
    exact (hσ tid).of_eq rfl rfl
  · by_cases ht : t = tid
    · subst ht
      have hnil := (hσ t).nil_of_active ha
      rw [if_pos ⟨rfl, hf⟩, hnil]
      exact (hnil ▸ hσ t).enterTop rfl rfl
    · rw [if_neg (by simp [ht])]
      exact (hσ tid).enterTop_ne ht rfl
  · obtain ⟨cs, rest, hsp⟩ := (hσ t).cons_of_active ha
    have hrt := hσ t
    rw [hsp] at hrt
    by_cases ht : t = tid
    · subst ht
      rw [if_pos ⟨rfl, hf⟩, hsp]
      exact hrt.enterBelow hp rfl rfl
    · rw [if_neg (by simp [ht])]
      obtain ⟨g, hg, hgt⟩ := hrt.mem_preorder.1 (show prev ∈ Spine.preorder ((prev, cs) :: rest) by
        simp [Spine.preorder_cons])
      obtain rfl : prevFunction = g := Option.some.inj (hp.symm.trans hg)
      exact (hσ tid).enterBelow_ne ht hp hgt rfl

theorem leaveActive (hσ : Spines s σ) (h : Perun.leaveActive t now s = .ok s') (tid : ThreadID) :
    ThreadRep s' tid (if t = tid then (σ tid).pop else σ tid) := by
  rcases leaveActive_cases h with ⟨hn, hs⟩ | ⟨first, active, function, he, hf, rfl⟩
  · rw [hs]
    split
    · next ht =>
      subst ht
      have ha : s.activeFunction t = none := by
        simp [CoreProfiler.activeFunction, CoreProfiler.threadEntry, Std.ExtTreeMap.getD_eq_getD_getElem?, hn]
      have hpop : (σ t).pop = σ t := by rw [(hσ t).nil_of_active ha]; rfl
      rw [hpop]
      exact hσ t
    · exact hσ tid
  -- the heap changes in the leave times only
  have hsk : ∀ p, ((s.functions.set active (function.stamp now)).get? p).map FunctionClass.skel =
      (s.functions.get? p).map FunctionClass.skel := by
    intro p
    rw [Heap.get?_set hf]
    split
    · next hp => rw [hp, hf]; rfl
    · rfl
  by_cases ht : t = tid
  · subst ht
    rw [if_pos rfl]
    obtain ⟨cs, rest, hsp⟩ := (hσ t).cons_of_active (CoreProfiler.activeFunction_eq he)
    have hrt := hσ t
    rw [hsp] at hrt ⊢
    obtain ⟨g, hg, hgp, -⟩ := hrt.rep.get
    obtain rfl : function = g := Option.some.inj (hf.symm.trans hg)
    cases rest with
    | nil =>
      refine hrt.pop Heap.size_set hsk ?_ ?_ <;>
        simp [CoreProfiler.activeFunction, CoreProfiler.threadEntry, hgp, Spine.path, Spine.pop,
          Std.ExtTreeMap.getD_eq_getD_getElem?, he]
    | cons x rest =>
      obtain ⟨q, ds⟩ := x
      refine hrt.pop Heap.size_set hsk ?_ ?_ <;>
        simp [CoreProfiler.activeFunction, CoreProfiler.threadEntry, hgp, Spine.path, Spine.pop,
          Std.ExtTreeMap.getD_eq_getD_getElem?, he]
  · rw [if_neg ht]
    refine (hσ tid).congr Heap.size_set hsk ?_ ?_ <;> cases function.prevFunction <;>
      simp [CoreProfiler.activeFunction, CoreProfiler.threadEntry, Std.ExtTreeMap.getD_insert, ht]

/-- Every callback takes the spines of all threads along. -/
theorem step {e : Callback} (ha : s.Alive) (hσ : Spines s σ) (h : Perun.step s e = .ok s') :
    Spines s' fun tid => spineStep s tid e (σ tid) := by
  intro tid
  unfold spineStep
  rcases step_move ha h with ⟨f, t, now, hm, h⟩ | ⟨t, now, hm, h⟩ | ⟨hm, hf, he⟩
  · rw [hm]; exact hσ.enter h tid
  · rw [hm]; exact hσ.leaveActive h tid
  · rw [hm]; exact (hσ tid).of_eq hf (he tid)

theorem start (c : Config) : Spines c.start fun _ => [] := fun _ =>
  ⟨rfl, trivial, rfl, rfl, fun h => absurd rfl h⟩

end Spines

theorem enter_new {s s' : CoreProfiler} {f : FunctionID} {t : ThreadID} {now : Clock} (ht : s.traced f = true)
    (h : enter f t now s = .ok s') :
    ∃ r, s'.functions.get? s.functions.size = some r ∧ r.funcId = f ∧ r.TID = t := by
  rcases enter_cases h with ⟨hf, -⟩ | ⟨-, info, -, ⟨-, rfl⟩ | ⟨prev, prevFunction, -, hprev, rfl⟩⟩
  · rw [ht] at hf
    cases hf
  · exact ⟨_, Heap.get?_alloc_size, rfl, rfl⟩
  · rw [get?_enterBelow _ _ _ hprev, if_neg (Nat.ne_of_lt (Heap.lt_size hprev)).symm, if_pos rfl]
    exact ⟨_, rfl, rfl, rfl⟩

/-- What `Enter` gives a record for good. -/
def FunctionClass.birth (f : FunctionClass) : Option Ptr × Nat × ThreadID × FunctionID × Nat :=
  (f.prevFunction, f.depth, f.TID, f.funcId, f.callOrderNumber)

theorem step_birth {s s' : CoreProfiler} {e : Callback} (ha : s.Alive) (h : step s e = .ok s') {p : Ptr}
    {f : FunctionClass} (hp : s.functions.get? p = some f) :
    ∃ f', s'.functions.get? p = some f' ∧ f'.birth = f.birth := by
  rcases step_move ha h with ⟨fid, t, now, -, h⟩ | ⟨t, now, -, h⟩ | ⟨-, hf, -⟩
  · rcases enter_cases h with ⟨-, rfl⟩ | ⟨-, info, -, ⟨-, rfl⟩ | ⟨prev, prevFunction, -, hprev, rfl⟩⟩
    · exact ⟨f, hp, rfl⟩
    · exact ⟨f, Heap.get?_alloc_of_some hp, rfl⟩
    · rw [get?_enterBelow _ _ _ hprev]
      by_cases hq : p = prev
      · subst hq
        obtain rfl := Option.some.inj (hp.symm.trans hprev)
        exact ⟨_, if_pos rfl, rfl⟩
      · exact ⟨f, by rw [if_neg hq, if_neg (Nat.ne_of_lt (Heap.lt_size hp)), hp], rfl⟩
  · rcases leaveActive_cases h with ⟨-, rfl⟩ | ⟨first, active, function, -, hact, rfl⟩
    · exact ⟨f, hp, rfl⟩
    · simp only [Heap.get?_set hact]
      by_cases hq : p = active
      · subst hq
        obtain rfl := Option.some.inj (hp.symm.trans hact)
        exact ⟨_, if_pos rfl, rfl⟩
      · exact ⟨f, by rw [if_neg hq, hp], rfl⟩
  · exact ⟨f, by rw [hf, hp], rfl⟩

/-- In every reachable state the records of every thread are a spine. -/
theorem Reachable.spines {s : CoreProfiler} (h : Reachable s) : ∃ σ, Spines s σ := by
  have := h.inv (P := fun s => s.Alive ∧ ∃ σ, Spines s σ)
    (fun c => ⟨(Reachable.start c).alive, _, Spines.start c⟩)
    fun s e s' ⟨ha, σ, hσ⟩ hs => ⟨ha.step hs, _, hσ.step ha hs⟩
  exact this.2

end Perun
