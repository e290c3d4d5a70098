import Mathlib.Logic.Relation
import PerunProfiler.Writers

/-!
# The functions section

Every thread's tree is written in preorder and deleted from below. Within a thread the numbers are
distinct and every record names its previous function's, so the trees can be read back.
-/

namespace Perun
open Lib

/-- The records of calls once `Shutdown` has repaired the active ones. -/
def closed (s : CoreProfiler) (now : Clock) (p : Ptr) : Option FunctionClass :=
  (s.functions.get? p).map fun f => if p ∈ chain s f.TID then f.repair now else f

/-- What `Shutdown` does to the records of one thread. -/
def threadEvents (s : CoreProfiler) (now : Clock) (sp : Spine Ptr) : List FunctionEvent :=
  sp.trees.flatMap fun T => treeEvents (closed s now) T ++ [.deleted T.root]

section forest
variable {s : CoreProfiler} {σ : ThreadID → Spine Ptr} (now : Clock) {fuel : Nat} {tid : ThreadID}
  {h : Heap FunctionClass} {sp : Spine Ptr}

theorem repair_skel (f : FunctionClass) (now : Clock) : (f.repair now).skel = f.skel := by
  unfold FunctionClass.repair
  split <;> rfl

theorem closed_skel (s : CoreProfiler) (now : Clock) (p : Ptr) :
    (closed s now p).map FunctionClass.skel = (s.functions.get? p).map FunctionClass.skel := by
  unfold closed
  rw [Option.map_map]
  congr 1
  funext f
  simp only [Function.comp_apply]
  split
  · exact repair_skel f now
  · rfl

theorem ThreadRep.closed (hr : ThreadRep s tid sp) {p : Ptr} (hp : p ∈ sp.preorder) :
    closed s now p = if p ∈ Spine.path sp then (s.functions.get? p).map (·.repair now) else s.functions.get? p := by
  obtain ⟨f, hf, hft⟩ := hr.mem_preorder.1 hp
  simp only [Perun.closed, hf, Option.map_some, hft, hr.chain]
  split <;> rfl

theorem serializeThread_spec (hr : ThreadRep s tid sp) (hf : s.functions.size ≤ fuel)
    (hcur : ∀ q ∈ sp.preorder, h.get? q = s.functions.get? q) (events : List FunctionEvent) :
    ∃ h', serializeThread fuel now (events, h) (tid, s.threadEntry tid) =
        .ok (events ++ threadEvents s now sp, h') ∧ h'.size = h.size ∧
      (∀ q, q ∉ sp.preorder → h'.get? q = h.get? q) ∧ ∀ q ∈ sp.preorder, h'.get? q = none := by
  have hactive := hr.active
  simp only [CoreProfiler.activeFunction] at hactive
  cases sp with
  | nil =>
    refine ⟨h, ?_, rfl, fun _ _ => rfl, by simp⟩
    simp only [serializeThread, hactive]
    simp [Spine.path, threadEvents, Spine.trees]
  | cons x rest =>
    obtain ⟨p, cs⟩ := x
    have hsize : (Spine.preorder ((p, cs) :: rest)).length ≤ s.functions.size := by
      rw [hr.pre]; exact Heap.length_addrs_le
    have hlen := Spine.length_le_preorder ((p, cs) :: rest)
    rw [List.length_cons] at hlen
    have hrep : SpineRep h none ((p, cs) :: rest) := hr.rep.congr fun q hq => by simp only [shape, hcur q hq]
    obtain ⟨h₁, hclimb, hsize₁, hget₁⟩ := climb_spec now hrep (Spine.nodup_path hr.nodup)
      (show rest.length < fuel by omega) cs
    obtain ⟨T, hT⟩ : ∃ T, Spine.plug (.node p cs) rest = T := ⟨_, rfl⟩
    have htrees : Spine.trees ((p, cs) :: rest) = [T] := by rw [← hT]; rfl
    have hpre : T.preorder = Spine.preorder ((p, cs) :: rest) := by
      rw [← Spine.preorder_trees, htrees, List.flatMap_singleton]
    rw [hT] at hclimb
    have htree : TreeRep h₁ none 0 T := by
      refine SpineRep.tree (hrep.congr fun q _ => shape_of_skel ?_) htrees
      rw [hget₁]
      split
      · rw [Option.map_map]
        congr 1
        funext f
        exact repair_skel f now
      · rfl
    have hlenT : T.preorder.length ≤ fuel := by rw [hpre]; omega
    obtain ⟨h₂, hser, hsize₂, hsame₂, ⟨f, hroot⟩, hgone₂⟩ := serializes hlenT htree
      (by rw [hpre]; exact hr.nodup) (by simp)
    have hevents : treeEvents h₁.get? T = treeEvents (Perun.closed s now) T := by
      refine (treeEvents_congr (htree.recordOf_congr (by simp) fun q hq => ?_)).symm
      rw [hpre] at hq
      rw [hr.closed now hq, hget₁, hcur q hq]
      rfl
    have hfree : ∀ q, (h₂.free T.root).get? q = if q ∈ T.preorder then none else h.get? q := by
      intro q
      rw [Heap.get?_free]
      by_cases hq : q ∈ T.preorder
      · by_cases hqr : q = T.root
        · rw [if_pos hqr, if_pos hq]
        · rw [if_neg hqr, if_pos hq, hgone₂ q hq hqr]
      · have hqp : q ∉ p :: Spine.path rest := fun hm => hq (by
          rw [hpre]
          exact (Spine.path_reverse_sublist ((p, cs) :: rest)).subset (List.mem_reverse.2 hm))
        rw [if_neg fun (e : q = T.root) => hq (e ▸ T.root_mem_preorder), if_neg hq, hsame₂ q hq, hget₁,
          if_neg hqp]
    refine ⟨h₂.free T.root, ?_, by rw [Heap.size_free, hsize₂, hsize₁], fun q hq => ?_, fun q hq => ?_⟩
    · simp only [serializeThread, hactive, Spine.path, List.map_cons, List.head?_cons, hclimb, hser,
        deref_ok.2 hroot, hevents, threadEvents, htrees, List.flatMap_singleton, List.append_assoc]
    · rw [hfree, hpre, if_neg hq]
    · rw [hfree, hpre, if_pos hq]

theorem run_serializeThread (hσ : Spines s σ) (hf : s.functions.size ≤ fuel) (entries : List (Nat × Nat × Option Ptr))
    (hnd : (entries.map Prod.fst).Nodup) (hentry : ∀ e ∈ entries, e.2 = s.threadEntry e.1)
    (hcur : ∀ e ∈ entries, ∀ q ∈ Spine.preorder (σ e.1), h.get? q = s.functions.get? q)
    (events : List FunctionEvent) :
    ∃ h', run (serializeThread fuel now) (events, h) entries =
      .ok (events ++ entries.flatMap fun e => threadEvents s now (σ e.1), h') := by
  induction entries generalizing h events with
  | nil => exact ⟨h, by simp⟩
  | cons e entries ih =>
    rw [List.map_cons, List.nodup_cons] at hnd
    obtain ⟨h₁, hone, -, hsame, -⟩ := serializeThread_spec now (hσ e.1) hf (hcur e (by simp)) events
    obtain ⟨h₂, hrest⟩ := ih (h := h₁) hnd.2 (fun e' he' => hentry e' (List.mem_cons_of_mem _ he'))
      (fun e' he' q hq => by
        rw [hsame q fun hq' => ?_, hcur e' (List.mem_cons_of_mem _ he') q hq]
        -- a record belongs to one thread
        obtain ⟨f, hqf, hft⟩ := (hσ e'.1).mem_preorder.1 hq
        obtain ⟨g, hqg, hgt⟩ := (hσ e.1).mem_preorder.1 hq'
        obtain rfl := Option.some.inj (hqf.symm.trans hqg)
        exact hnd.1 (by rw [← hgt, hft]; exact List.mem_map_of_mem he'))
      (events ++ threadEvents s now (σ e.1))
    refine ⟨h₂, run_cons.2 ⟨(events ++ threadEvents s now (σ e.1), h₁), ?_, ?_⟩⟩
    · rw [← hone, ← hentry e (by simp)]
    · rw [hrest, List.flatMap_cons, List.append_assoc]

def CoreProfiler.threads (s : CoreProfiler) : List ThreadID := s.activeFunctionInThread.toList.map Prod.fst

theorem functionsSection_ok (hσ : Spines s σ) (hf : s.functions.size ≤ fuel) :
    ∃ h', functionsSection fuel now s = .ok (s.threads.flatMap fun tid => threadEvents s now (σ tid), h') := by
  obtain ⟨h', hrun⟩ := run_serializeThread now hσ hf s.activeFunctionInThread.toList
    (h := s.functions) s.activeFunctionInThread.nodup_keys
    (fun e he => (CoreProfiler.threadEntry_eq (Std.ExtTreeMap.mem_toList_iff_getElem?_eq_some.1
      (show (e.1, e.2) ∈ _ from he))).symm)
    (fun _ _ _ _ => rfl) []
  refine ⟨h', ?_⟩
  rw [functionsSection, hrun, List.nil_append, CoreProfiler.threads, List.flatMap_map]

end forest

/-! ### Every record once, and deleted last -/

def writtenPtrs (events : List FunctionEvent) : List Ptr :=
  events.filterMap fun
    | .written p _ => some p
    | .deleted _ => none

def deletedPtrs (events : List FunctionEvent) : List Ptr :=
  events.filterMap fun
    | .written _ _ => none
    | .deleted p => some p

/-- The call at `p` has called the one at `q`. -/
def Calls (h : Heap FunctionClass) (p q : Ptr) : Prop := ∃ f, h.get? p = some f ∧ q ∈ f.calledFunctions

/-- If `a` deletes a record, `b` writes none of its descendants, nor the record itself. -/
def Respects (h : Heap FunctionClass) (a b : FunctionEvent) : Prop :=
  ∀ p q r, a = .deleted p → b = .written q r → ¬ Relation.ReflTransGen (Calls h) p q

section events
variable {look : Ptr → Option FunctionClass} {t : Rose Ptr} {h : Heap FunctionClass} {prev : Option Ptr} {d : Nat}
  {p q : Ptr}

theorem writtenPtrs_append (l r : List FunctionEvent) : writtenPtrs (l ++ r) = writtenPtrs l ++ writtenPtrs r :=
  List.filterMap_append

theorem writtenRecords_append (l r : List FunctionEvent) :
    writtenRecords (l ++ r) = writtenRecords l ++ writtenRecords r :=
  List.filterMap_append

theorem mem_writtenPtrs {l : List FunctionEvent} : p ∈ writtenPtrs l ↔ ∃ r, .written p r ∈ l := by
  simp only [writtenPtrs, List.mem_filterMap]
  constructor
  · rintro ⟨⟨q, r⟩ | q, hm, hq⟩
    · exact ⟨r, by rw [← Option.some.inj hq]; exact hm⟩
    · cases hq
  · rintro ⟨r, hm⟩
    exact ⟨_, hm, rfl⟩

theorem mem_deletedPtrs {l : List FunctionEvent} : p ∈ deletedPtrs l ↔ .deleted p ∈ l := by
  simp only [deletedPtrs, List.mem_filterMap]
  constructor
  · rintro ⟨⟨q, r⟩ | q, hm, hq⟩
    · cases hq
    · rw [← Option.some.inj hq]; exact hm
  · exact fun hm => ⟨_, hm, rfl⟩

theorem writtenPtrs_treeEvents : writtenPtrs (treeEvents look t) = t.preorder := by
  induction t with
  | node p cs ih =>
    simp only [writtenPtrs, treeEvents_node, List.filterMap_cons, List.filterMap_flatMap, Rose.preorder_node]
    congr 1
    refine List.flatMap_congr fun c hc => ?_
    rw [List.filterMap_append]
    simpa [writtenPtrs] using ih c hc

theorem writtenRecords_treeEvents : writtenRecords (treeEvents look t) = t.preorder.map (recordOf look) := by
  induction t with
  | node p cs ih =>
    simp only [writtenRecords, treeEvents_node, List.filterMap_cons, List.filterMap_flatMap,
      Rose.preorder_node, List.map_cons, List.map_flatMap]
    congr 1
    refine List.flatMap_congr fun c hc => ?_
    rw [List.filterMap_append]
    simpa [writtenRecords] using ih c hc

/-- The nodes below the root are deleted by `Serialize`, the root by its caller. -/
theorem deletedPtrs_treeEvents : (deletedPtrs (treeEvents look t ++ [.deleted t.root])).Perm t.preorder := by
  induction t with
  | node p cs ih =>
    have hcs : deletedPtrs (treeEvents look (.node p cs)) =
        cs.flatMap fun c => deletedPtrs (treeEvents look c ++ [.deleted c.root]) := by
      simp only [deletedPtrs, treeEvents_node, List.filterMap_cons, List.filterMap_flatMap]
    have happ : deletedPtrs (treeEvents look (.node p cs) ++ [.deleted p]) =
        deletedPtrs (treeEvents look (.node p cs)) ++ [p] := by
      simp only [deletedPtrs, List.filterMap_append]
      rfl
    rw [Rose.root_node, happ, hcs, Rose.preorder_node]
    exact (List.perm_append_singleton _ _).trans ((List.Perm.flatMap_left _ fun c hc => ih c hc).cons p)

theorem TreeRep.calls (hr : TreeRep h prev d t) (hp : p ∈ t.preorder) (hpq : Calls h p q) : q ∈ t.preorder := by
  obtain ⟨f, hf, hq⟩ := hpq
  induction t generalizing prev d with
  | node r cs ih =>
    rw [Rose.preorder_node, List.mem_cons] at hp ⊢
    refine .inr ?_
    rcases hp with rfl | hp
    · obtain ⟨g, hg, -, hcalled, -⟩ := hr.get
      obtain rfl := Option.some.inj (hf.symm.trans hg)
      rw [hcalled] at hq
      obtain ⟨c, hc, rfl⟩ := List.mem_map.1 hq
      exact List.mem_flatMap.2 ⟨c, hc, c.root_mem_preorder⟩
    · obtain ⟨c, hc, hp⟩ := List.mem_flatMap.1 hp
      exact List.mem_flatMap.2 ⟨c, hc, ih c hc (hr.child c hc) hp⟩

theorem TreeRep.descendants (hr : TreeRep h prev d t) (hp : p ∈ t.preorder)
    (hpq : Relation.ReflTransGen (Calls h) p q) : q ∈ t.preorder := by
  induction hpq with
  | refl => exact hp
  | tail _ hstep ih => exact hr.calls ih hstep

/-- Events about two disjoint trees respect each other. -/
theorem TreeRep.respects {l l' : List FunctionEvent} (hr : TreeRep h prev d t)
    (hl : ∀ p ∈ deletedPtrs l, p ∈ t.preorder) (hl' : ∀ q ∈ writtenPtrs l', q ∉ t.preorder) :
    ∀ a ∈ l, ∀ b ∈ l', Respects h a b := by
  rintro a ha b hb p q r rfl rfl hpq
  exact hl' q (mem_writtenPtrs.2 ⟨r, hb⟩) (hr.descendants (hl p (mem_deletedPtrs.2 ha)) hpq)

theorem treeEvents_respects (hr : TreeRep h prev d t) (hnd : t.preorder.Nodup) :
    (treeEvents look t ++ [FunctionEvent.deleted t.root]).Pairwise (Respects h) := by
  induction t generalizing prev d with
  | node p cs ih =>
    rw [Rose.preorder_node, List.nodup_cons] at hnd
    rw [List.pairwise_append, treeEvents_node, List.pairwise_cons]
    refine ⟨⟨fun b _ p' q r hp' _ => ?_, ?_⟩, List.pairwise_singleton _ _, ?_⟩
    · cases hp'
    · rw [List.pairwise_flatMap]
      refine ⟨fun c hc => ih c hc (hr.child c hc) (hnd.2.sublist
        (List.sublist_flatten_of_mem (List.mem_map_of_mem hc))), ?_⟩
      have hdisj := (List.nodup_flatMap.1 hnd.2).2
      refine hdisj.imp_of_mem fun {c c'} hc hc' hcc' => ?_
      refine (hr.child c hc).respects (fun p hp => ?_) fun q hq => ?_
      · exact deletedPtrs_treeEvents.mem_iff.1 hp
      · rw [writtenPtrs_append, writtenPtrs_treeEvents] at hq
        have hq' : q ∈ c'.preorder := by simpa [writtenPtrs] using hq
        exact fun hqc => hcc' hqc hq'
    · intro a _ b hb p' q r _ hb'
      rw [List.mem_singleton.1 hb] at hb'
      cases hb'

end events

/-! ### Reading the forest back -/

section rebuild
variable {look : Ptr → Option FunctionClass} {t : Rose Ptr} {h : Heap FunctionClass} {prev : Option Ptr} {d : Nat}
  {p : Ptr} {f : FunctionClass}

theorem map_number_of_skel {x y : Option FunctionClass} (h : x.map FunctionClass.skel = y.map FunctionClass.skel) :
    x.map (·.callOrderNumber) = y.map (·.callOrderNumber) := by
  have := congrArg (Option.map fun z => z.2.2.2.2.2) h
  simpa [Option.map_map, Function.comp_def, FunctionClass.skel] using this

/-- Repairing leave times changes nothing else that is printed. -/
theorem recordOf_fields (hlook : ∀ q, (look q).map FunctionClass.skel = (h.get? q).map FunctionClass.skel)
    (hp : h.get? p = some f) :
    (recordOf look p).fID = f.funcId ∧ (recordOf look p).TID = f.TID ∧ (recordOf look p).depth = f.depth ∧
      (recordOf look p).nOr = f.callOrderNumber ∧
      (recordOf look p).rFn = f.prevFunction.bind fun q => (h.get? q).map (·.callOrderNumber) := by
  have hnum := fun q => map_number_of_skel (hlook q)
  have hskel := hlook p
  rw [hp] at hskel
  obtain ⟨g, hg, hgf⟩ := Option.map_eq_some_iff.1 hskel
  simp only [FunctionClass.skel, Prod.mk.injEq] at hgf
  obtain ⟨hprev, -, hdepth, htid, hid, hord⟩ := hgf
  simp only [recordOf, hg, Option.map_some, Option.getD_some, FunctionClass.record, hnum]
  exact ⟨hid, htid, hdepth, hord, by rw [hprev]⟩

theorem TreeRep.linked (hr : TreeRep h prev d t)
    (hlook : ∀ q, (look q).map FunctionClass.skel = (h.get? q).map FunctionClass.skel)
    (hprev : ∀ q, prev = some q → ∃ g, h.get? q = some g) :
    Rose.Linked (·.nOr) (·.rFn) (prev.map (orderNumber h)) (t.map (recordOf look)) := by
  induction t generalizing prev d with
  | node p cs ih =>
    obtain ⟨f, hp, hfprev, -⟩ := hr.get
    obtain ⟨-, -, -, hord, hrFn⟩ := recordOf_fields hlook hp
    rw [Rose.map_node]
    refine .node ?_ fun c' hc' => ?_
    · rw [hrFn, hfprev]
      cases prev with
      | none => rfl
      | some q =>
        obtain ⟨g, hg⟩ := hprev q rfl
        simp [orderNumber, hg]
    · obtain ⟨c, hc, rfl⟩ := List.mem_map.1 hc'
      have hlink := ih c hc (hr.child c hc) fun q hq => ⟨f, Option.some.inj hq ▸ hp⟩
      rw [hord]
      simpa [orderNumber, hp] using hlink

end rebuild

def callOf (s : CoreProfiler) (p : Ptr) : FunctionID × Nat :=
  ((s.functions.get? p).map fun f => (f.funcId, f.depth)).getD (0, 0)

section forest
variable {s : CoreProfiler} {σ : ThreadID → Spine Ptr} (now : Clock) {tid : ThreadID}

theorem writtenPtrs_threadEvents (sp : Spine Ptr) : writtenPtrs (threadEvents s now sp) = sp.preorder := by
  rw [← Spine.preorder_trees, threadEvents, writtenPtrs, List.filterMap_flatMap]
  refine List.flatMap_congr fun T _ => ?_
  rw [← writtenPtrs, writtenPtrs_append, writtenPtrs_treeEvents]
  exact List.append_nil _

theorem deletedPtrs_threadEvents (sp : Spine Ptr) : (deletedPtrs (threadEvents s now sp)).Perm sp.preorder := by
  rw [← Spine.preorder_trees, threadEvents, deletedPtrs, List.filterMap_flatMap]
  exact List.Perm.flatMap_left _ fun T _ => deletedPtrs_treeEvents

theorem writtenRecords_threadEvents (sp : Spine Ptr) :
    writtenRecords (threadEvents s now sp) = sp.preorder.map (recordOf (closed s now)) := by
  rw [← Spine.preorder_trees, threadEvents, writtenRecords, List.filterMap_flatMap, List.map_flatMap]
  refine List.flatMap_congr fun T _ => ?_
  rw [← writtenRecords, writtenRecords_append, writtenRecords_treeEvents]
  exact List.append_nil _

theorem Spines.mem_threads (hσ : Spines s σ) (hne : s.recordsOf tid ≠ []) : tid ∈ s.threads := by
  rw [CoreProfiler.threads, Std.ExtTreeMap.map_fst_toList_eq_keys, Std.ExtTreeMap.mem_keys]
  by_contra hno
  have ha : s.activeFunction tid = none := by
    simp only [CoreProfiler.activeFunction, CoreProfiler.threadEntry, Std.ExtTreeMap.getD_eq_fallback hno]
  have hpre := (hσ tid).pre
  rw [(hσ tid).nil_of_active ha] at hpre
  exact hne hpre.symm

theorem Spines.records_perm (hσ : Spines s σ) :
    (s.threads.flatMap s.recordsOf).Perm (s.functions.addrs fun _ => true) := by
  have hmem : ∀ {q : Ptr} {tid : ThreadID}, q ∈ s.recordsOf tid ↔ ∃ f, s.functions.get? q = some f ∧ f.TID = tid := by
    intro q tid
    rw [CoreProfiler.recordsOf, Heap.mem_addrs]
    simp
  refine (List.perm_ext_iff_of_nodup (List.nodup_flatMap.2 ⟨fun _ _ => Heap.nodup_addrs, ?_⟩) Heap.nodup_addrs).2
    fun q => ?_
  · refine (List.Pairwise.imp (fun hne q hq hq' => ?_) s.activeFunctionInThread.nodup_keys)
    obtain ⟨f, hf, rfl⟩ := hmem.1 hq
    obtain ⟨g, hg, rfl⟩ := hmem.1 hq'
    exact hne (by rw [Option.some.inj (hf.symm.trans hg)])
  · rw [List.mem_flatMap, Heap.mem_addrs]
    constructor
    · rintro ⟨tid, -, hq⟩
      obtain ⟨f, hf, -⟩ := hmem.1 hq
      exact ⟨f, hf, rfl⟩
    · rintro ⟨f, hf, -⟩
      have hq : q ∈ s.recordsOf f.TID := hmem.2 ⟨f, hf, rfl⟩
      exact ⟨f.TID, hσ.mem_threads (List.ne_nil_of_mem hq), hq⟩

theorem Spines.written_perm (hσ : Spines s σ) :
    (writtenPtrs (s.threads.flatMap fun tid => threadEvents s now (σ tid))).Perm
      (s.functions.addrs fun _ => true) := by
  rw [writtenPtrs, List.filterMap_flatMap]
  refine (List.Perm.of_eq (List.flatMap_congr fun tid _ => ?_)).trans hσ.records_perm
  rw [← (hσ tid).pre, ← writtenPtrs_threadEvents now (σ tid)]
  rfl

/-- A thread without records has no events; the events of another one are those of its tree. -/
theorem Spines.threadEvents_cases (hσ : Spines s σ) (tid : ThreadID) :
    threadEvents s now (σ tid) = [] ∨ ∃ T, TreeRep s.functions none 0 T ∧ T.preorder = s.recordsOf tid ∧
      threadEvents s now (σ tid) = treeEvents (closed s now) T ++ [.deleted T.root] := by
  by_cases hne : s.recordsOf tid = []
  · left
    have hlen := Spine.length_le_preorder (σ tid)
    rw [(hσ tid).pre, hne] at hlen
    rw [List.eq_nil_of_length_eq_zero (Nat.le_zero.1 hlen)]
    rfl
  · obtain ⟨T, htrees, hT⟩ := (hσ tid).isCallTree hne
    exact .inr ⟨T, hT.links, hT.records, by rw [threadEvents, htrees, List.flatMap_singleton]⟩

theorem Spines.events_respects (hσ : Spines s σ) :
    (s.threads.flatMap fun tid => threadEvents s now (σ tid)).Pairwise (Respects s.functions) := by
  rw [List.pairwise_flatMap]
  refine ⟨fun tid _ => ?_, List.Pairwise.imp (fun {t t'} hne => ?_) s.activeFunctionInThread.nodup_keys⟩
  · rcases hσ.threadEvents_cases now tid with hnil | ⟨T, hT, hpre, hevents⟩
    · rw [hnil]; exact .nil
    · rw [hevents]
      exact treeEvents_respects hT (by rw [hpre]; exact Heap.nodup_addrs)
  · rcases hσ.threadEvents_cases now t with hnil | ⟨T, hT, hpre, hevents⟩
    · rw [hnil]; simp
    · refine hT.respects (fun p hp => ?_) fun q hq hqT => ?_
      · rw [hpre, ← (hσ t).pre]
        exact (deletedPtrs_threadEvents now (σ t)).mem_iff.1 hp
      · rw [writtenPtrs_threadEvents] at hq
        rw [hpre, ← (hσ t).pre] at hqT
        obtain ⟨f, hf, hft⟩ := (hσ t).mem_preorder.1 hqT
        obtain ⟨g, hg, hgt⟩ := (hσ t').mem_preorder.1 hq
        exact hne (by rw [← hft, ← hgt, Option.some.inj (hf.symm.trans hg)])

theorem Spines.filter_records (hσ : Spines s σ) (tid : ThreadID) :
    (writtenRecords (s.threads.flatMap fun t => threadEvents s now (σ t))).filter (·.TID = tid) =
      (s.recordsOf tid).map (recordOf (closed s now)) := by
  have hthread : ∀ t, (writtenRecords (threadEvents s now (σ t))).filter (·.TID = tid) =
      if t = tid then (s.recordsOf tid).map (recordOf (closed s now)) else [] := by
    intro t
    rw [writtenRecords_threadEvents, (hσ t).pre]
    have htid : ∀ r ∈ (s.recordsOf t).map (recordOf (closed s now)), r.TID = t := by
      intro r hr
      obtain ⟨p, hp, rfl⟩ := List.mem_map.1 hr
      obtain ⟨f, hf, hft⟩ := (hσ t).mem_preorder.1 ((hσ t).pre ▸ hp)
      exact (recordOf_fields (closed_skel s now) hf).2.1.trans hft
    split
    · next ht =>
      subst ht
      exact List.filter_eq_self.2 fun r hr => by simp [htid r hr]
    · next ht => exact List.filter_eq_nil_iff.2 fun r hr => by simp [htid r hr, ht]
  have hflat : writtenRecords (s.threads.flatMap fun t => threadEvents s now (σ t)) =
      s.threads.flatMap fun t => writtenRecords (threadEvents s now (σ t)) := List.filterMap_flatMap
  rw [hflat, List.filter_flatMap, List.flatMap_congr fun t _ => hthread t]
  by_cases hm : tid ∈ s.threads
  · obtain ⟨l, r, hlr⟩ := List.append_of_mem hm
    have hnd : s.threads.Nodup := s.activeFunctionInThread.nodup_keys
    rw [hlr, List.nodup_append, List.nodup_cons] at hnd
    have hnil : ∀ l' : List ThreadID, tid ∉ l' → (l'.flatMap fun t =>
        if t = tid then (s.recordsOf tid).map (recordOf (closed s now)) else []) = [] := by
      intro l' hl'
      exact List.flatMap_eq_nil_iff.2 fun t ht => if_neg fun (e : t = tid) => hl' (e ▸ ht)
    rw [hlr, List.flatMap_append, List.flatMap_cons, hnil l fun h => hnd.2.2 tid h tid (by simp) rfl,
      hnil r hnd.2.1.1, if_pos rfl, List.nil_append, List.append_nil]
  · have hnone : s.recordsOf tid = [] := by
      by_contra hne
      exact hm (hσ.mem_threads hne)
    rw [hnone, List.flatMap_eq_nil_iff.2]
    · rfl
    · intro t ht
      exact if_neg fun (e : t = tid) => hm (e ▸ ht)

theorem IsCallTree.map_nOr {n : Nat} {T : Rose Ptr} (hT : IsCallTree s tid n T) :
    (T.map (recordOf (closed s now))).preorder.map (·.nOr) = List.range n := by
  rw [Rose.preorder_map, List.map_map, ← hT.numbers]
  refine List.map_congr_left fun p hp => ?_
  obtain ⟨f, hpf⟩ := hT.links.live p hp
  simp [(recordOf_fields (closed_skel s now) hpf).2.2.2.1, orderNumber, hpf]

/-- Linking `rFn` to `nOr` among the records of a thread gives its call tree back. -/
theorem IsCallTree.rebuild {n : Nat} {T : Rose Ptr} (hT : IsCallTree s tid n T) {fuel : Nat}
    (hf : (s.recordsOf tid).length < fuel) :
    (Rose.rebuild (·.nOr) (·.rFn) ((s.recordsOf tid).map (recordOf (closed s now))) fuel none).map
        (Rose.map fun r => (r.fID, r.depth)) = [T.map (callOf s)] := by
  have hlinked := hT.links.linked (closed_skel s now) (by simp)
  have hrec : (s.recordsOf tid).map (recordOf (closed s now)) = (T.map (recordOf (closed s now))).preorder := by
    rw [Rose.preorder_map, hT.records]
  have hfields := fun p (hp : p ∈ T.preorder) => hT.links.live p hp
  have hnd : ((T.map (recordOf (closed s now))).preorder.map (·.nOr)).Nodup := by
    rw [hT.map_nOr]
    exact List.nodup_range
  rw [hrec, hlinked.rebuild_eq hnd (by rw [← hrec, List.length_map]; exact hf), List.map_singleton, Rose.map_map]
  refine congrArg (fun t => [t]) (Rose.map_congr fun p hp => ?_)
  obtain ⟨f, hpf⟩ := hfields p hp
  obtain ⟨hid, -, hdepth, -⟩ := recordOf_fields (closed_skel s now) hpf
  simp [callOf, hpf, hid, hdepth]

end forest

/-- In every reachable state the functions section is written without a fault. It holds every record
once; every record is deleted once, after it and its descendants have been written; and linking
`rFn` to `nOr` within a TID gives the call tree of the thread back. -/
theorem functionsSection_forest {s : CoreProfiler} (h : Reachable s) (now : Clock) {fuel : Nat}
    (hf : s.functions.size ≤ fuel) :
    ∃ events h', functionsSection fuel now s = .ok (events, h') ∧
      (writtenPtrs events).Perm (s.functions.addrs fun _ => true) ∧
      (deletedPtrs events).Perm (s.functions.addrs fun _ => true) ∧
      (∀ l p r, events = l ++ .deleted p :: r →
        ∀ q, Relation.ReflTransGen (Calls s.functions) p q → q ∈ writtenPtrs l) ∧
      ∀ tid, (s.recordsOf tid = [] ∧ (writtenRecords events).filter (·.TID = tid) = []) ∨
        ∃ n T, IsCallTree s tid n T ∧
          (Rose.rebuild (·.nOr) (·.rFn) ((writtenRecords events).filter (·.TID = tid))
            ((writtenRecords events).length + 1) none).map (Rose.map fun r => (r.fID, r.depth)) =
              [T.map (callOf s)] := by
  obtain ⟨σ, hσ⟩ := h.spines
  obtain ⟨h', hok⟩ := functionsSection_ok now hσ hf
  obtain ⟨events, hevents⟩ : ∃ events, (s.threads.flatMap fun tid => threadEvents s now (σ tid)) = events := ⟨_, rfl⟩
  have hwritten := hσ.written_perm now
  rw [hevents] at hwritten
  have hrespects := hσ.events_respects now
  rw [hevents] at hok hrespects
  have hdeleted : (deletedPtrs events).Perm (s.functions.addrs fun _ => true) := by
    rw [← hevents, deletedPtrs, List.filterMap_flatMap]
    refine (List.Perm.flatMap_left _ fun tid _ => ?_).trans hσ.records_perm
    rw [← (hσ tid).pre]
    exact deletedPtrs_threadEvents now (σ tid)
  refine ⟨events, h', hok, hwritten, hdeleted, fun l p r hlr q hpq => ?_, fun tid => ?_⟩
  · -- a descendant is a record, so it is written, and not after the deletion
    have hp : p ∈ deletedPtrs events := mem_deletedPtrs.2 (by rw [hlr]; simp)
    obtain ⟨f, hpf, -⟩ := Heap.mem_addrs.1 (hdeleted.mem_iff.1 hp)
    have hpt : p ∈ s.recordsOf f.TID := Heap.mem_addrs.2 ⟨f, hpf, by simp⟩
    obtain ⟨T, -, hT⟩ := (hσ f.TID).isCallTree (List.ne_nil_of_mem hpt)
    have hqT := hT.links.descendants (by rw [hT.records]; exact hpt) hpq
    obtain ⟨g, hqg⟩ := hT.links.live q hqT
    have hq : q ∈ writtenPtrs events := hwritten.mem_iff.2 (Heap.mem_addrs.2 ⟨g, hqg, rfl⟩)
    rw [hlr, writtenPtrs_append, List.mem_append] at hq
    refine hq.resolve_right fun hqr => ?_
    obtain ⟨rec, hm⟩ := mem_writtenPtrs.1 hqr
    rw [hlr] at hrespects
    have hafter := List.pairwise_cons.1 (List.pairwise_append.1 hrespects).2.1
    rcases List.mem_cons.1 hm with hm | hm
    · cases hm
    · exact hafter.1 _ hm p q rec rfl rfl hpq
  · have hfilter := hσ.filter_records now tid
    rw [hevents] at hfilter
    by_cases hne : s.recordsOf tid = []
    · exact .inl ⟨hne, by rw [hfilter, hne]; rfl⟩
    · obtain ⟨T, -, hT⟩ := (hσ tid).isCallTree hne
      refine .inr ⟨_, T, hT, ?_⟩
      rw [hfilter]
      refine hT.rebuild now ?_
      have hle : ((writtenRecords events).filter (·.TID = tid)).length ≤ (writtenRecords events).length :=
        List.length_filter_le _ _
      rw [hfilter, List.length_map] at hle
      omega

/-- Two threads, one of them with a call below its root. -/
def twoThreads : List Callback :=
  [.trace 7, .enterStub 7 1 ⟨1, 1⟩, .enterStub 7 2 ⟨2, 2⟩, .enterStub 7 1 ⟨3, 3⟩, .leaveStub 7 1 ⟨4, 4⟩]

theorem functionsSection_forest_twoThreads :
    ∃ s, run step Config.plain.start twoThreads = .ok s ∧
      ∃ events h', functionsSection 3 ⟨9, 9⟩ s = .ok (events, h') ∧
        (writtenPtrs events).Perm (s.functions.addrs fun _ => true) ∧
        (deletedPtrs events).Perm (s.functions.addrs fun _ => true) ∧
        (∀ l p r, events = l ++ .deleted p :: r →
          ∀ q, Relation.ReflTransGen (Calls s.functions) p q → q ∈ writtenPtrs l) ∧
        ∀ tid, (s.recordsOf tid = [] ∧ (writtenRecords events).filter (·.TID = tid) = []) ∨
          ∃ n T, IsCallTree s tid n T ∧
            (Rose.rebuild (·.nOr) (·.rFn) ((writtenRecords events).filter (·.TID = tid))
              ((writtenRecords events).length + 1) none).map (Rose.map fun r => (r.fID, r.depth)) =
                [T.map (callOf s)] :=
  ⟨_, rfl, functionsSection_forest ⟨.plain, twoThreads, rfl⟩ ⟨9, 9⟩ (by decide)⟩

end Perun
