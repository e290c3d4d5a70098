import PerunProfiler.Forest

/-!
# The calls of a thread without pointers

The records of a thread, as `Shutdown` would print them, form a spine (`CallRecords`). `Enter` pushes
a record, leaving stamps the innermost one and pops it (`recordStep`), and `Shutdown` writes the
spine once the records on the path are repaired (`CallRecords.written`).
-/

namespace Perun
open Lib

namespace FunctionRecord

def entered (r : FunctionRecord) : Clock := ⟨r.eWALLt, r.eCPUt⟩

def left (r : FunctionRecord) : Clock := ⟨r.lWALLt, r.lCPUt⟩

def stamp (now : Clock) (r : FunctionRecord) : FunctionRecord := { r with lWALLt := now.wall, lCPUt := now.cpu }

def repair (now : Clock) (r : FunctionRecord) : FunctionRecord :=
  if r.lCPUt = 0 ∨ r.lWALLt = 0 then r.stamp now else r

theorem left_repair (now : Clock) (r : FunctionRecord) :
    (r.repair now).left = if r.left.cpu = 0 ∨ r.left.wall = 0 then now else r.left := by
  unfold repair left
  split <;> rfl

end FunctionRecord

theorem FunctionClass.record_stamp (f : FunctionClass) (now : Clock) (rFn : Option Nat) :
    (f.stamp now).record rFn = (f.record rFn).stamp now := rfl

theorem FunctionClass.record_repair (f : FunctionClass) (now : Clock) (rFn : Option Nat) :
    (f.repair now).record rFn = (f.record rFn).repair now := by
  unfold FunctionClass.repair FunctionRecord.repair
  by_cases h : f.cpuTimeLeave = 0 ∨ f.wallTimeLeave = 0
  · rw [if_pos h, if_pos (show (f.record rFn).lCPUt = 0 ∨ (f.record rFn).lWALLt = 0 from h)]
    rfl
  · rw [if_neg h, if_neg (show ¬ ((f.record rFn).lCPUt = 0 ∨ (f.record rFn).lWALLt = 0) from h)]

/-- The record of a call entered below the innermost one of `sp`. -/
def enterRecord (f : FunctionID) (t : ThreadID) (now : Clock) (sp : Spine FunctionRecord) : FunctionRecord where
  fID := f
  TID := t
  eWALLt := now.wall
  lWALLt := 0
  eCPUt := now.cpu
  lCPUt := 0
  depth := sp.length
  rFn := (Spine.path sp).head?.map (·.nOr)
  nOr := (Spine.preorder sp).length

/-- Stamps the innermost record, then steps up. -/
def leaveRecord (now : Clock) : Spine FunctionRecord → Spine FunctionRecord
  | [] => []
  | (r, cs) :: sp => Spine.pop ((r.stamp now, cs) :: sp)

/-- What a callback does to the records of a thread. -/
def recordStep (traced : FunctionID → Bool) (tid : ThreadID) (e : Callback) (sp : Spine FunctionRecord) :
    Spine FunctionRecord :=
  match e.move with
  | some (.enter f t now) => if t = tid ∧ traced f then sp.push (enterRecord f t now sp) else sp
  | some (.leave t now) => if t = tid then leaveRecord now sp else sp
  | none => sp

/-- The records `Shutdown` writes of a thread: those on the path are repaired first. -/
def finished (now : Clock) (sp : Spine FunctionRecord) : List FunctionRecord :=
  Spine.preorder (Spine.mapPath (FunctionRecord.repair now) sp)

/-- `κ` are the records of the threads. -/
def CallRecords (s : CoreProfiler) (κ : ThreadID → Spine FunctionRecord) : Prop :=
  ∃ σ, Spines s σ ∧ ∀ tid, κ tid = Spine.map (recordOf s.functions.get?) (σ tid)

section heap
variable {h : Heap FunctionClass} {prev : Option Ptr} {d : Nat} {t : Rose Ptr}

/-- A record of the tree is its root, or it has its parent in the tree. -/
theorem TreeRep.parent (hr : TreeRep h prev d t) {p : Ptr} (hp : p ∈ t.preorder) {f : FunctionClass}
    (hf : h.get? p = some f) : (f.prevFunction = prev ∧ f.depth = d) ∨
      ∃ q ∈ t.preorder, ∃ g, h.get? q = some g ∧ f.prevFunction = some q ∧ f.depth = g.depth + 1 := by
  induction t generalizing prev d with
  | node r cs ih =>
    obtain ⟨g, hg, hprev, -, hdepth⟩ := hr.get
    rw [Rose.preorder_node, List.mem_cons] at hp
    rcases hp with rfl | hp
    · obtain rfl := Option.some.inj (hg.symm.trans hf)
      exact .inl ⟨hprev, hdepth⟩
    · obtain ⟨c, hc, hp⟩ := List.mem_flatMap.1 hp
      refine .inr ?_
      rcases ih c hc (hr.child c hc) hp with ⟨hfprev, hfdepth⟩ | ⟨q, hq, hq'⟩
      · exact ⟨r, by simp, g, hg, hfprev, by rw [hfdepth, hdepth]⟩
      · refine ⟨q, ?_, hq'⟩
        rw [Rose.preorder_node]
        exact List.mem_cons_of_mem _ (List.mem_flatMap.2 ⟨c, hc, hq⟩)

end heap

section look
variable {look look' : Ptr → Option FunctionClass} {p : Ptr} {f f' : FunctionClass}

theorem recordOf_get (hp : look p = some f) : recordOf look p =
    f.record (f.prevFunction.bind fun q => (look q).map (·.callOrderNumber)) := by
  rw [recordOf, hp]
  rfl

/-- What keeps the number of the previous function changes a printed record as it changes the record
itself. -/
theorem recordOf_change {k : FunctionRecord → FunctionRecord} (hp : look p = some f) (hp' : look' p = some f')
    (hprev : f'.prevFunction = f.prevFunction)
    (hnum : ∀ q, f.prevFunction = some q → (look' q).map (·.callOrderNumber) = (look q).map (·.callOrderNumber))
    (hrec : ∀ rFn, f'.record rFn = k (f.record rFn)) : recordOf look' p = k (recordOf look p) := by
  rw [recordOf_get hp, recordOf_get hp', hprev, hrec]
  cases hq : f.prevFunction with
  | none => rfl
  | some q => rw [Option.bind_some, Option.bind_some, hnum q hq]

end look

section step
variable {s s' : CoreProfiler} {σ : ThreadID → Spine Ptr} {sp : Spine Ptr} {tid t : ThreadID} {e : Callback}
  {f : FunctionID} {now : Clock} {p : Ptr} {g : FunctionClass}

theorem ThreadRep.prev_live (hr : ThreadRep s tid sp) (hp : p ∈ sp.preorder) (hg : s.functions.get? p = some g) :
    ∀ q, g.prevFunction = some q → ∃ g', s.functions.get? q = some g' := by
  have hne : s.recordsOf tid ≠ [] := by
    rw [← hr.pre]
    exact List.ne_nil_of_mem hp
  obtain ⟨T, -, hT⟩ := hr.isCallTree hne
  intro q hq
  rcases hT.links.parent (by rw [hT.records, ← hr.pre]; exact hp) hg with ⟨hnone, -⟩ | ⟨q', -, g', hg', hprev, -⟩
  · rw [hnone] at hq
    cases hq
  · obtain rfl := Option.some.inj (hprev.symm.trans hq)
    exact ⟨g', hg'⟩

/-- The record at `p` after a callback, when the callback changes it by `k` but for its links. -/
theorem ThreadRep.recordOf_step {k : FunctionRecord → FunctionRecord} (hr : ThreadRep s tid sp) (ha : s.Alive)
    (h : step s e = .ok s') (hp : p ∈ sp.preorder)
    (hk : ∀ g g', s.functions.get? p = some g → s'.functions.get? p = some g' →
      ∀ rFn, g'.record rFn = k (g.record rFn)) :
    recordOf s'.functions.get? p = k (recordOf s.functions.get? p) := by
  obtain ⟨g, hg, -⟩ := hr.mem_preorder.1 hp
  obtain ⟨g', hg', hbirth⟩ := step_birth ha h hg
  simp only [FunctionClass.birth, Prod.mk.injEq] at hbirth
  refine recordOf_change hg hg' hbirth.1 (fun q hq => ?_) (hk g g' hg hg')
  obtain ⟨r, hr⟩ := hr.prev_live hp hg q hq
  obtain ⟨r', hr', hbirth'⟩ := step_birth ha h hr
  simp only [FunctionClass.birth, Prod.mk.injEq] at hbirth'
  rw [hr, hr', Option.map_some, Option.map_some, hbirth'.2.2.2.2]

/-- `Enter` changes no record but the one it makes. -/
theorem enter_record (h : enter f t now s = .ok s') {g' : FunctionClass} (hg : s.functions.get? p = some g)
    (hg' : s'.functions.get? p = some g') (rFn : Option Nat) : g'.record rFn = g.record rFn := by
  have hlt : p ≠ s.functions.size := Nat.ne_of_lt (Heap.lt_size hg)
  rcases enter_cases h with ⟨-, rfl⟩ | ⟨-, info, -, ⟨-, rfl⟩ | ⟨prev, prevFunction, -, hprev, rfl⟩⟩
  · obtain rfl := Option.some.inj (hg.symm.trans hg')
    rfl
  · rw [show (enterTop (newFunction f info t now) t s).functions.get? p = some g from
      Heap.get?_alloc_of_some hg] at hg'
    obtain rfl := Option.some.inj hg'
    rfl
  · rw [get?_enterBelow _ _ _ hprev] at hg'
    by_cases hq : p = prev
    · subst hq
      obtain rfl := Option.some.inj (hg.symm.trans hprev)
      rw [if_pos rfl] at hg'
      obtain rfl := Option.some.inj hg'
      rfl
    · rw [if_neg hq, if_neg hlt, hg] at hg'
      obtain rfl := Option.some.inj hg'
      rfl

/-- Leaving stamps the active function and changes no other record. -/
theorem leaveActive_record (h : leaveActive t now s = .ok s') {g' : FunctionClass} (hg : s.functions.get? p = some g)
    (hg' : s'.functions.get? p = some g') (rFn : Option Nat) :
    g'.record rFn = if s.activeFunction t = some p then (g.record rFn).stamp now else g.record rFn := by
  rcases leaveActive_cases h with ⟨hn, rfl⟩ | ⟨first, active, function, he, hact, rfl⟩
  · have ha : s'.activeFunction t = none := by
      simp [CoreProfiler.activeFunction, CoreProfiler.threadEntry, Std.ExtTreeMap.getD_eq_getD_getElem?, hn]
    obtain rfl := Option.some.inj (hg.symm.trans hg')
    rw [ha, if_neg (by simp)]
  · rw [CoreProfiler.activeFunction_eq he]
    simp only [Heap.get?_set hact] at hg'
    by_cases hq : p = active
    · subst hq
      obtain rfl := Option.some.inj (hg.symm.trans hact)
      rw [if_pos rfl] at hg'
      obtain rfl := Option.some.inj hg'
      rw [if_pos rfl, FunctionClass.record_stamp]
    · rw [if_neg hq, hg] at hg'
      obtain rfl := Option.some.inj hg'
      rw [if_neg fun (ha : some active = some p) => hq (Option.some.inj ha).symm]

theorem enter_newRecord (hσ : Spines s σ) (ht : s.traced f = true) (h : enter f t now s = .ok s') :
    recordOf s'.functions.get? s.functions.size =
      enterRecord f t now (Spine.map (recordOf s.functions.get?) (σ t)) := by
  rcases enter_cases h with ⟨hf, -⟩ | ⟨-, info, -, ⟨ha, rfl⟩ | ⟨prev, prevFunction, ha, hprev, rfl⟩⟩
  · rw [ht] at hf
    cases hf
  · have hnew : (enterTop (newFunction f info t now) t s).functions.get? s.functions.size = some _ :=
      Heap.get?_alloc_size
    rw [(hσ t).nil_of_active ha, recordOf_get hnew]
    rfl
  · obtain ⟨cs, rest, hsp⟩ := (hσ t).cons_of_active ha
    have hr := hσ t
    rw [hsp] at hr ⊢
    obtain ⟨g, hg, -, -, hdepth⟩ := hr.rep.get
    obtain rfl := Option.some.inj (hprev.symm.trans hg)
    have hsize : s.functions.size ≠ prev := (Nat.ne_of_lt (Heap.lt_size hprev)).symm
    have hget := get?_enterBelow (newFunction f info t now) t (s.threadEntry t).1 hprev
    have hnew := hget s.functions.size
    rw [if_neg hsize, if_pos rfl] at hnew
    have hparent := hget prev
    rw [if_pos rfl] at hparent
    have hhead : (Spine.path (Spine.map (recordOf s.functions.get?) ((prev, cs) :: rest))).head?.map (·.nOr) =
        some prevFunction.callOrderNumber := by
      rw [Spine.path_map]
      show some (recordOf s.functions.get? prev).nOr = _
      rw [recordOf_get hprev]
      rfl
    have hcount : (Spine.preorder (Spine.map (recordOf s.functions.get?) ((prev, cs) :: rest))).length =
        (s.threadEntry t).1 + 1 := by
      rw [Spine.preorder_map, List.length_map, hr.pre, hr.count (by simp)]
    rw [recordOf_get hnew, enterRecord, hhead, hcount, Spine.length_map]
    simp only [Option.bind_some, hparent, Option.map_some]
    simp only [FunctionClass.record, newFunction, hdepth, List.length_cons]

theorem leaveActive_records (hσ : Spines s σ) (ha : s.Alive) (hm : e.move = some (.leave t now))
    (h : step s e = .ok s') : Spine.map (recordOf s'.functions.get?) (σ t).pop =
      leaveRecord now (Spine.map (recordOf s.functions.get?) (σ t)) := by
  have hr := hσ t
  have hleave : leaveActive t now s = .ok s' := by rw [← step_leave ha.gCoreProfiler hm, h]
  have hchange : ∀ p ∈ (σ t).preorder, recordOf s'.functions.get? p =
      if s.activeFunction t = some p then (recordOf s.functions.get? p).stamp now else recordOf s.functions.get? p :=
    fun p hp => hr.recordOf_step (k := fun r => if s.activeFunction t = some p then r.stamp now else r) ha h hp
      fun g g' hg hg' rFn => leaveActive_record hleave hg hg' rFn
  have hnd := hr.nodup
  rw [Spine.map_pop]
  cases hsp : σ t with
  | nil => rfl
  | cons x rest =>
    obtain ⟨p, cs⟩ := x
    have hact : s.activeFunction t = some p := by
      rw [hr.active, hsp]
      rfl
    rw [hsp] at hnd hchange
    simp only [Spine.preorder_cons, Rose.preorder_node, List.nodup_append, List.nodup_cons] at hnd hchange
    obtain ⟨-, ⟨hpcs, -⟩, hdisj⟩ := hnd
    have hother : ∀ q ∈ Spine.preorder rest ++ p :: cs.flatMap Rose.preorder, q ≠ p →
        recordOf s'.functions.get? q = recordOf s.functions.get? q := fun q hq hne => by
      rw [hchange q hq, hact, if_neg fun (he : some p = some q) => hne (Option.some.inj he).symm]
    have hp : recordOf s'.functions.get? p = (recordOf s.functions.get? p).stamp now := by
      rw [hchange p (by simp), if_pos hact]
    have hcs : cs.map (Rose.map (recordOf s'.functions.get?)) = cs.map (Rose.map (recordOf s.functions.get?)) := by
      refine List.map_congr_left fun c hc => Rose.map_congr fun q hq => ?_
      have hqm : q ∈ cs.flatMap Rose.preorder := List.mem_flatMap.2 ⟨c, hc, hq⟩
      exact hother q (by simp [hqm]) fun he => hpcs (he ▸ hqm)
    have hrest : Spine.map (recordOf s'.functions.get?) rest = Spine.map (recordOf s.functions.get?) rest :=
      Spine.map_congr fun q hq => hother q (List.mem_append_left _ hq) fun he => hdisj q hq p (by simp) he
    show Spine.pop ((_, cs.map (Rose.map _)) :: Spine.map _ rest) =
      Spine.pop ((_, cs.map (Rose.map _)) :: Spine.map _ rest)
    rw [hp, hcs, hrest]

/-- Every callback takes the records of all threads along. -/
theorem CallRecords.step {κ : ThreadID → Spine FunctionRecord} (ha : s.Alive) (hκ : CallRecords s κ)
    (h : step s e = .ok s') : CallRecords s' fun tid => recordStep s.traced tid e (κ tid) := by
  obtain ⟨σ, hσ, hκ⟩ := hκ
  refine ⟨_, hσ.step ha h, fun tid => ?_⟩
  have hsame : (∀ g g' p, s.functions.get? p = some g → s'.functions.get? p = some g' →
      ∀ rFn, g'.record rFn = g.record rFn) →
      Spine.map (recordOf s'.functions.get?) (σ tid) = κ tid := fun H => by
    rw [hκ]
    exact Spine.map_congr fun p hp => (hσ tid).recordOf_step (k := id) ha h hp fun g g' => H g g' p
  unfold recordStep spineStep
  rcases step_move ha h with ⟨f, t, now, hm, henter⟩ | ⟨t, now, hm, hleave⟩ | ⟨hm, hf, -⟩
  · rw [hm]
    have hold := hsame fun g g' p hg hg' => enter_record henter hg hg'
    by_cases hc : t = tid ∧ s.traced f = true
    · obtain ⟨rfl, ht⟩ := hc
      simp only [ht, and_self, if_true]
      show _ = (_, []) :: Spine.map (recordOf s'.functions.get?) (σ t)
      rw [hold, enter_newRecord hσ ht henter, ← hκ]
      rfl
    · simp only [hc, if_false, hold]
  · rw [hm]
    by_cases ht : t = tid
    · subst ht
      simp only [if_true, hκ]
      exact (leaveActive_records hσ ha hm h).symm
    · simp only [ht, if_false, hκ]
      refine Spine.map_congr fun p hp => ((hσ tid).recordOf_step (k := id) ha h hp fun g g' hg hg' rFn => ?_).symm
      rw [leaveActive_record hleave hg hg', if_neg fun hact => ?_, id_eq]
      -- the active function of a thread is a record of that thread
      obtain ⟨cs, rest, hsp⟩ := (hσ t).cons_of_active hact
      obtain ⟨r, hr, hrt⟩ := (hσ t).mem_preorder.1 (show p ∈ (σ t).preorder by rw [hsp]; simp [Spine.preorder_cons])
      obtain ⟨r', hr', hrt'⟩ := (hσ tid).mem_preorder.1 hp
      exact ht (by rw [← hrt, ← hrt', Option.some.inj (hr.symm.trans hr')])
  · rw [hm]
    refine (hsame fun g g' p hg hg' rFn => ?_).symm
    rw [hf] at hg'
    rw [Option.some.inj (hg.symm.trans hg')]

theorem CallRecords.start (c : Config) : CallRecords c.start fun _ => [] := ⟨_, Spines.start c, fun _ => rfl⟩

end step

section written
variable {s : CoreProfiler} {sp : Spine Ptr} {tid : ThreadID} {κ : ThreadID → Spine FunctionRecord} {p : Ptr}
  (now : Clock)

theorem ThreadRep.recordOf_closed (hr : ThreadRep s tid sp) (hp : p ∈ sp.preorder) :
    recordOf (Perun.closed s now) p = if p ∈ Spine.path sp then (recordOf s.functions.get? p).repair now
      else recordOf s.functions.get? p := by
  obtain ⟨g, hg, -⟩ := hr.mem_preorder.1 hp
  have hclosed := hr.closed now hp
  have hnum : ∀ q, (Perun.closed s now q).map (·.callOrderNumber) =
      (s.functions.get? q).map (·.callOrderNumber) := fun q => map_number_of_skel (closed_skel s now q)
  by_cases hpath : p ∈ Spine.path sp
  · rw [if_pos hpath, hg] at hclosed
    rw [if_pos hpath]
    exact recordOf_change hg hclosed (congrArg Prod.fst (repair_skel g now)) (fun q _ => hnum q)
      (g.record_repair now)
  · rw [if_neg hpath, hg] at hclosed
    rw [if_neg hpath]
    exact recordOf_change (k := id) hg hclosed rfl (fun q _ => hnum q) fun _ => rfl

/-- `Shutdown` repairs the path and no other record. -/
theorem ThreadRep.map_closed (hr : ThreadRep s tid sp) : Spine.map (recordOf (Perun.closed s now)) sp =
    Spine.mapPath (FunctionRecord.repair now) (Spine.map (recordOf s.functions.get?) sp) := by
  refine Spine.map_eq_mapPath hr.nodup (fun p hp => ?_) fun p hp hno => ?_
  · have hpre : p ∈ sp.preorder := (Spine.path_reverse_sublist sp).subset (List.mem_reverse.2 hp)
    rw [hr.recordOf_closed now hpre, if_pos hp]
  · rw [hr.recordOf_closed now hp, if_neg hno]

theorem ThreadRep.map_preorder_closed (hr : ThreadRep s tid sp) :
    sp.preorder.map (recordOf (Perun.closed s now)) = finished now (Spine.map (recordOf s.functions.get?) sp) := by
  rw [finished, ← hr.map_closed, Spine.preorder_map]

/-- What `Shutdown` writes of the calls. -/
theorem CallRecords.written (hκ : CallRecords s κ) {fuel : Nat} (hf : s.functions.size ≤ fuel) :
    ∃ events h', functionsSection fuel now s = .ok (events, h') ∧
      writtenRecords events = s.threads.flatMap (fun tid => finished now (κ tid)) ∧
      ∀ tid, (writtenRecords events).filter (·.TID = tid) = finished now (κ tid) := by
  obtain ⟨σ, hσ, hκ⟩ := hκ
  obtain ⟨h', hok⟩ := functionsSection_ok now hσ hf
  refine ⟨_, h', hok, ?_, fun tid => ?_⟩
  · rw [writtenRecords, List.filterMap_flatMap]
    refine List.flatMap_congr fun tid _ => ?_
    rw [← writtenRecords, writtenRecords_threadEvents, (hσ tid).map_preorder_closed, hκ]
  · rw [hσ.filter_records now tid, ← (hσ tid).pre, (hσ tid).map_preorder_closed, hκ]

/-- What `Shutdown` writes of a thread is the listing of a tree. Its records are numbered off, and each
names its parent's number. -/
theorem CallRecords.tree (hκ : CallRecords s κ) (hne : κ tid ≠ []) :
    ∃ T, (Spine.mapPath (FunctionRecord.repair now) (κ tid)).trees = [T] ∧ T.preorder = finished now (κ tid) ∧
      Rose.Linked (·.nOr) (·.rFn) none T ∧ T.preorder.map (·.nOr) = List.range T.preorder.length := by
  obtain ⟨σ, hσ, hκ⟩ := hκ
  have hrec : s.recordsOf tid ≠ [] := by
    intro hnil
    have hlen := Spine.length_le_preorder (σ tid)
    rw [(hσ tid).pre, hnil] at hlen
    exact hne (by rw [hκ, List.eq_nil_of_length_eq_zero (Nat.le_zero.1 hlen)]; rfl)
  obtain ⟨T, htrees, hT⟩ := (hσ tid).isCallTree hrec
  refine ⟨T.map (recordOf (closed s now)), ?_, ?_, hT.links.linked (closed_skel s now) (by simp), ?_⟩
  · rw [hκ, ← (hσ tid).map_closed, Spine.trees_map, htrees, List.map_singleton]
  · rw [hκ, ← (hσ tid).map_preorder_closed, (hσ tid).pre, Rose.preorder_map, hT.records]
  · rw [hT.map_nOr, Rose.preorder_map, List.length_map, hT.records]

/-- A call that is written is the outermost one, or its parent is written too. -/
theorem CallRecords.parents (hκ : CallRecords s κ) {r : FunctionRecord} (hr : r ∈ finished now (κ tid)) :
    (r.rFn = none ∧ r.depth = 0) ∨
      ∃ q ∈ finished now (κ tid), r.rFn = some q.nOr ∧ r.depth = q.depth + 1 := by
  obtain ⟨σ, hσ, hκ⟩ := hκ
  rw [hκ, ← (hσ tid).map_preorder_closed] at hr ⊢
  obtain ⟨p, hp, rfl⟩ := List.mem_map.1 hr
  have hne : s.recordsOf tid ≠ [] := by
    rw [← (hσ tid).pre]
    exact List.ne_nil_of_mem hp
  obtain ⟨T, -, hT⟩ := (hσ tid).isCallTree hne
  have hpre : T.preorder = (σ tid).preorder := by rw [hT.records, (hσ tid).pre]
  obtain ⟨f, hf, -⟩ := (hσ tid).mem_preorder.1 hp
  obtain ⟨-, -, hdepth, -, hrFn⟩ := recordOf_fields (closed_skel s now) hf
  rw [hdepth, hrFn]
  rcases hT.links.parent (by rw [hpre]; exact hp) hf with ⟨hprev, hzero⟩ | ⟨q, hq, g, hg, hprev, hsucc⟩
  · exact .inl ⟨by rw [hprev]; rfl, hzero⟩
  · obtain ⟨-, -, hqdepth, hqnum, -⟩ := recordOf_fields (closed_skel s now) hg
    refine .inr ⟨_, List.mem_map_of_mem (by rw [← hpre]; exact hq), ?_, ?_⟩
    · rw [hprev, Option.bind_some, hg, Option.map_some, hqnum]
    · rw [hsucc, hqdepth]

/-- What is written of a thread lists a tree. -/
theorem CallRecords.listing (hκ : CallRecords s κ) (hne : κ tid ≠ []) :
    Rose.Listing (·.nOr) (·.rFn) (·.depth) (finished now (κ tid)) := by
  obtain ⟨T, -, hT, hlinked, hnumbers⟩ := hκ.tree now hne
  refine ⟨?_, ⟨T.root, ?_⟩, fun r hr => hκ.parents now hr⟩
  · rw [← hT, hnumbers]
    exact List.nodup_range
  · rw [← hT]
    exact hlinked.filter_none

end written

/-- In every reachable state the calls of every thread are a spine of records. -/
theorem Reachable.callRecords {s : CoreProfiler} (h : Reachable s) : ∃ κ, CallRecords s κ := by
  obtain ⟨σ, hσ⟩ := h.spines
  exact ⟨_, σ, hσ, fun _ => rfl⟩

end Perun
