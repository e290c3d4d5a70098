import PerunProfiler.Isolation
import PerunProfiler.ObjectTypes

/-!
# What the objects refer to

An object is written with the number of a function record of its thread. In every run this is the
record of the last call that the thread had entered before the allocation: the functions section has
it, and has it once, whatever the thread and the others do afterwards.
-/

namespace Perun
open Lib

/-- The call that a callback makes the thread `t` enter, if it is recorded. -/
def Callback.enters (t : ThreadID) (s : CoreProfiler) (e : Callback) : Option (FunctionID × Clock) :=
  match e.move with
  | some (.enter f u now) => if u = t ∧ s.traced f then some (f, now) else none
  | _ => none

/-- The calls that are recorded of a thread along a run: the functions, and when they are entered. -/
def recordedEnters (t : ThreadID) (s : CoreProfiler) (es : List Callback) : List (FunctionID × Clock) :=
  outputs step (fun s e => e.enters t s) s es

def FunctionRecord.call (r : FunctionRecord) : FunctionID × Clock := (r.fID, r.entered)

section calls
variable {s s' : CoreProfiler} {e : Callback} {t : ThreadID} {κ : ThreadID → Spine FunctionRecord} {c : Config}
  {es : List Callback}

theorem call_leaveRecord (now : Clock) (sp : Spine FunctionRecord) :
    (Spine.preorder (leaveRecord now sp)).map FunctionRecord.call = (Spine.preorder sp).map FunctionRecord.call := by
  cases sp with
  | nil => rfl
  | cons x sp =>
    obtain ⟨r, cs⟩ := x
    have hcall : (r.stamp now).call = r.call := rfl
    rw [leaveRecord, Spine.preorder_pop, Spine.preorder_cons, Spine.preorder_cons, Rose.preorder_node,
      Rose.preorder_node, List.map_append, List.map_append, List.map_cons, List.map_cons, hcall]

theorem call_recordStep (t : ThreadID) (sp : Spine FunctionRecord) :
    (Spine.preorder (recordStep s.traced t e sp)).map FunctionRecord.call =
      (Spine.preorder sp).map FunctionRecord.call ++ (e.enters t s).toList := by
  unfold recordStep Callback.enters
  rcases hm : e.move with - | ⟨f, u, now⟩ | ⟨u, now⟩
  · exact (List.append_nil _).symm
  · dsimp only
    split
    · rw [Spine.preorder_push, List.map_append]
      rfl
    · exact (List.append_nil _).symm
  · dsimp only
    rw [Option.toList_none, List.append_nil]
    split
    · exact call_leaveRecord now sp
    · rfl

theorem call_finished (now : Clock) (sp : Spine FunctionRecord) :
    (finished now sp).map FunctionRecord.call = (Spine.preorder sp).map FunctionRecord.call := by
  have hcall : ∀ r : FunctionRecord, (r.repair now).call = r.call := by
    intro r
    unfold FunctionRecord.repair
    split <;> rfl
  have hpath : Spine.map FunctionRecord.call (Spine.mapPath (FunctionRecord.repair now) sp) =
      Spine.map FunctionRecord.call sp := by
    rw [Spine.map, Spine.map, Spine.mapPath, List.map_map]
    exact List.map_congr_left fun x _ => by rw [Function.comp_apply, hcall]
  rw [finished, ← Spine.preorder_map, hpath, Spine.preorder_map]

/-- The records of every thread are the calls it has entered, in this order. -/
theorem run_recordedEnters (h : run step c.start es = .ok s) : ∃ κ, CallRecords s κ ∧
    ∀ t, (Spine.preorder (κ t)).map FunctionRecord.call = recordedEnters t c.start es := by
  have hinv := run_inv_events (P := fun es s => run step c.start es = .ok s ∧ ∃ κ, CallRecords s κ ∧
    ∀ t, (Spine.preorder (κ t)).map FunctionRecord.call = recordedEnters t c.start es)
    ⟨rfl, _, CallRecords.start c, fun t => rfl⟩ (fun es s e s' hs hstep => ?_) h
  · exact hinv.2
  · obtain ⟨hrun, κ, hκ, hcalls⟩ := hs
    refine ⟨run_append.2 ⟨s, hrun, run_cons.2 ⟨s', hstep, rfl⟩⟩, _, hκ.step (Reachable.alive ⟨c, es, hrun⟩) hstep,
      fun t => ?_⟩
    have hone : outputs step (fun s e => e.enters t s) s [e] = (e.enters t s).toList := by
      rw [outputs_cons hstep]
      exact List.append_nil _
    rw [call_recordStep, hcalls, recordedEnters, recordedEnters, outputs_append hrun, hone]

theorem CallRecords.numbers (hκ : CallRecords s κ) (now : Clock) (t : ThreadID) :
    (finished now (κ t)).map (·.nOr) = List.range (finished now (κ t)).length := by
  by_cases hne : κ t = []
  · rw [hne]
    rfl
  · obtain ⟨T, -, hpre, -, hnumbers⟩ := hκ.tree now hne
    rw [← hpre, hnumbers]

/-- The record with the number of the last of the `calls`, whatever the thread enters `later`. -/
theorem CallRecords.last_call (hκ : CallRecords s κ) (now : Clock) {calls later : List (FunctionID × Clock)}
    (h : (Spine.preorder (κ t)).map FunctionRecord.call = calls ++ later) :
    ((finished now (κ t)).filter fun f => (f.nOr : Int) = calls.length - 1).map FunctionRecord.call =
      calls.getLast?.toList := by
  rw [← call_finished now] at h
  rcases List.eq_nil_or_concat calls with rfl | ⟨calls, call, rfl⟩
  · rw [List.filter_eq_nil_iff.2 fun f _ => by simp]
    rfl
  · have hlast : ∀ f : FunctionRecord, (f.nOr : Int) = ((calls.concat call).length : Int) - 1 ↔ f.nOr = calls.length := by
      intro f
      rw [List.length_concat]
      omega
    simp only [hlast, filter_eq_getElem? (hκ.numbers now t)]
    rw [List.concat_eq_append, List.append_assoc] at h
    have hget := congrArg (·[calls.length]?) h
    simp only [List.getElem?_map, List.getElem?_append_right (Nat.le_refl _), Nat.sub_self, List.singleton_append,
      List.getElem?_cons_zero] at hget
    rw [← Option.toList_map, hget, List.concat_eq_append, List.getLast?_concat]

end calls

section objects
variable {s s' : CoreProfiler} {e : Callback} {es : List Callback} {p : Ptr} {object : ObjectClass} {c : Config}

/-- A record that is made changes in its mark only. -/
theorem step_object (ha : s.Alive) (ht : Tracked s) (h : step s e = .ok s') (hp : s.objects.get? p = some object) :
    ∃ n, s'.objects.get? p = some (object.mark n) := by
  have hmarked : ∀ (P : Nat → Prop) (objects' : Heap ObjectClass),
      Marked s.gcNumber s.objectsAlloc P s.objects objects' →
        ∃ n, objects'.get? p = some (object.mark n) := by
    intro P objects' hm
    rcases hm.cases p with ⟨-, -, -, hmark⟩ | hsame
    · exact ⟨s.gcNumber, by rw [hmark, hp]; rfl⟩
    · exact ⟨object.untilGcNumber, hsame.trans hp⟩
  have hsame : s'.objects = s.objects → ∃ n, s'.objects.get? p = some (object.mark n) := by
    intro heq
    exact ⟨object.untilGcNumber, by rw [heq]; exact hp⟩
  cases hc : e.collects with
  | false =>
    by_cases ho : ∃ o c z t now, e = .objectAllocated o c (some z) t now
    · obtain ⟨o, c, z, t, now, rfl⟩ := ho
      have hs : objectAllocated o c (some z) t now s = .ok s' := h
      exact ⟨object.untilGcNumber, (objectAllocated_grows hs).objects p object hp⟩
    · obtain ⟨htracking, -⟩ := step_untouched hc (fun o c z t now he => ho ⟨o, c, z, t, now, he⟩) h
      exact hsame (congrArg Prod.fst htracking)
  | true =>
    cases e with
    | movedReferences ranges =>
      rcases movedReferences_cases h with ⟨-, rfl⟩ | ⟨hd, -⟩
      · exact hsame rfl
      · obtain ⟨tmpMap, objects', m', hok, -, -, -, hm⟩ := movedReferences_spec ranges hd ht.live
        obtain rfl := Except.ok.inj (h.symm.trans hok)
        exact hmarked _ objects' hm
    | survivingReferences ranges =>
      rcases survivingReferences_cases h with ⟨-, rfl⟩ | ⟨hd, -⟩
      · exact hsame rfl
      · obtain ⟨objects', hok, hm⟩ := survivingReferences_spec ranges hd ht.live
        obtain rfl := Except.ok.inj (h.symm.trans hok)
        exact hmarked _ objects' hm
    | garbageCollectionStarted g t now =>
      exact hsame (by rw [garbageCollectionStarted_cases h])
    | garbageCollectionFinished t now =>
      rcases garbageCollectionFinished_cases h with ⟨-, rfl⟩ | ⟨-, _, _, -, rfl⟩ <;> exact hsame rfl
    | _ => cases hc

theorem run_object (hr : Reachable s) (h : run step s es = .ok s') (hp : s.objects.get? p = some object) :
    ∃ n, s'.objects.get? p = some (object.mark n) := by
  have hinv := run_inv (P := fun s => Reachable s ∧ ∃ n, s.objects.get? p = some (object.mark n))
    ⟨hr, object.untilGcNumber, hp⟩ (fun s e s' hs hstep => ?_) h
  · exact hinv.2
  · obtain ⟨hr, n, hn⟩ := hs
    obtain ⟨m, hm⟩ := step_object hr.alive hr.tracked hstep hn
    exact ⟨hr.step hstep, m, hm⟩

/-- No record is deleted during the run: the one of every allocation is there, but for its mark. -/
theorem run_allocated (h : run step c.start es = .ok s) (hlt : p < (allocated es).length) :
    ∃ es₁ o d z t now es₂ s₁ n, es = es₁ ++ .objectAllocated o d (some z) t now :: es₂ ∧ run step c.start es₁ = .ok s₁ ∧
      s.objects.get? p = some ((newObject o d z t now s₁).mark n) := by
  obtain ⟨d, hd⟩ : ∃ d, (allocated es)[p]? = some d := ⟨_, List.getElem?_eq_getElem hlt⟩
  obtain ⟨es₁, e, es₂, rfl, he, hlen⟩ := filterMap_split hd
  obtain ⟨o, z, t, now, rfl⟩ : ∃ o z t now, e = .objectAllocated o d (some z) t now := by
    unfold Callback.allocates at he
    split at he
    · cases he
      exact ⟨_, _, _, _, rfl⟩
    · cases he
  obtain ⟨s₁, h₁, h⟩ := run_append.1 h
  obtain ⟨s₂, hs, h₂⟩ := run_cons.1 h
  have hr₁ : Reachable s₁ := ⟨c, es₁, h₁⟩
  have hsize : s₁.objects.size = p := (run_typed h₁).size.trans hlen
  have hstep : objectAllocated o d (some z) t now s₁ = .ok s₂ := hs
  have hnew : s₂.objects.get? p = some (newObject o d z t now s₁) := by
    rcases objectAllocated_cases hstep with ⟨hz, -⟩ | ⟨z', hz, rfl⟩
    · cases hz
    · obtain rfl := Option.some.inj hz
      rw [← hsize]
      exact Heap.get?_alloc_size
  obtain ⟨n, hn⟩ := run_object (hr₁.step hs) h₂ hnew
  exact ⟨es₁, o, d, z, t, now, es₂, s₁, n, rfl, h₁, hn⟩

/-- Every record of the heap is the one that an allocation of the run has made, but for its mark. -/
theorem run_newObject (h : run step c.start es = .ok s) (hp : s.objects.get? p = some object) :
    ∃ es₁ o d z t now es₂ s₁ n, es = es₁ ++ .objectAllocated o d (some z) t now :: es₂ ∧ run step c.start es₁ = .ok s₁ ∧
      object = (newObject o d z t now s₁).mark n := by
  have hlt : p < (allocated es).length := by
    rw [← (run_typed h).size]
    exact Heap.lt_size hp
  obtain ⟨es₁, o, d, z, t, now, es₂, s₁, n, hes, h₁, hn⟩ := run_allocated h hlt
  exact ⟨es₁, o, d, z, t, now, es₂, s₁, n, hes, h₁, Option.some.inj (hp.symm.trans hn)⟩

/-- What `Shutdown` writes of the objects are such records. -/
theorem run_records (h : run step c.start es = .ok s) : ∃ records objects, objectsSection s = .ok (records, objects) ∧
    ∀ r ∈ records, ∃ es₁ o d z t now es₂ s₁ n, es = es₁ ++ .objectAllocated o d (some z) t now :: es₂ ∧
      run step c.start es₁ = .ok s₁ ∧ r = ((newObject o d z t now s₁).mark n).record := by
  obtain ⟨records, objects, ho, hwritten⟩ := (Reachable.tracked ⟨c, es, h⟩).written
  refine ⟨records, objects, ho, fun r hr => ?_⟩
  obtain ⟨p, -, ⟨object, hobject, hrecord⟩, -⟩ := forall₂_mem_left hwritten.flip hwritten.flip hr
  obtain ⟨es₁, o, d, z, t, now, es₂, s₁, n, hes, h₁, rfl⟩ := run_newObject h hobject
  have hmark : ∃ n', r = ((newObject o d z t now s₁).mark n').record := by
    rcases hrecord with rfl | rfl
    · exact ⟨n, rfl⟩
    · unfold ObjectClass.survive
      split
      · exact ⟨s.gcNumber + 1, rfl⟩
      · exact ⟨n, rfl⟩
  obtain ⟨n', rfl⟩ := hmark
  exact ⟨es₁, o, d, z, t, now, es₂, s₁, n', hes, h₁, rfl⟩

end objects

/-- Every object that `Shutdown` writes was allocated in the run, and the only function record it refers
to is that of the call that its thread had entered last by then; it refers to none if there was none. -/
theorem run_references {c : Config} {es : List Callback} {s : CoreProfiler} (h : run step c.start es = .ok s)
    (now : Clock) : ∃ events functions records objects,
      functionsSection s.functions.size now s = .ok (events, functions) ∧ objectsSection s = .ok (records, objects) ∧
      ∀ r ∈ records, ∃ es₁ o d es₂, es = es₁ ++ .objectAllocated o d (some r.objSize) r.TID ⟨r.eWALLt, r.eCPUt⟩ :: es₂ ∧
        r.fnc = (recordedEnters r.TID c.start es₁).length - 1 ∧
        ((writtenRecords events).filter fun f => f.TID = r.TID ∧ (f.nOr : Int) = r.fnc).map FunctionRecord.call =
          (recordedEnters r.TID c.start es₁).getLast?.toList := by
  obtain ⟨κ, hκ, hcalls⟩ := run_recordedEnters h
  obtain ⟨events, functions, hf, -, hfilter⟩ := hκ.written now (Nat.le_refl _)
  obtain ⟨records, objects, ho, hrecords⟩ := run_records h
  refine ⟨events, functions, records, objects, hf, ho, fun r hrec => ?_⟩
  obtain ⟨es₁, o, d, z, t, clock, es₂, s₁, n, rfl, h₁, rfl⟩ := hrecords r hrec
  have hsplit : recordedEnters t c.start (es₁ ++ .objectAllocated o d (some z) t clock :: es₂) =
      recordedEnters t c.start es₁ ++ recordedEnters t s₁ (.objectAllocated o d (some z) t clock :: es₂) :=
    outputs_append h₁
  obtain ⟨κ₁, hκ₁, hcalls₁⟩ := run_recordedEnters h₁
  have hnum := hκ₁.functionNumOrder o d z t clock
  rw [← List.length_map, hcalls₁] at hnum
  refine ⟨es₁, o, d, es₂, rfl, hnum, ?_⟩
  have hsame : (writtenRecords events).filter (fun f => f.TID = t ∧
      (f.nOr : Int) = (newObject o d z t clock s₁).functionNumOrder) =
        (finished now (κ t)).filter fun f => (f.nOr : Int) = (recordedEnters t c.start es₁).length - 1 := by
    rw [← hfilter t, List.filter_filter, hnum]
    exact List.filter_congr fun f _ => by rw [Bool.decide_and, Bool.and_comm]
  exact (congrArg (List.map FunctionRecord.call) hsame).trans (hκ.last_call now ((hcalls t).trans hsplit))

/-- A caller allocates before and after a call it makes, and another thread that has entered nothing. -/
def allocateBetween : List Callback :=
  [.trace 7, .trace 8, .enterStub 7 1 ⟨1, 1⟩, .objectAllocated 100 5 (some 24) 1 ⟨2, 2⟩, .enterStub 8 1 ⟨3, 3⟩,
    .leaveStub 8 1 ⟨4, 4⟩, .objectAllocated 200 5 (some 24) 1 ⟨5, 5⟩, .objectAllocated 300 5 (some 24) 2 ⟨6, 6⟩]

theorem run_references_allocateBetween :
    ∃ s, run step Config.plain.start allocateBetween = .ok s ∧ ∃ events functions records objects,
      functionsSection s.functions.size ⟨9, 9⟩ s = .ok (events, functions) ∧ objectsSection s = .ok (records, objects) ∧
      ∀ r ∈ records, ∃ es₁ o d es₂, allocateBetween =
        es₁ ++ .objectAllocated o d (some r.objSize) r.TID ⟨r.eWALLt, r.eCPUt⟩ :: es₂ ∧
        r.fnc = (recordedEnters r.TID Config.plain.start es₁).length - 1 ∧
        ((writtenRecords events).filter fun f => f.TID = r.TID ∧ (f.nOr : Int) = r.fnc).map FunctionRecord.call =
          (recordedEnters r.TID Config.plain.start es₁).getLast?.toList :=
  ⟨_, rfl, run_references (show run step Config.plain.start allocateBetween = .ok _ from rfl) ⟨9, 9⟩⟩

end Perun
