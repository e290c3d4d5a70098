import PerunProfiler.Lib.Actors
import PerunProfiler.ThreadCalls

/-!
# Threads do not disturb each other

While nothing is mapped and nothing is collected, a callback acts on the calls of its own thread
only, and the lookups it makes leave entries that read as if they were not there. So what `Shutdown`
writes does not depend on how the threads were interleaved.
-/

namespace Perun
open Lib

/-- The thread of a callback that enters, leaves or allocates. -/
def Callback.thread? : Callback → Option ThreadID
  | .enterStub _ t _ | .leaveStub _ t _ | .tailcallStub _ t _ => some t
  | .exceptionUnwindFunctionEnter _ t _ | .exceptionUnwindFunctionLeave t _ => some t
  | .objectAllocated _ _ _ t _ => some t
  | _ => none

/-- The address at which a callback makes an object record. -/
def Callback.address : Callback → Option Nat
  | .objectAllocated o _ (some _) _ _ => some o
  | _ => none

/-- The part of the state one thread acts on. -/
structure ThreadView where
  /-- the thread has an entry in `m_activeFunctionInThread` -/
  known : Bool
  calls : Spine FunctionRecord

def threadAct (traced : FunctionID → Bool) (n : ThreadView) (e : Callback) : Except Fault ThreadView :=
  match e.move with
  | some (.enter f t now) => .ok (if traced f then ⟨true, n.calls.push (enterRecord f t now n.calls)⟩ else n)
  | some (.leave _ now) =>
    if n.known && n.calls.isEmpty then .error .nullActiveFunction else .ok ⟨n.known, leaveRecord now n.calls⟩
  | none => .ok ⟨n.known || e.address.isSome, n.calls⟩

/-- The threads of a reachable state, `traced` telling the functions that are mapped. -/
structure ThreadViews (traced : FunctionID → Bool) (s : CoreProfiler) (v : ThreadID → ThreadView) : Prop where
  reachable : Reachable s
  traced : s.traced = traced
  calls : CallRecords s fun t => (v t).calls
  known : ∀ t, (v t).known = s.activeFunctionInThread.contains t

section step
variable {s s' : CoreProfiler} {e : Callback} {f : FunctionID} {t : ThreadID} {now : Clock}
  {κ : ThreadID → Spine FunctionRecord}

theorem Callback.move_thread {m : Move} (hm : e.move = some m) : e.thread? = some (match m with
    | .enter _ t _ | .leave t _ => t) := by
  cases e <;> simp [Callback.move] at hm
  case exceptionUnwindFunctionLeave => subst hm; rfl
  all_goals obtain ⟨-, rfl⟩ := hm; rfl

/-- What a callback does that neither enters nor leaves. -/
theorem step_still (hm : e.move = none) (ht : e.thread? = some t) (h : step s e = .ok s') :
    s'.functionMap = s.functionMap ∧ s'.activeFunctionInThread =
      if e.address.isSome then s.activeFunctionInThread.insertIfNew t (0, none) else s.activeFunctionInThread := by
  cases e with
  | enterStub f t now | leaveStub f t now | tailcallStub f t now | exceptionUnwindFunctionEnter f t now =>
    obtain rfl : f = 0 := by simpa [Callback.move] using hm
    cases h
    exact ⟨rfl, rfl⟩
  | exceptionUnwindFunctionLeave t now => simp [Callback.move] at hm
  | objectAllocated o c z u now =>
    obtain rfl : u = t := Option.some.inj ht
    rcases objectAllocated_cases h with ⟨rfl, rfl⟩ | ⟨z, rfl, rfl⟩ <;> exact ⟨rfl, rfl⟩
  | _ => simp [Callback.thread?] at ht

theorem step_traced (ha : s.Alive) (ht : e.thread? = some t) (h : step s e = .ok s') : s'.traced = s.traced := by
  funext g
  rcases step_move ha h with ⟨f, u, now, -, h⟩ | ⟨u, now, -, h⟩ | ⟨hm, -⟩
  · rcases enter_cases h with ⟨hf, rfl⟩ | ⟨-, info, -, ⟨-, rfl⟩ | ⟨prev, prevFunction, -, -, rfl⟩⟩
    · -- the lookup leaves a null entry, which reads like none
      simp only [CoreProfiler.traced, Std.ExtTreeMap.getD_insertIfNew]
      split
      · next hg =>
        obtain ⟨hg, hn⟩ := hg
        obtain rfl : f = g := by simpa using hg
        rw [Std.ExtTreeMap.getD_eq_fallback hn]
      · rfl
    · rfl
    · rfl
  · rcases leaveActive_cases h with ⟨-, rfl⟩ | ⟨_, _, _, -, -, rfl⟩ <;> rfl
  · simp only [CoreProfiler.traced, (step_still hm ht h).1]

theorem enter_contains (h : enter f t now s = .ok s') (u : ThreadID) : s'.activeFunctionInThread.contains u =
    (s.activeFunctionInThread.contains u || (s.traced f && u = t)) := by
  have hinsert : ∀ entry, (s.activeFunctionInThread.insert t entry).contains u =
      (s.activeFunctionInThread.contains u || decide (u = t)) := by
    intro entry
    rw [Std.ExtTreeMap.contains_insert, Bool.or_comm]
    by_cases hu : u = t <;> simp [hu, Ne.symm]
  rcases enter_cases h with ⟨hf, rfl⟩ | ⟨hf, info, -, ⟨-, rfl⟩ | ⟨prev, prevFunction, -, -, rfl⟩⟩
  · rw [hf, Bool.false_and, Bool.or_false]
  · rw [hf, Bool.true_and]
    exact hinsert _
  · rw [hf, Bool.true_and]
    exact hinsert _

theorem leaveActive_contains (h : leaveActive t now s = .ok s') (u : ThreadID) :
    s'.activeFunctionInThread.contains u = s.activeFunctionInThread.contains u := by
  rcases leaveActive_cases h with ⟨-, rfl⟩ | ⟨first, active, function, he, -, rfl⟩
  · rfl
  · cases hp : function.prevFunction with
    | none => rfl
    | some prev =>
      have ht : s.activeFunctionInThread.contains t = true := by
        rw [Std.ExtTreeMap.contains_eq_isSome_getElem?, he]
        rfl
      show (s.activeFunctionInThread.insert t (first, some prev)).contains u = _
      rw [Std.ExtTreeMap.contains_insert]
      by_cases hu : t = u
      · rw [← hu, ht, Bool.or_true]
      · simp [hu]

theorem CallRecords.eq_nil_iff (hκ : CallRecords s κ) : κ t = [] ↔ s.activeFunction t = none := by
  obtain ⟨σ, hσ, hκ⟩ := hκ
  rw [hκ, (hσ t).active]
  cases σ t <;> simp [Spine.map, Spine.path]

end step

section act
variable {s s' : CoreProfiler} {v : ThreadID → ThreadView} {traced : FunctionID → Bool} {e : Callback} {t : ThreadID}
  {x : Fault}

theorem ThreadViews.ok (hv : ThreadViews traced s v) (ht : e.thread? = some t) (h : step s e = .ok s') :
    ∃ n, threadAct traced (v t) e = .ok n ∧ ThreadViews traced s' fun u => if u = t then n else v u := by
  have ha := hv.reachable.alive
  have hcalls := hv.calls.step ha h
  rw [hv.traced] at hcalls
  have hview : ∀ n, (∀ u, recordStep traced u e (v u).calls = (if u = t then n else v u).calls) →
      (∀ u, (if u = t then n else v u).known = s'.activeFunctionInThread.contains u) →
      ThreadViews traced s' fun u => if u = t then n else v u := fun n hn hknown =>
    ⟨hv.reachable.step h, (step_traced ha ht h).trans hv.traced, by rwa [← funext hn], hknown⟩
  unfold threadAct
  unfold recordStep at hview
  rcases step_move ha h with ⟨f, u, now, hm, henter⟩ | ⟨u, now, hm, hleave⟩ | ⟨hm, -⟩
  · obtain rfl : u = t := Option.some.inj ((Callback.move_thread hm).symm.trans ht)
    have hcontains := enter_contains henter
    rw [hv.traced] at hcontains
    rw [hm] at hview ⊢
    refine ⟨_, rfl, hview _ (fun w => ?_) fun w => ?_⟩
    · by_cases hw : w = u
      · subst hw
        cases hf : traced f <;> simp [hf]
      · simp [hw, Ne.symm hw]
    · rw [hcontains, ← hv.known]
      by_cases hw : w = u
      · subst hw
        cases traced f <;> simp
      · simp [hw]
  · obtain rfl : u = t := Option.some.inj ((Callback.move_thread hm).symm.trans ht)
    have hcontains := leaveActive_contains hleave
    have hopen : ((v u).known && (v u).calls.isEmpty) = false := by
      rw [hv.known]
      rcases leaveActive_cases hleave with ⟨hn, -⟩ | ⟨first, active, function, he, -, -⟩
      · rw [Std.ExtTreeMap.contains_eq_isSome_getElem?, hn]
        rfl
      · have hne : (v u).calls ≠ [] := fun hnil => by
          have hnone := (hv.calls.eq_nil_iff (t := u)).1 hnil
          rw [CoreProfiler.activeFunction_eq he] at hnone
          cases hnone
        simp [hne]
    rw [hm] at hview ⊢
    simp only [hopen]
    refine ⟨_, rfl, hview _ (fun w => ?_) fun w => ?_⟩
    · by_cases hw : w = u
      · subst hw; simp
      · simp [hw, Ne.symm hw]
    · rw [hcontains, ← hv.known]
      by_cases hw : w = u <;> simp [hw]
  · obtain ⟨-, hentry⟩ := step_still hm ht h
    rw [hm] at hview ⊢
    refine ⟨_, rfl, hview _ (fun w => ?_) fun w => ?_⟩
    · by_cases hw : w = t <;> simp [hw]
    · rw [hentry]
      cases e.address with
      | none => by_cases hw : w = t <;> simp [hw, hv.known]
      | some o =>
        rw [Option.isSome_some, if_pos rfl, Std.ExtTreeMap.contains_insertIfNew]
        by_cases hw : w = t
        · simp [hw]
        · simp [hw, Ne.symm hw, hv.known]

theorem ThreadViews.error (hv : ThreadViews traced s v) (ht : e.thread? = some t) (h : step s e = .error x) :
    ∃ g, threadAct traced (v t) e = .error g := by
  have ha := hv.reachable.alive
  by_cases hleave : ∃ u now, e.move = some (.leave u now)
  · obtain ⟨u, now, hm⟩ := hleave
    obtain rfl : u = t := Option.some.inj ((Callback.move_thread hm).symm.trans ht)
    obtain ⟨σ, hσ⟩ := hv.reachable.spines
    rw [step_leave ha.gCoreProfiler hm] at h
    obtain ⟨-, first, he⟩ := leaveActive_fault ha hσ h
    have hknown : (v u).known = true := by
      rw [hv.known, Std.ExtTreeMap.contains_eq_isSome_getElem?, he]
      rfl
    have hnil : (v u).calls = [] := hv.calls.eq_nil_iff.2 (CoreProfiler.activeFunction_eq he)
    refine ⟨.nullActiveFunction, ?_⟩
    rw [threadAct, hm]
    simp [hknown, hnil]
  · obtain ⟨s', hok⟩ := hv.reachable.step_ok fun u now hm => hleave ⟨u, now, hm⟩
    cases h.symm.trans hok

theorem threadActors (traced : FunctionID → Bool) :
    Actors step Callback.thread? (threadAct traced) (ThreadViews traced) :=
  ⟨fun hv ht h => hv.ok ht h, fun hv ht h => hv.error ht h⟩

end act

/-! ### The objects -/

/-- The record that is tracked at an address. -/
def CoreProfiler.heldAt (s : CoreProfiler) (k : Nat) : Option ObjectClass := s.objectsAlloc[k]?.bind s.objects.get?

/-- What histories leave of the objects: the records there are, and all that a new one reads but its
thread. -/
structure Grows (s s' : CoreProfiler) : Prop where
  dead : s'.objectsDeAlloc = s.objectsDeAlloc
  gcNumber : s'.gcNumber = s.gcNumber
  classes : ∀ c : ClassID, s'.classes.getD c "" = s.classes.getD c ""
  objects : ∀ p object, s.objects.get? p = some object → s'.objects.get? p = some object

section objects
variable {s s' s₁ s₂ : CoreProfiler} {e : Callback} {es : List Callback} {t : ThreadID} {k : Nat}
  {κ : ThreadID → Spine FunctionRecord}

theorem Grows.refl (s : CoreProfiler) : Grows s s := ⟨rfl, rfl, fun _ => rfl, fun _ _ h => h⟩

theorem Grows.trans (h : Grows s s₁) (h' : Grows s₁ s₂) : Grows s s₂ :=
  ⟨h'.dead.trans h.dead, h'.gcNumber.trans h.gcNumber, fun c => (h'.classes c).trans (h.classes c),
    fun p object hp => h'.objects p object (h.objects p object hp)⟩

theorem objectAllocated_grows {o : Nat} {c : ClassID} {z : Option Nat} {now : Clock}
    (h : objectAllocated o c z t now s = .ok s') : Grows s s' := by
  have hclasses : ∀ d : ClassID, (s.classes.insertIfNew c "").getD d "" = s.classes.getD d "" := by
    intro d
    rw [Std.ExtTreeMap.getD_insertIfNew]
    split
    · next hd =>
      obtain ⟨hd, hn⟩ := hd
      obtain rfl : c = d := by simpa using hd
      rw [Std.ExtTreeMap.getD_eq_fallback hn]
    · rfl
  rcases objectAllocated_cases h with ⟨-, rfl⟩ | ⟨z, -, rfl⟩
  · exact ⟨rfl, rfl, hclasses, fun _ _ hp => hp⟩
  · exact ⟨rfl, rfl, hclasses, fun _ _ hp => Heap.get?_alloc_of_some hp⟩

theorem isCall_or_objectAllocated (ht : e.thread? = some t) :
    e.isCall = true ∨ ∃ o c z now, e = .objectAllocated o c z t now := by
  cases e with
  | objectAllocated o c z u now =>
    obtain rfl : u = t := Option.some.inj ht
    exact .inr ⟨o, c, z, now, rfl⟩
  | enterStub | leaveStub | tailcallStub | exceptionUnwindFunctionEnter | exceptionUnwindFunctionLeave =>
    exact .inl rfl
  | _ => cases ht

theorem step_grows (ht : e.thread? = some t) (h : step s e = .ok s') : Grows s s' := by
  rcases isCall_or_objectAllocated ht with hc | ⟨o, c, z, now, rfl⟩
  · have hbesides := step_besides hc h
    exact ⟨(congrArg CoreProfiler.objectsDeAlloc hbesides :), (congrArg CoreProfiler.gcNumber hbesides :),
      fun c => (congrArg (fun s => s.classes.getD c "") hbesides :),
      fun p object hp => (congrArg (fun s => s.objects.get? p) hbesides :).trans hp⟩
  · exact objectAllocated_grows h

theorem step_heldAt (htracked : Tracked s) (ht : e.thread? = some t) (hk : e.address ≠ some k)
    (h : step s e = .ok s') : s'.heldAt k = s.heldAt k := by
  have hsame : s'.objectsAlloc[k]? = s.objectsAlloc[k]? := by
    rcases isCall_or_objectAllocated ht with hc | ⟨o, c, z, now, rfl⟩
    · exact (congrArg (fun s => s.objectsAlloc[k]?) (step_besides hc h) :)
    · rcases objectAllocated_cases h with ⟨-, rfl⟩ | ⟨z, rfl, rfl⟩
      · rfl
      · have hne : o ≠ k := fun ho => hk (congrArg some ho)
        simp [Std.ExtTreeMap.getElem?_insert, hne]
  rw [CoreProfiler.heldAt, CoreProfiler.heldAt, hsame]
  cases hp : s.objectsAlloc[k]? with
  | none => rfl
  | some p =>
    obtain ⟨object, hobject⟩ := Option.isSome_iff_exists.1 (htracked.live k p hp)
    rw [Option.bind_some, Option.bind_some, hobject, (step_grows ht h).objects p object hobject]

theorem run_grows (hes : ∀ e ∈ es, e.thread?.isSome) (h : run step s es = .ok s') : Grows s s' :=
  run_inv_mem (P := Grows s) (Grows.refl s) (fun s₁ e he s₂ hg hs => by
    obtain ⟨t, ht⟩ := Option.isSome_iff_exists.1 (hes e he)
    exact hg.trans (step_grows ht hs)) h

theorem run_heldAt (hreach : Reachable s) (hes : ∀ e ∈ es, e.thread?.isSome)
    (hk : ∀ e ∈ es, e.address ≠ some k) (h : run step s es = .ok s') : s'.heldAt k = s.heldAt k := by
  have hinv := run_inv_mem (P := fun s₁ => Reachable s₁ ∧ s₁.heldAt k = s.heldAt k) ⟨hreach, rfl⟩
    (fun s₁ e he s₂ hs₁ hs => by
      obtain ⟨t, ht⟩ := Option.isSome_iff_exists.1 (hes e he)
      exact ⟨hs₁.1.step hs, (step_heldAt hs₁.1.tracked ht (hk e he) hs).trans hs₁.2⟩) h
  exact hinv.2

/-- The number a new object gets is that of the last call of its thread. -/
theorem CallRecords.functionNumOrder (hκ : CallRecords s κ) (o : Nat) (c : ClassID) (z : Nat) (t : ThreadID)
    (now : Clock) :
    (newObject o c z t now s).functionNumOrder = ((Spine.preorder (κ t)).length : Int) - 1 := by
  have hnew : (newObject o c z t now s).functionNumOrder =
      if (s.activeFunction t).isSome then ((s.threadEntry t).1 : Int) else -1 := rfl
  rw [hnew]
  obtain ⟨σ, hσ, hκ⟩ := hκ
  rw [hκ, Spine.preorder_map, List.length_map, (hσ t).pre, (hσ t).active]
  cases hsp : σ t with
  | nil =>
    have hpre := (hσ t).pre
    rw [hsp] at hpre
    rw [← hpre]
    rfl
  | cons x rest =>
    have hcount := (hσ t).count (by rw [hsp]; simp)
    have hsome : (Spine.path (x :: rest)).head?.isSome = true := rfl
    rw [if_pos hsome]
    omega

theorem newObject_congr {κ' : ThreadID → Spine FunctionRecord} (hκ : CallRecords s₁ κ) (hκ' : CallRecords s₂ κ')
    (h₁ : Grows s s₁) (h₂ : Grows s s₂) (ht : κ t = κ' t) (o : Nat) (c : ClassID) (z : Nat) (now : Clock) :
    newObject o c z t now s₁ = newObject o c z t now s₂ := by
  have hnum := hκ.functionNumOrder o c z t now
  rw [ht, ← hκ'.functionNumOrder o c z t now] at hnum
  have hnew : ∀ s : CoreProfiler, newObject o c z t now s =
      { cpuTimeAllocation := now.cpu, wallTimeAllocation := now.wall, objectId := o, size := z, threadId := t
        typeName := s.classes.getD c "", gcNumber := s.gcNumber, untilGcNumber := s.gcNumber
        functionNumOrder := (newObject o c z t now s).functionNumOrder } := fun _ => rfl
  rw [hnew s₁, hnew s₂, hnum, h₁.classes, h₂.classes, h₁.gcNumber, h₂.gcNumber]

theorem address_once {l r : List Callback} (he : e.address = some k)
    (h : ((l ++ e :: r).filterMap Callback.address).Nodup) :
    (∀ e' ∈ l, e'.address ≠ some k) ∧ ∀ e' ∈ r, e'.address ≠ some k := by
  rw [List.filterMap_append, List.filterMap_cons_some he, List.nodup_append, List.nodup_cons] at h
  obtain ⟨-, ⟨hr, -⟩, hl⟩ := h
  refine ⟨fun e' he' ha => hl k (List.mem_filterMap.2 ⟨e', he', ha⟩) k (by simp) rfl, fun e' he' ha => ?_⟩
  exact hr (List.mem_filterMap.2 ⟨e', he', ha⟩)

/-- The record at an address that is reported once was made in the state before the report. -/
theorem heldAt_reported {l r : List Callback} {c : ClassID} {z : Nat} {now : Clock} (hreach : Reachable s)
    (hes : ∀ e ∈ l ++ .objectAllocated k c (some z) t now :: r, e.thread?.isSome) (hr : ∀ e ∈ r, e.address ≠ some k)
    (h : run step s (l ++ .objectAllocated k c (some z) t now :: r) = .ok s') :
    ∃ s₁, run step s l = .ok s₁ ∧ s'.heldAt k = some (newObject k c z t now s₁) := by
  obtain ⟨s₁, hl, h⟩ := run_append.1 h
  obtain ⟨s₂, he, h⟩ := run_cons.1 h
  refine ⟨s₁, hl, ?_⟩
  rw [run_heldAt ((hreach.run hl).step he) (fun e he => hes e (by simp [he])) hr h]
  rcases objectAllocated_cases (show objectAllocated k c (some z) t now s₁ = .ok s₂ from he) with
    ⟨hz, -⟩ | ⟨z', hz, rfl⟩
  · cases hz
  · obtain rfl := Option.some.inj hz
    simp [CoreProfiler.heldAt]

end objects

section interleaving
variable {s s₁ s₂ : CoreProfiler} {es₁ es₂ : List Callback}

theorem ThreadViews.of_reachable (h : Reachable s) : ∃ v, ThreadViews s.traced s v := by
  obtain ⟨κ, hκ⟩ := h.callRecords
  exact ⟨fun t => ⟨s.activeFunctionInThread.contains t, κ t⟩, h, rfl, hκ, fun _ => rfl⟩

variable (h : Reachable s) (hes₁ : ∀ e ∈ es₁, e.thread?.isSome) (hes₂ : ∀ e ∈ es₂, e.thread?.isSome)
  (hsame : ∀ t, historyOf Callback.thread? t es₁ = historyOf Callback.thread? t es₂)
include h hes₁ hes₂ hsame

theorem heldAt_interleave (haddr : (es₁.filterMap Callback.address).Nodup) (h₁ : run step s es₁ = .ok s₁)
    (h₂ : run step s es₂ = .ok s₂) (k : Nat) : s₁.heldAt k = s₂.heldAt k := by
  have hperm := perm_of_historyOf hes₁ hes₂ hsame
  have haddr₂ := (hperm.filterMap Callback.address).nodup_iff.1 haddr
  by_cases hk : ∃ e ∈ es₁, e.address = some k
  · obtain ⟨e, he, hek⟩ := hk
    obtain ⟨c, z, t, now, rfl⟩ : ∃ c z t now, e = .objectAllocated k c (some z) t now := by
      cases e <;> simp [Callback.address] at hek
      case objectAllocated o c z t now =>
        cases z <;> simp at hek
        next z => exact ⟨c, z, t, now, by rw [hek]⟩
    obtain ⟨l₁, r₁, rfl⟩ := List.append_of_mem he
    obtain ⟨l₂, r₂, rfl⟩ := List.append_of_mem (hperm.mem_iff.1 he)
    obtain ⟨hl, hr⟩ := address_once hek haddr
    obtain ⟨a, ha, hheld₁⟩ := heldAt_reported h hes₁ hr h₁
    obtain ⟨b, hb, hheld₂⟩ := heldAt_reported h hes₂ (address_once hek haddr₂).2 h₂
    -- the thread has done the same before it reports the object
    have hthread : Callback.thread? (.objectAllocated k c (some z) t now) = some t := rfl
    have hbefore := historyOf_before hthread (fun hm => hl _ hm hek) (fun hm => hr _ hm hek) (hsame t)
    obtain ⟨v, hv⟩ := ThreadViews.of_reachable h
    have hla : ∀ e ∈ l₁, e.thread?.isSome := fun e he => hes₁ e (by simp [he])
    have hlb : ∀ e ∈ l₂, e.thread?.isSome := fun e he => hes₂ e (by simp [he])
    obtain ⟨va, hva, hpa⟩ := (threadActors s.traced).run hv hla ha
    obtain ⟨vb, hvb, hpb⟩ := (threadActors s.traced).run hv hlb hb
    have hview : va t = vb t := Except.ok.inj ((hpa t).symm.trans (by rw [hbefore]; exact hpb t))
    rw [hheld₁, hheld₂, newObject_congr hva.calls hvb.calls (run_grows hla ha) (run_grows hlb hb) (by rw [hview])]
  · have hno : ∀ e ∈ es₁, e.address ≠ some k := fun e he hek => hk ⟨e, he, hek⟩
    rw [run_heldAt h hes₁ hno h₁, run_heldAt h hes₂ (fun e he => hno e (hperm.mem_iff.2 he)) h₂]

end interleaving

/-- The objects section, by address. -/
theorem Tracked.objectsSection_heldAt {s : CoreProfiler} (h : Tracked s) : ∃ objects', Perun.objectsSection s = .ok
    (s.objectsDeAlloc.filterMap (fun p => (s.objects.get? p).map ObjectClass.record) ++
      (s.objectsAlloc.toList.map Prod.fst).filterMap fun k =>
        (s.heldAt k).map fun object => (object.survive s.gcNumber).record, objects') := by
  obtain ⟨objects', hok, -⟩ := h.objectsSection
  refine ⟨objects', hok.trans ?_⟩
  rw [List.filterMap_map]
  have hkeys := s.objectsAlloc.filterMap_toList fun p =>
    (s.objects.get? p).map fun object => (object.survive s.gcNumber).record
  have hheld : ∀ k : Nat, (s.objectsAlloc[k]?.bind fun p => (s.objects.get? p).map fun object =>
      (object.survive s.gcNumber).record) = (s.heldAt k).map fun object => (object.survive s.gcNumber).record := by
    intro k
    rw [CoreProfiler.heldAt, Option.map_bind]
    rfl
  rw [List.filterMap_congr fun k _ => hheld k] at hkeys
  rw [← hkeys]
  rfl

theorem Tracked.contains_heldAt {s : CoreProfiler} (h : Tracked s) (k : Nat) :
    s.objectsAlloc.contains k = (s.heldAt k).isSome := by
  rw [Std.ExtTreeMap.contains_eq_isSome_getElem?, CoreProfiler.heldAt]
  cases hp : s.objectsAlloc[k]? with
  | none => rfl
  | some p => rw [Option.bind_some, h.live k p hp, Option.isSome_some]

theorem Grows.objectsSection {s s₁ s₂ : CoreProfiler} (h : Tracked s) (h₁ : Tracked s₁) (h₂ : Tracked s₂)
    (hg₁ : Grows s s₁) (hg₂ : Grows s s₂) (hheld : ∀ k, s₁.heldAt k = s₂.heldAt k) :
    ∃ records objects₁ objects₂, Perun.objectsSection s₁ = .ok (records, objects₁) ∧
      Perun.objectsSection s₂ = .ok (records, objects₂) := by
  obtain ⟨objects₁, hok₁⟩ := h₁.objectsSection_heldAt
  obtain ⟨objects₂, hok₂⟩ := h₂.objectsSection_heldAt
  have hdead : ∀ {a : CoreProfiler}, Grows s a →
      a.objectsDeAlloc.filterMap (fun p => (a.objects.get? p).map ObjectClass.record) =
        s.objectsDeAlloc.filterMap fun p => (s.objects.get? p).map ObjectClass.record := by
    intro a ha
    rw [ha.dead]
    refine List.filterMap_congr fun p hp => ?_
    obtain ⟨object, hobject⟩ := Option.isSome_iff_exists.1 (h.deadLive p hp)
    rw [hobject, ha.objects p object hobject]
  have hkeys : s₁.objectsAlloc.toList.map Prod.fst = s₂.objectsAlloc.toList.map Prod.fst :=
    Map.keys_congr fun k => by rw [h₁.contains_heldAt, h₂.contains_heldAt, hheld]
  have hheld : s₁.heldAt = s₂.heldAt := funext hheld
  rw [hdead hg₁, hkeys, hg₁.gcNumber, hheld] at hok₁
  rw [hdead hg₂, hg₂.gcNumber] at hok₂
  exact ⟨_, objects₁, objects₂, hok₁, hok₂⟩

/-- From any state on, two interleavings of the same histories of calls and allocations, with the
addresses of the objects distinct, fault both or neither, and then `Shutdown` writes the same records
of calls and the same records of objects, the thread and the call of each included. -/
theorem run_interleaving {s s₁ : CoreProfiler} {es₁ es₂ : List Callback} (h : Reachable s)
    (hes₁ : ∀ e ∈ es₁, e.thread?.isSome) (hes₂ : ∀ e ∈ es₂, e.thread?.isSome)
    (hsame : ∀ t, historyOf Callback.thread? t es₁ = historyOf Callback.thread? t es₂)
    (haddr : (es₁.filterMap Callback.address).Nodup) (h₁ : run step s es₁ = .ok s₁) (now : Clock) :
    ∃ s₂ events₁ functions₁ events₂ functions₂ records objects₁ objects₂, run step s es₂ = .ok s₂ ∧
      functionsSection s₁.functions.size now s₁ = .ok (events₁, functions₁) ∧
      functionsSection s₂.functions.size now s₂ = .ok (events₂, functions₂) ∧
      writtenRecords events₁ = writtenRecords events₂ ∧
      objectsSection s₁ = .ok (records, objects₁) ∧ objectsSection s₂ = .ok (records, objects₂) := by
  obtain ⟨v, hv⟩ := ThreadViews.of_reachable h
  obtain ⟨s₂, v', h₂, hv₁, hv₂⟩ := (threadActors s.traced).interleave hv hes₁ hes₂ hsame h₁
  obtain ⟨events₁, functions₁, hf₁, hw₁, -⟩ := hv₁.calls.written now (Nat.le_refl _)
  obtain ⟨events₂, functions₂, hf₂, hw₂, -⟩ := hv₂.calls.written now (Nat.le_refl _)
  obtain ⟨records, objects₁, objects₂, ho₁, ho₂⟩ := Grows.objectsSection h.tracked hv₁.reachable.tracked
    hv₂.reachable.tracked (run_grows hes₁ h₁) (run_grows hes₂ h₂) (heldAt_interleave h hes₁ hes₂ hsame haddr h₁ h₂)
  have hthreads : s₁.threads = s₂.threads := Map.keys_congr fun t => by rw [← hv₁.known, hv₂.known]
  have hwritten : writtenRecords events₁ = writtenRecords events₂ := by rw [hw₁, hw₂, hthreads]
  exact ⟨s₂, events₁, functions₁, events₂, functions₂, records, objects₁, objects₂, h₂, hf₁, hf₂, hwritten, ho₁, ho₂⟩

/-- Two threads, one of which calls what is not mapped and allocates twice. -/
def oneAfterTheOther : List Callback :=
  [.enterStub 7 1 ⟨1, 1⟩, .exceptionUnwindFunctionEnter 9 1 ⟨2, 1⟩, .objectAllocated 100 5 (some 24) 1 ⟨3, 1⟩,
    .enterStub 7 1 ⟨5, 2⟩, .objectAllocated 200 5 (some 8) 1 ⟨6, 2⟩, .leaveStub 7 1 ⟨8, 3⟩,
    .objectAllocated 150 5 (some 16) 2 ⟨4, 2⟩, .enterStub 9 2 ⟨7, 2⟩]

def alternating : List Callback :=
  [.objectAllocated 150 5 (some 16) 2 ⟨4, 2⟩, .enterStub 7 1 ⟨1, 1⟩, .exceptionUnwindFunctionEnter 9 1 ⟨2, 1⟩,
    .enterStub 9 2 ⟨7, 2⟩, .objectAllocated 100 5 (some 24) 1 ⟨3, 1⟩, .enterStub 7 1 ⟨5, 2⟩,
    .objectAllocated 200 5 (some 8) 1 ⟨6, 2⟩, .leaveStub 7 1 ⟨8, 3⟩]

theorem oneAfterTheOther_histories (t : ThreadID) :
    historyOf Callback.thread? t oneAfterTheOther = historyOf Callback.thread? t alternating := by
  by_cases h₁ : t = 1
  · subst h₁; decide
  by_cases h₂ : t = 2
  · subst h₂; decide
  have hnone : ∀ es : List Callback, (∀ e ∈ es, e.thread? = some 1 ∨ e.thread? = some 2) →
      historyOf Callback.thread? t es = [] := fun es hes => List.filter_eq_nil_iff.2 fun e he => by
    rcases hes e he with h | h
    · simpa [h] using fun ht : 1 = t => h₁ ht.symm
    · simpa [h] using fun ht : 2 = t => h₂ ht.symm
  rw [hnone _ (by decide), hnone _ (by decide)]

theorem run_interleaving_alternating :
    ∃ s s₁ : CoreProfiler, run step Config.plain.start [.trace 7] = .ok s ∧ run step s oneAfterTheOther = .ok s₁ ∧
      ∃ s₂ events₁ functions₁ events₂ functions₂ records objects₁ objects₂, run step s alternating = .ok s₂ ∧
        functionsSection s₁.functions.size ⟨9, 9⟩ s₁ = .ok (events₁, functions₁) ∧
        functionsSection s₂.functions.size ⟨9, 9⟩ s₂ = .ok (events₂, functions₂) ∧
        writtenRecords events₁ = writtenRecords events₂ ∧
        objectsSection s₁ = .ok (records, objects₁) ∧ objectsSection s₂ = .ok (records, objects₂) :=
  ⟨_, _, rfl, rfl, run_interleaving ⟨.plain, [.trace 7], rfl⟩ (by decide) (by decide) oneAfterTheOther_histories
    (by decide) rfl ⟨9, 9⟩⟩

end Perun
