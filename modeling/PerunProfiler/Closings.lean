import PerunProfiler.Lib.Lists
import PerunProfiler.ThreadCalls

/-!
# The closings of calls

`Leave`, `TailCall` and `ExceptionUnwindFunctionLeave` close the active function of the thread. A
closed call that has a previous function leaves the path to the active function for good; the outermost
one stays there, and `Shutdown` overwrites its times if one of them is 0.
-/

namespace Perun
open Lib

/-- The call that the callback closes, with the times it reads. -/
def Callback.closing (e : Callback) (s : CoreProfiler) : Option (Ptr × Clock) :=
  match e.move with
  | some (.leave t now) => (s.activeFunction t).map (·, now)
  | _ => none

/-- What is closed along a run, in order. -/
def closings (s : CoreProfiler) (es : List Callback) : List (Ptr × Clock) :=
  outputs step (fun s e => e.closing s) s es

def FunctionClass.left (f : FunctionClass) : Clock := ⟨f.wallTimeLeave, f.cpuTimeLeave⟩

/-! ### The records across a callback -/

section step
variable {s s' : CoreProfiler} {e : Callback} {f : FunctionID} {t : ThreadID} {now : Clock} {p : Ptr}
  {g g' : FunctionClass}

/-- A record after `Enter` was there before with the same leave times, or is the new one. -/
theorem enter_left (h : enter f t now s = .ok s') (hg' : s'.functions.get? p = some g') :
    (∃ g, s.functions.get? p = some g ∧ g'.left = g.left) ∨
      (p = s.functions.size ∧ g'.left = ⟨0, 0⟩ ∧ g'.TID = t ∧ s.traced f = true) := by
  by_cases hp : ∃ g, s.functions.get? p = some g
  · obtain ⟨g, hg⟩ := hp
    have hrec := enter_record h hg hg' none
    simp only [FunctionClass.record, FunctionRecord.mk.injEq] at hrec
    exact .inl ⟨g, hg, by rw [FunctionClass.left, FunctionClass.left, hrec.2.2.2.1, hrec.2.2.2.2.2.1]⟩
  · have hnone : s.functions.get? p = none := Option.eq_none_iff_forall_ne_some.2 fun g hg => hp ⟨g, hg⟩
    rcases enter_cases h with ⟨-, rfl⟩ | ⟨ht, info, -, ⟨-, rfl⟩ | ⟨prev, prevFunction, -, hprev, rfl⟩⟩
    · exact absurd ⟨g', hg'⟩ hp
    · rw [show (enterTop (newFunction f info t now) t s).functions.get? p = _ from Heap.get?_alloc, hnone] at hg'
      split at hg'
      · next hsize =>
        obtain rfl := Option.some.inj hg'
        exact .inr ⟨hsize, rfl, rfl, ht⟩
      · cases hg'
    · rw [get?_enterBelow _ _ _ hprev, hnone] at hg'
      split at hg'
      · next hpp => exact absurd ⟨prevFunction, hpp ▸ hprev⟩ hp
      · split at hg'
        · next hsize =>
          obtain rfl := Option.some.inj hg'
          exact .inr ⟨hsize, rfl, rfl, ht⟩
        · cases hg'

theorem leaveActive_left (h : leaveActive t now s = .ok s') (hg' : s'.functions.get? p = some g') :
    ∃ g, s.functions.get? p = some g ∧ g'.left = if s.activeFunction t = some p then now else g.left := by
  have hlive : ∃ g, s.functions.get? p = some g := by
    rcases leaveActive_cases h with ⟨-, rfl⟩ | ⟨first, active, function, -, hact, rfl⟩
    · exact ⟨g', hg'⟩
    · simp only [Heap.get?_set hact] at hg'
      split at hg'
      · next hp => exact ⟨function, hp ▸ hact⟩
      · exact ⟨g', hg'⟩
  obtain ⟨g, hg⟩ := hlive
  have hrec := leaveActive_record h hg hg' none
  refine ⟨g, hg, ?_⟩
  split at hrec <;> rename_i ha
  · simp only [FunctionClass.record, FunctionRecord.stamp, FunctionRecord.mk.injEq] at hrec
    rw [if_pos ha, FunctionClass.left, hrec.2.2.2.1, hrec.2.2.2.2.2.1]
  · simp only [FunctionClass.record, FunctionRecord.mk.injEq] at hrec
    rw [if_neg ha, FunctionClass.left, FunctionClass.left, hrec.2.2.2.1, hrec.2.2.2.2.2.1]

/-- A record after a callback that closes the active function, and what it was before. -/
theorem leave_back {e : Callback} (ha : s.Alive) (hm : e.move = some (.leave t now)) (hs : step s e = .ok s')
    (hg' : s'.functions.get? p = some g') :
    ∃ g, s.functions.get? p = some g ∧ g'.prevFunction = g.prevFunction ∧ g'.TID = g.TID ∧
      g'.left = if s.activeFunction t = some p then now else g.left := by
  have hleave : leaveActive t now s = .ok s' := by rw [← step_leave ha.gCoreProfiler hm, hs]
  obtain ⟨g, hg, hleft⟩ := leaveActive_left hleave hg'
  obtain ⟨g'', hg'', hbirth⟩ := step_birth ha hs hg
  obtain rfl := Option.some.inj (hg''.symm.trans hg')
  simp only [FunctionClass.birth, Prod.mk.injEq] at hbirth
  exact ⟨g, hg, hbirth.1, hbirth.2.2.1, hleft⟩

theorem leave_inactive {σ : ThreadID → Spine Ptr} {e : Callback} (ha : s.Alive) (hσ : Spines s σ)
    (hm : e.move = some (.leave t now)) (hs : step s e = .ok s') (hact : s.activeFunction t = none)
    (tid : ThreadID) : chain s' tid = chain s tid := by
  rw [(hσ.step ha hs tid).chain, (hσ tid).chain]
  simp only [spineStep, hm]
  split
  · next ht =>
    rw [← ht, (hσ t).nil_of_active hact]
    rfl
  · rfl

/-- The path of the thread that leaves loses the active function, unless that is all of it. -/
theorem leave_active {σ : ThreadID → Spine Ptr} {e : Callback} {a : Ptr} (ha : s.Alive) (hσ : Spines s σ)
    (hm : e.move = some (.leave t now)) (hs : step s e = .ok s') (hact : s.activeFunction t = some a) :
    ∃ g rest, s.functions.get? a = some g ∧ g.TID = t ∧ g.prevFunction = rest.head? ∧ chain s t = a :: rest ∧
      a ∉ rest ∧ chain s' t = (if rest = [] then [a] else rest) ∧ ∀ tid, t ≠ tid → chain s' tid = chain s tid := by
  have hpath : ∀ tid, chain s' tid = if t = tid then Spine.path (σ t).pop else chain s tid := by
    intro tid
    rw [(hσ.step ha hs tid).chain, (hσ tid).chain]
    simp only [spineStep, hm]
    split
    · next ht => rw [ht]
    · rfl
  obtain ⟨cs, rest, hsp⟩ := (hσ t).cons_of_active hact
  have hr := hσ t
  have hchain := hr.chain
  rw [hsp] at hr hchain hpath
  obtain ⟨g, hg, hprev, -⟩ := hr.rep.get
  obtain ⟨g', hg', hgt⟩ := hr.mem_preorder.1 (show a ∈ Spine.preorder ((a, cs) :: rest) by simp [Spine.preorder_cons])
  obtain rfl := Option.some.inj (hg.symm.trans hg')
  refine ⟨g, Spine.path rest, hg, hgt, hprev, hchain, ?_, ?_, fun tid ht => by rw [hpath, if_neg ht]⟩
  · exact (List.nodup_cons.1 (Spine.nodup_path hr.nodup)).1
  · rw [hpath, if_pos rfl]
    cases rest with
    | nil => rfl
    | cons x rest => rfl

end step

/-! ### The invariant -/

/-- What the closings are to the records: the path holds the calls not closed and the outermost one. -/
structure Closed (closings : List (Ptr × Clock)) (s : CoreProfiler) : Prop where
  live : ∀ p now, lastAt closings p = some now → ∃ f, s.functions.get? p = some f
  times : ∀ p f, s.functions.get? p = some f → f.left = (lastAt closings p).getD ⟨0, 0⟩
  path : ∀ p f, s.functions.get? p = some f → (p ∈ chain s f.TID ↔ lastAt closings p = none ∨ f.prevFunction = none)

namespace Closed
variable {L : List (Ptr × Clock)} {s s' : CoreProfiler} {σ : ThreadID → Spine Ptr} {e : Callback} {f : FunctionID}
  {t : ThreadID} {now : Clock}

/-- What closes nothing keeps the invariant if the records stay, with their times, on the path or off it. -/
theorem of_same (h : Closed L s) (hold : ∀ p g, s.functions.get? p = some g → ∃ g', s'.functions.get? p = some g' ∧
      g'.birth = g.birth ∧ g'.left = g.left ∧ (p ∈ chain s' g.TID ↔ p ∈ chain s g.TID))
    (hnew : ∀ p g', s'.functions.get? p = some g' → (∃ g, s.functions.get? p = some g) ∨
      (s.functions.get? p = none ∧ g'.left = ⟨0, 0⟩ ∧ p ∈ chain s' g'.TID)) : Closed L s' := by
  have hnone : ∀ p, s.functions.get? p = none → lastAt L p = none := fun p hp =>
    Option.eq_none_iff_forall_ne_some.2 fun c hc => by
      obtain ⟨g, hg⟩ := h.live p c hc
      cases hp.symm.trans hg
  refine ⟨fun p c hc => ?_, fun p g' hg' => ?_, fun p g' hg' => ?_⟩
  · obtain ⟨g, hg⟩ := h.live p c hc
    obtain ⟨g', hg', -⟩ := hold p g hg
    exact ⟨g', hg'⟩
  · rcases hnew p g' hg' with ⟨g, hg⟩ | ⟨hp, hleft, -⟩
    · obtain ⟨g'', hg'', -, hleft, -⟩ := hold p g hg
      obtain rfl := Option.some.inj (hg''.symm.trans hg')
      rw [hleft, h.times p g hg]
    · rw [hleft, hnone p hp, Option.getD_none]
  · rcases hnew p g' hg' with ⟨g, hg⟩ | ⟨hp, -, hmem⟩
    · obtain ⟨g'', hg'', hbirth, -, hpath⟩ := hold p g hg
      obtain rfl := Option.some.inj (hg''.symm.trans hg')
      simp only [FunctionClass.birth, Prod.mk.injEq] at hbirth
      rw [hbirth.1, hbirth.2.2.1, hpath, h.path p g hg]
    · exact iff_of_true hmem (.inl (hnone p hp))

theorem step_none (h : Closed L s) (ha : s.Alive) (hσ : Spines s σ) (hm : e.move = none)
    (hs : Perun.step s e = .ok s') : Closed L s' := by
  have hf : s'.functions = s.functions := (Perun.step_none hm hs).1
  have hpath : ∀ tid, chain s' tid = chain s tid := by
    intro tid
    rw [(hσ.step ha hs tid).chain, (hσ tid).chain]
    simp only [spineStep, hm]
  refine h.of_same (fun p g hg => ⟨g, by rw [hf, hg], rfl, rfl, by rw [hpath]⟩) fun p g' hg' => .inl ⟨g', ?_⟩
  rw [← hf, hg']

theorem step_enter (h : Closed L s) (ha : s.Alive) (hσ : Spines s σ) (hm : e.move = some (.enter f t now))
    (hs : Perun.step s e = .ok s') : Closed L s' := by
  have henter : enter f t now s = .ok s' := by rw [← Perun.step_enter ha.gCoreProfiler hm, hs]
  have hpath : ∀ tid, chain s' tid =
      if t = tid ∧ s.traced f then s.functions.size :: chain s tid else chain s tid := by
    intro tid
    rw [(hσ.step ha hs tid).chain, (hσ tid).chain]
    simp only [spineStep, hm]
    split
    · rw [Spine.path_push]
    · rfl
  refine h.of_same (fun p g hg => ?_) fun p g' hg' => ?_
  · obtain ⟨g', hg', hbirth⟩ := step_birth ha hs hg
    have hne : p ≠ s.functions.size := Nat.ne_of_lt (Heap.lt_size hg)
    refine ⟨g', hg', hbirth, ?_, ?_⟩
    · rcases enter_left henter hg' with ⟨g₁, hg₁, hleft⟩ | ⟨hp, -⟩
      · rw [hleft, Option.some.inj (hg.symm.trans hg₁)]
      · exact absurd hp hne
    · rw [hpath]
      split
      · rw [List.mem_cons, or_iff_right hne]
      · rfl
  · rcases enter_left henter hg' with ⟨g, hg, -⟩ | ⟨rfl, hleft, htid, ht⟩
    · exact .inl ⟨g, hg⟩
    · refine .inr ⟨Option.eq_none_iff_forall_ne_some.2 fun g hg => ?_, hleft, ?_⟩
      · exact Nat.lt_irrefl _ (Heap.lt_size hg)
      · rw [hpath, if_pos ⟨htid.symm, ht⟩]
        exact List.mem_cons_self ..

theorem step_leave (h : Closed L s) (ha : s.Alive) (hσ : Spines s σ) (hm : e.move = some (.leave t now))
    (hs : Perun.step s e = .ok s') : Closed (L ++ (e.closing s).toList) s' := by
  have hclosing : e.closing s = (s.activeFunction t).map (·, now) := by simp only [Callback.closing, hm]
  have hback := fun p g' (hg' : s'.functions.get? p = some g') => leave_back ha hm hs hg'
  cases hact : s.activeFunction t with
  | none =>
    rw [hclosing, hact, Option.map_none, Option.toList_none, List.append_nil]
    refine h.of_same (fun p g hg => ?_) fun p g' hg' => ?_
    · obtain ⟨g', hg', hbirth⟩ := step_birth ha hs hg
      obtain ⟨g₁, hg₁, -, -, hleft⟩ := hback p g' hg'
      obtain rfl := Option.some.inj (hg.symm.trans hg₁)
      exact ⟨g', hg', hbirth, by rw [hleft, hact, if_neg (by simp)], by rw [leave_inactive ha hσ hm hs hact]⟩
    · obtain ⟨g, hg, -⟩ := hback p g' hg'
      exact .inl ⟨g, hg⟩
  | some a =>
    rw [hclosing, hact, Option.map_some, Option.toList_some]
    obtain ⟨ga, rest, hga, htid, hprev, hchain, hrest, hpath, hother⟩ := leave_active ha hσ hm hs hact
    have hlast := fun p => lastAt_snoc L a p now
    refine ⟨fun p c hc => ?_, fun p g' hg' => ?_, fun p g' hg' => ?_⟩
    · have hg : ∃ g, s.functions.get? p = some g := by
        rw [hlast] at hc
        split at hc
        · next hp => exact ⟨ga, hp ▸ hga⟩
        · exact h.live p c hc
      obtain ⟨g, hg⟩ := hg
      obtain ⟨g', hg', -⟩ := step_birth ha hs hg
      exact ⟨g', hg'⟩
    · obtain ⟨g, hg, -, -, hleft⟩ := hback p g' hg'
      rw [hleft, hlast, hact]
      by_cases hp : a = p
      · rw [if_pos (congrArg some hp), if_pos hp, Option.getD_some]
      · rw [if_neg fun he => hp (Option.some.inj he), if_neg hp, h.times p g hg]
    · obtain ⟨g, hg, hprev', htid', -⟩ := hback p g' hg'
      rw [hprev', htid', hlast]
      by_cases hp : a = p
      · -- the innermost call stays only if it is the outermost one
        subst hp
        obtain rfl := Option.some.inj (hga.symm.trans hg)
        rw [if_pos rfl, htid, hpath, hprev]
        cases rest with
        | nil => simp
        | cons q rest => simpa using hrest
      · rw [if_neg hp, ← h.path p g hg]
        by_cases ht : t = g.TID
        · rw [← ht, hpath, hchain, List.mem_cons, or_iff_right (Ne.symm hp)]
          split
          · next hnil => simp [hnil, Ne.symm hp]
          · rfl
        · rw [hother _ ht]

theorem step (h : Closed L s) (ha : s.Alive) (hσ : Spines s σ) (hs : Perun.step s e = .ok s') :
    Closed (L ++ (e.closing s).toList) s' := by
  have hnone : (∀ t now, e.move ≠ some (.leave t now)) → e.closing s = none := by
    intro hno
    unfold Callback.closing
    split
    · next t now hm => exact absurd hm (hno t now)
    · rfl
  cases hm : e.move with
  | none =>
    rw [hnone (by simp [hm]), Option.toList_none, List.append_nil]
    exact h.step_none ha hσ hm hs
  | some m =>
    cases m with
    | enter f t now =>
      rw [hnone (by simp [hm]), Option.toList_none, List.append_nil]
      exact h.step_enter ha hσ hm hs
    | leave t now => exact h.step_leave ha hσ hm hs

end Closed

theorem run_closed {c : Config} {es : List Callback} {s : CoreProfiler} (h : run step c.start es = .ok s) :
    Closed (closings c.start es) s := by
  have hinv := run_inv_outputs (fun s e => e.closing s)
    (P := fun L s => (s.Alive ∧ ∃ σ, Spines s σ) ∧ Closed L s)
    ⟨⟨(Reachable.start c).alive, _, Spines.start c⟩, ?_⟩
    (fun L s e s' ⟨⟨ha, σ, hσ⟩, hc⟩ hs => ⟨⟨ha.step hs, _, hσ.step ha hs⟩, hc.step ha hσ hs⟩) h
  · exact hinv.2
  · exact ⟨by simp [lastAt], by simp [Config.start, initializeProfiler, construct],
      by simp [Config.start, initializeProfiler, construct]⟩

/-! ### What is written -/

section written
variable {look : Ptr → Option FunctionClass} {T : Rose Ptr} {p : Ptr} {r : FunctionRecord}

theorem written_treeEvents (h : .written p r ∈ treeEvents look T) : p ∈ T.preorder ∧ r = recordOf look p := by
  induction T with
  | node q cs ih =>
    rw [treeEvents_node, List.mem_cons, List.mem_flatMap] at h
    rw [Rose.preorder_node, List.mem_cons, List.mem_flatMap]
    rcases h with h | ⟨c, hc, h⟩
    · cases h
      exact ⟨.inl rfl, rfl⟩
    · rcases List.mem_append.1 h with h | h
      · exact ⟨.inr ⟨c, hc, (ih c hc h).1⟩, (ih c hc h).2⟩
      · cases List.mem_singleton.1 h

theorem written_threadEvents {s : CoreProfiler} {now : Clock} {sp : Spine Ptr}
    (h : .written p r ∈ threadEvents s now sp) : p ∈ sp.preorder ∧ r = recordOf (closed s now) p := by
  obtain ⟨T, hT, h⟩ := List.mem_flatMap.1 h
  rcases List.mem_append.1 h with h | h
  · rw [← Spine.preorder_trees]
    exact ⟨List.mem_flatMap.2 ⟨T, hT, (written_treeEvents h).1⟩, (written_treeEvents h).2⟩
  · cases List.mem_singleton.1 h

end written

/-- Every record is written with the times of its last closing, those that were never closed with the
times of the shutdown. -/
def KeepsClosings (closings : List (Ptr × Clock)) (now : Clock) (events : List FunctionEvent) : Prop :=
  ∀ p r, .written p r ∈ events → r.left = (lastAt closings p).getD now

section
variable {L : List (Ptr × Clock)} {s : CoreProfiler} {sp : Spine Ptr} {p : Ptr} {f : FunctionClass}

/-- The times that are written, for one record. -/
theorem Closed.left_iff (h : Closed L s) (hr : ThreadRep s f.TID sp) (hp : s.functions.get? p = some f)
    (now : Clock) :
    (recordOf (Perun.closed s now) p).left = (lastAt L p).getD now ↔
      (f.prevFunction = none → ∀ c, lastAt L p = some c → (c.wall ≠ 0 ∧ c.cpu ≠ 0) ∨ c = now) := by
  have hmem : p ∈ sp.preorder := hr.mem_preorder.2 ⟨f, hp, rfl⟩
  have hpath := h.path p f hp
  have hleft : (recordOf s.functions.get? p).left = (lastAt L p).getD ⟨0, 0⟩ := by
    rw [recordOf_get hp]
    exact h.times p f hp
  rw [hr.chain] at hpath
  rw [hr.recordOf_closed now hmem]
  cases hlast : lastAt L p with
  | none =>
    rw [hlast, Option.getD_none] at hleft
    rw [if_pos (hpath.2 (.inl hlast)), FunctionRecord.left_repair, hleft, if_pos (.inl rfl)]
    simp
  | some c =>
    rw [hlast, Option.getD_some] at hleft
    rw [hlast, or_iff_right (Option.some_ne_none c)] at hpath
    rw [Option.getD_some]
    by_cases hprev : f.prevFunction = none
    · rw [if_pos (hpath.2 hprev), FunctionRecord.left_repair, hleft]
      by_cases hzero : c.cpu = 0 ∨ c.wall = 0
      · rw [if_pos hzero]
        constructor
        · rintro rfl _ c' hc'
          exact .inr (Option.some.inj hc').symm
        · intro hcond
          refine ((hcond hprev c rfl).resolve_left fun hne => ?_).symm
          exact hzero.elim hne.2 hne.1
      · rw [if_neg hzero]
        rw [not_or] at hzero
        refine iff_of_true rfl fun _ c' hc' => .inl ?_
        rw [← Option.some.inj hc']
        exact hzero.symm
    · rw [if_neg fun hpm => hprev (hpath.1 hpm)]
      exact iff_of_true hleft fun hno => absurd hno hprev

end

/-- After every run, the records of the calls keep the times of their last closings exactly when no
outermost call was closed last at a time with a 0 in it, unless that is the time of the shutdown. -/
theorem keepsClosings_iff {c : Config} {es : List Callback} {s : CoreProfiler} (h : run step c.start es = .ok s)
    (now : Clock) :
    ∃ events h', functionsSection s.functions.size now s = .ok (events, h') ∧
      (writtenPtrs events).Perm (s.functions.addrs fun _ => true) ∧
      (∀ p t, lastAt (closings c.start es) p = some t → p ∈ writtenPtrs events) ∧
      (KeepsClosings (closings c.start es) now events ↔ ∀ p f t, s.functions.get? p = some f →
        f.prevFunction = none → lastAt (closings c.start es) p = some t → (t.wall ≠ 0 ∧ t.cpu ≠ 0) ∨ t = now) := by
  have hclosed := run_closed h
  obtain ⟨σ, hσ⟩ := Reachable.spines ⟨c, es, h⟩
  obtain ⟨h', hok⟩ := functionsSection_ok now hσ (Nat.le_refl _)
  have hwritten := hσ.written_perm now
  have hevents : ∀ p r, .written p r ∈ s.threads.flatMap (fun tid => threadEvents s now (σ tid)) →
      ∃ f, s.functions.get? p = some f ∧ r = recordOf (Perun.closed s now) p := by
    intro p r hm
    obtain ⟨tid, -, hm⟩ := List.mem_flatMap.1 hm
    obtain ⟨hp, hr⟩ := written_threadEvents hm
    obtain ⟨f, hf, -⟩ := (hσ tid).mem_preorder.1 hp
    exact ⟨f, hf, hr⟩
  have hlive : ∀ p f, s.functions.get? p = some f →
      p ∈ writtenPtrs (s.threads.flatMap fun tid => threadEvents s now (σ tid)) :=
    fun p f hf => hwritten.mem_iff.2 (Heap.mem_addrs.2 ⟨f, hf, rfl⟩)
  refine ⟨_, h', hok, hwritten, fun p t ht => ?_, ?_⟩
  · obtain ⟨f, hf⟩ := hclosed.live p t ht
    exact hlive p f hf
  constructor
  · intro hkeeps p f t hf hprev ht
    obtain ⟨r, hr⟩ := mem_writtenPtrs.1 (hlive p f hf)
    obtain ⟨-, -, rfl⟩ := hevents p r hr
    exact (hclosed.left_iff (hσ f.TID) hf now).1 (hkeeps p _ hr) hprev t ht
  · intro hcond p r hr
    obtain ⟨f, hf, rfl⟩ := hevents p r hr
    exact (hclosed.left_iff (hσ f.TID) hf now).2 fun hprev t ht => hcond p f t hf hprev ht

/-- A call that is over before the CPU clock has made its first tick. -/
def closedEarly : List Callback := [.trace 7, .enterStub 7 1 ⟨1, 0⟩, .leaveStub 7 1 ⟨2, 0⟩]

theorem keepsClosings_iff_early :
    ∃ s, run step Config.plain.start closedEarly = .ok s ∧
      ∃ events h', functionsSection s.functions.size ⟨9, 3⟩ s = .ok (events, h') ∧
        (writtenPtrs events).Perm (s.functions.addrs fun _ => true) ∧
        (∀ p t, lastAt (closings Config.plain.start closedEarly) p = some t → p ∈ writtenPtrs events) ∧
        (KeepsClosings (closings Config.plain.start closedEarly) ⟨9, 3⟩ events ↔
          ∀ p f t, s.functions.get? p = some f → f.prevFunction = none →
            lastAt (closings Config.plain.start closedEarly) p = some t →
              (t.wall ≠ 0 ∧ t.cpu ≠ 0) ∨ t = (⟨9, 3⟩ : Clock)) :=
  ⟨_, rfl, keepsClosings_iff (show run step Config.plain.start closedEarly = .ok _ from rfl) ⟨9, 3⟩⟩

/-- It is written with the times of the shutdown. -/
theorem early_overwritten :
    ∃ s r h', run step Config.plain.start closedEarly = .ok s ∧
      closings Config.plain.start closedEarly = [(0, ⟨2, 0⟩)] ∧
      functionsSection s.functions.size ⟨9, 3⟩ s = .ok ([.written 0 r, .deleted 0], h') ∧ r.left = ⟨9, 3⟩ ∧
      ¬ KeepsClosings (closings Config.plain.start closedEarly) ⟨9, 3⟩ [.written 0 r, .deleted 0] := by
  refine ⟨_, _, _, rfl, rfl, rfl, rfl, fun hkeeps => ?_⟩
  have hleft := hkeeps 0 _ (List.mem_cons_self ..)
  exact absurd hleft (by decide)

end Perun
