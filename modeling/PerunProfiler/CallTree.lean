import PerunProfiler.CallSpine
import PerunProfiler.Tracking

/-!
# The call tree of a thread

A spine is a tree whose last path ends in the active function; its preorder is the order in which
the records were made, so the call order numbers count it off.
-/

namespace Perun
open Lib

/-! ### Which callbacks fault -/

section fault
variable {s s' : CoreProfiler} {σ : ThreadID → Spine Ptr} {e : Callback} {f : FunctionID} {t : ThreadID}
  {now : Clock} {x : Fault}

theorem Spines.live {p : Ptr} (hσ : Spines s σ) (ha : s.activeFunction t = some p) :
    ∃ function, s.functions.get? p = some function := by
  obtain ⟨cs, rest, hsp⟩ := (hσ t).cons_of_active ha
  have hrep := (hσ t).rep
  rw [hsp] at hrep
  obtain ⟨function, hp, -⟩ := hrep.get
  exact ⟨function, hp⟩

theorem enter_ok (f : FunctionID) (t : ThreadID) (now : Clock) (ha : s.Alive) (hσ : Spines s σ) :
    ∃ s', enter f t now s = .ok s' := by
  unfold enter
  cases s.functionMap.getD f none with
  | none => exact ⟨_, rfl⟩
  | some info =>
    simp only [ha.info, if_true]
    obtain ⟨⟨first, active⟩, he⟩ : ∃ y, s.threadEntry t = y := ⟨_, rfl⟩
    cases active with
    | none => simp only [he]; exact ⟨_, rfl⟩
    | some p =>
      obtain ⟨function, hp⟩ := hσ.live (t := t) (p := p) (by simp only [CoreProfiler.activeFunction, he])
      simp only [he, deref_ok.2 hp]
      exact ⟨_, rfl⟩

/-- Leaving fails when the thread has an entry without an active function, and only then. -/
theorem leaveActive_fault (ha : s.Alive) (hσ : Spines s σ) (h : leaveActive t now s = .error x) :
    x = .nullActiveFunction ∧ ∃ first, s.activeFunctionInThread[t]? = some (first, none) := by
  unfold leaveActive at h
  rw [if_pos ha.info] at h
  cases he : s.activeFunctionInThread[t]? with
  | none => simp [he] at h
  | some entry =>
    obtain ⟨first, _ | p⟩ := entry
    · exact ⟨by simpa [he] using h.symm, first, rfl⟩
    · obtain ⟨function, hp⟩ := hσ.live (CoreProfiler.activeFunction_eq he)
      simp only [he, deref_ok.2 hp] at h
      cases hprev : function.prevFunction <;> simp [hprev] at h

/-- A callback that leaves no function does not fail. -/
theorem Reachable.step_ok (h : Reachable s) (hleave : ∀ t now, e.move ≠ some (.leave t now)) :
    ∃ s', Perun.step s e = .ok s' := by
  have ha := h.alive
  cases hm : e.move with
  | some m =>
    cases m with
    | enter f t now =>
      obtain ⟨σ, hσ⟩ := h.spines
      rw [step_enter ha.gCoreProfiler hm]
      exact enter_ok f t now ha hσ
    | leave t now => exact absurd hm (hleave t now)
  | none =>
    have htr := h.tracked
    cases e with
    | mapper2 f m => simp [Perun.step, mapper2, ha.gCoreProfiler, ha.info]
    | classLoadFinished c i p =>
      simp only [Perun.step, classLoadFinished, ha.info, if_true]
      split <;> exact ⟨_, rfl⟩
    | enterStub f t now | leaveStub f t now | tailcallStub f t now | exceptionUnwindFunctionEnter f t now =>
      obtain rfl : f = 0 := by simpa [Callback.move] using hm
      exact ⟨s, rfl⟩
    | exceptionUnwindFunctionLeave t now => simp [Callback.move] at hm
    | objectAllocated o c z t now =>
      simp only [Perun.step, objectAllocated, ha.info, if_true]
      cases z <;> exact ⟨_, rfl⟩
    | movedReferences r =>
      obtain ⟨s', hok, -⟩ := htr.movedReferences r
      exact ⟨s', hok⟩
    | survivingReferences r =>
      obtain ⟨s', hok, -⟩ := htr.survivingReferences r
      exact ⟨s', hok⟩
    | garbageCollectionStarted g t now => simp [Perun.step, garbageCollectionStarted, ha.info]
    | garbageCollectionFinished t now =>
      obtain ⟨s', hok, -⟩ := htr.garbageCollectionFinished t now ha.info
      exact ⟨s', hok⟩

/-- The one way for a callback to fail is a thread that leaves a function and has no active one. -/
theorem Reachable.fault (h : Reachable s) (hs : Perun.step s e = .error x) : x = .nullActiveFunction := by
  by_cases hleave : ∃ t now, e.move = some (.leave t now)
  · obtain ⟨t, now, hm⟩ := hleave
    obtain ⟨σ, hσ⟩ := h.spines
    rw [step_leave h.alive.gCoreProfiler hm] at hs
    exact (leaveActive_fault h.alive hσ hs).1
  · obtain ⟨s', hok⟩ := h.step_ok fun t now hm => hleave ⟨t, now, hm⟩
    cases hs.symm.trans hok

theorem run_fault {c : Config} {es : List Callback} (h : run step c.start es = .error x) :
    x = .nullActiveFunction := by
  obtain ⟨es₁, e, es₂, s₁, -, h₁, he⟩ := run_error h
  exact Reachable.fault ⟨c, es₁, h₁⟩ he

/-- A run without `Leave`, `TailCall` and `ExceptionUnwindFunctionLeave` does not fail. -/
theorem run_ok_of_no_leave (c : Config) {es : List Callback}
    (hleave : ∀ e ∈ es, ∀ t now, e.move ≠ some (.leave t now)) : ∃ s, run step c.start es = .ok s := by
  cases h : run step c.start es with
  | ok s => exact ⟨s, rfl⟩
  | error x =>
    obtain ⟨es₁, e, es₂, s₁, rfl, h₁, he⟩ := run_error h
    obtain ⟨s', hok⟩ := Reachable.step_ok ⟨c, es₁, h₁⟩ (hleave e (by simp))
    cases he.symm.trans hok

end fault

/-! ### How many records a run makes -/

def creates (tid : ThreadID) (s : CoreProfiler) (e : Callback) : Bool :=
  match e.move with
  | some (.enter f t _) => t = tid && s.traced f
  | _ => false

/-- The number of records a run makes on a thread. -/
def created (tid : ThreadID) : CoreProfiler → List Callback → Nat
  | _, [] => 0
  | s, e :: es =>
    (if creates tid s e then 1 else 0) +
      match step s e with
      | .ok s' => created tid s' es
      | .error _ => 0

section created
variable {s s' : CoreProfiler} {σ : ThreadID → Spine Ptr} {e : Callback} {es : List Callback} {tid : ThreadID}

theorem length_recordsOf_step (ha : s.Alive) (hσ : Spines s σ) (h : step s e = .ok s') :
    (s'.recordsOf tid).length = (s.recordsOf tid).length + if creates tid s e then 1 else 0 := by
  rw [← (hσ tid).pre, ← (hσ.step ha h tid).pre]
  unfold spineStep creates
  cases e.move with
  | none => simp
  | some m =>
    cases m with
    | enter f t now => by_cases hf : t = tid ∧ s.traced f <;> simp [hf]
    | leave t now => by_cases ht : t = tid <;> simp [ht, Spine.preorder_pop]

theorem length_recordsOf_run (tid : ThreadID) (ha : s.Alive) (hσ : Spines s σ) (h : run step s es = .ok s') :
    (s'.recordsOf tid).length = (s.recordsOf tid).length + created tid s es := by
  induction es generalizing s σ with
  | nil => cases h; rfl
  | cons e es ih =>
    obtain ⟨s₁, h₁, h⟩ := run_cons.1 h
    rw [ih (ha.step h₁) (hσ.step ha h₁) h, length_recordsOf_step ha hσ h₁, created, h₁]
    exact Nat.add_assoc _ _ _

end created

/-! ### The tree -/

theorem TreeRep.depths {h : Heap FunctionClass} {prev : Option Ptr} {d : Nat} {t : Rose Ptr}
    (hr : TreeRep h prev d t) : ∀ x ∈ t.depths d, (h.get? x.1).map (·.depth) = some x.2 := by
  induction hr with
  | @node prev d p cs hp _ ih =>
    intro x hx
    rw [Rose.depths_node, List.mem_cons] at hx
    rcases hx with rfl | hx
    · have := congrArg (Option.map fun y => y.2.2) hp
      simpa [shape, Option.map_map, Function.comp_def] using this
    · obtain ⟨c, hc, hx⟩ := List.mem_flatMap.1 hx
      exact ih c hc x hx

theorem SpineRep.plug {h : Heap FunctionClass} {t : Rose Ptr} {sp : Spine Ptr}
    (hr : SpineRep h (some t.root) sp) (ht : TreeRep h (Spine.path sp).head? sp.length t) :
    TreeRep h none 0 (Spine.plug t sp) := by
  induction sp generalizing t with
  | nil => exact ht
  | cons x sp ih =>
    obtain ⟨p, cs⟩ := x
    obtain ⟨hp, hcs, hsp⟩ := hr
    refine ih hsp (.node (by simpa using hp) fun c hc => ?_)
    rcases List.mem_append.1 hc with hc | hc
    · exact hcs c hc
    · rw [List.mem_singleton.1 hc]
      exact ht

theorem SpineRep.tree {h : Heap FunctionClass} {sp : Spine Ptr} {T : Rose Ptr} (hr : SpineRep h none sp)
    (hT : sp.trees = [T]) : TreeRep h none 0 T := by
  cases sp with
  | nil => cases hT
  | cons x sp =>
    obtain ⟨p, cs⟩ := x
    obtain rfl : Spine.plug (.node p cs) sp = T := by simpa [Spine.trees] using hT
    obtain ⟨hp, hcs, hsp⟩ := hr
    exact hsp.plug (.node (by simpa using hp) hcs)

/-- The `n` records of the thread are the tree `T`. -/
structure IsCallTree (s : CoreProfiler) (tid : ThreadID) (n : Nat) (T : Rose Ptr) : Prop where
  links : TreeRep s.functions none 0 T
  records : T.preorder = s.recordsOf tid
  depths : ∀ x ∈ T.depths 0, (s.functions.get? x.1).map (·.depth) = some x.2
  active : ∃ p ∈ T.lastPath, s.activeFunction tid = some p
  numbers : T.preorder.map (orderNumber s.functions) = List.range n
  counter : (s.threadEntry tid).1 + 1 = n

theorem ThreadRep.isCallTree {s : CoreProfiler} {tid : ThreadID} {sp : Spine Ptr} (hr : ThreadRep s tid sp)
    (hne : s.recordsOf tid ≠ []) : ∃ T, sp.trees = [T] ∧ IsCallTree s tid (s.recordsOf tid).length T := by
  cases sp with
  | nil => exact absurd hr.pre.symm hne
  | cons x rest =>
    obtain ⟨p, cs⟩ := x
    refine ⟨_, rfl, ?_⟩
    have hT : Spine.trees ((p, cs) :: rest) = [Spine.plug (.node p cs) rest] := rfl
    have hrec : (Spine.plug (.node p cs) rest).preorder = s.recordsOf tid := by
      rw [← hr.pre, ← Spine.preorder_trees, hT, List.flatMap_singleton]
    have hlinks := hr.rep.tree hT
    refine ⟨hlinks, hrec, hlinks.depths, ⟨p, Spine.path_subset_lastPath hT p (by simp [Spine.path]), ?_⟩, ?_,
      hr.count (by simp)⟩
    · rw [hr.active]; rfl
    · rw [hrec, hr.num]

/-- A run whose callbacks dereference no null active function makes one call tree of the records of
each thread. -/
theorem run_isCallTree {c : Config} {es : List Callback}
    (h : run step c.start es ≠ .error .nullActiveFunction) :
    ∃ s, run step c.start es = .ok s ∧ ∀ tid, s.recordsOf tid ≠ [] →
      ∃ T, IsCallTree s tid (created tid c.start es) T := by
  cases hr : run step c.start es with
  | error x => exact absurd (by rw [hr, run_fault hr]) h
  | ok s =>
    refine ⟨s, rfl, fun tid hne => ?_⟩
    obtain ⟨σ, hσ⟩ := Reachable.spines ⟨c, es, hr⟩
    obtain ⟨T, -, hT⟩ := (hσ tid).isCallTree hne
    have hlen := length_recordsOf_run tid (Reachable.start c).alive (Spines.start c) hr
    have hzero : c.start.recordsOf tid = [] := rfl
    rw [hzero, List.length_nil, Nat.zero_add] at hlen
    exact ⟨T, hlen ▸ hT⟩

theorem run_isCallTree_unbalanced :
    ∃ s, run step Config.plain.start [.trace 7, .enterStub 7 1 ⟨1, 1⟩, .leaveStub 7 1 ⟨2, 2⟩, .leaveStub 7 1 ⟨3, 3⟩,
        .exceptionUnwindFunctionEnter 7 1 ⟨4, 4⟩] = .ok s ∧
      ∀ tid, s.recordsOf tid ≠ [] → ∃ T, IsCallTree s tid (created tid Config.plain.start
        [.trace 7, .enterStub 7 1 ⟨1, 1⟩, .leaveStub 7 1 ⟨2, 2⟩, .leaveStub 7 1 ⟨3, 3⟩,
          .exceptionUnwindFunctionEnter 7 1 ⟨4, 4⟩]) T :=
  run_isCallTree (by decide)

end Perun
