import PerunProfiler.History

/-!
# Threads with an entry and no active function

`Leave`, `TailCall` and `ExceptionUnwindFunctionLeave` take an entry in `m_activeFunctionInThread` as
a sign that a function is active. `ObjectAllocated` leaves the entry `(0, null)` behind by its lookup,
so the end of an unwind pair on a thread that has allocated and entered nothing dereferences null.
-/

namespace Perun
open Lib

/-- What has come to the threads. -/
structure Visited where
  /-- the traced functions that were entered, each after its thread -/
  entered : List (ThreadID × FunctionID)
  /-- the threads of the allocations -/
  allocated : List ThreadID
deriving DecidableEq, Repr

def Visited.start : Visited := ⟨[], []⟩

def visit (s : CoreProfiler) (g : Visited) : Callback → Visited
  | .enterStub f t _ | .exceptionUnwindFunctionEnter f t _ =>
    if s.hooked f then { g with entered := (t, f) :: g.entered } else g
  | .objectAllocated _ _ (some _) t _ => { g with allocated := t :: g.allocated }
  | _ => g

/-- `Leave` and `TailCall` come for a traced function that was entered on the thread. -/
def attends (_s : CoreProfiler) (g : Visited) : Callback → Bool
  | .leaveStub f t _ | .tailcallStub f t _ => (t, f) ∈ g.entered
  | _ => true

/-- An unwind pair ends on a thread that has entered a traced function or has allocated nothing. -/
def unwindsEntered (_s : CoreProfiler) (g : Visited) : Callback → Bool
  | .exceptionUnwindFunctionLeave t _ => g.entered.any (·.1 = t) || t ∉ g.allocated
  | _ => true

/-! ### The entry of a thread -/

/-- Whether the thread has an entry, and whether its active function is there. -/
def CoreProfiler.entryState (s : CoreProfiler) (t : ThreadID) : Option Bool :=
  s.activeFunctionInThread[t]?.map fun entry => entry.2.isSome

def Visited.entryState (g : Visited) (t : ThreadID) : Option Bool :=
  if g.entered.any (·.1 = t) then some true else if t ∈ g.allocated then some false else none

section entryState
variable {s s' : CoreProfiler} {g : Visited} {e : Callback} {f : FunctionID} {t u : ThreadID} {now : Clock}

theorem Visited.entryState_entered :
    Visited.entryState { g with entered := (t, f) :: g.entered } u = if t = u then some true else g.entryState u := by
  show (if (decide (t = u) || g.entered.any (·.1 = u)) = true then some true
    else if u ∈ g.allocated then some false else none) = _
  by_cases ht : t = u
  · rw [if_pos (by simp [ht]), if_pos ht]
  · rw [decide_eq_false ht, Bool.false_or, if_neg ht]
    rfl

theorem Visited.entryState_allocated : Visited.entryState { g with allocated := t :: g.allocated } u =
    if t = u ∧ g.entryState u = none then some false else g.entryState u := by
  by_cases hentered : g.entered.any (·.1 = u) = true
  · simp only [Visited.entryState, hentered, if_true, reduceCtorEq, and_false, if_false]
  · by_cases ht : t = u
    · subst ht
      by_cases hallocated : t ∈ g.allocated <;> simp [Visited.entryState, hentered, hallocated]
    · have hut : ¬ u = t := fun h => ht h.symm
      simp [Visited.entryState, hentered, ht, hut]

theorem enter_entryState (h : enter f t now s = .ok s') (u : ThreadID) :
    s'.entryState u = if t = u ∧ s.traced f = true then some true else s.entryState u := by
  rcases enter_cases h with ⟨hf, rfl⟩ | ⟨hf, info, -, ⟨-, rfl⟩ | ⟨prev, prevFunction, -, -, rfl⟩⟩
  · simp [hf, CoreProfiler.entryState]
  · by_cases ht : t = u <;>
      simp [hf, ht, CoreProfiler.entryState, enterTop, Std.ExtTreeMap.getElem?_insert]
  · by_cases ht : t = u <;>
      simp [hf, ht, CoreProfiler.entryState, enterBelow, Std.ExtTreeMap.getElem?_insert]

theorem leaveActive_entryState (h : leaveActive t now s = .ok s') (u : ThreadID) :
    s'.entryState u = s.entryState u := by
  rcases leaveActive_cases h with ⟨-, rfl⟩ | ⟨first, active, function, he, -, rfl⟩
  · rfl
  · cases function.prevFunction with
    | none => rfl
    | some prev =>
      by_cases ht : t = u
      · subst ht
        simp [CoreProfiler.entryState, he]
      · simp [CoreProfiler.entryState, Std.ExtTreeMap.getElem?_insert, ht]

/-- The events tell the entry of every thread. -/
theorem visit_entryState (ha : s.Alive) (hg : ∀ u, s.entryState u = g.entryState u) (h : step s e = .ok s')
    (u : ThreadID) : s'.entryState u = (visit s g e).entryState u := by
  cases e with
  | enterStub f t now | exceptionUnwindFunctionEnter f t now =>
    simp only [step, enterStub, exceptionUnwindFunctionEnter, ha.gCoreProfiler, if_true] at h
    by_cases hf : f = 0
    · rw [if_pos hf, Except.ok.injEq] at h
      simp [visit, CoreProfiler.hooked, hf, ← h, hg]
    · rw [if_neg hf] at h
      rw [enter_entryState h, hg, visit]
      by_cases htraced : s.traced f = true
      · rw [if_pos (CoreProfiler.hooked_iff.2 ⟨hf, htraced⟩), Visited.entryState_entered]
        simp [htraced]
      · simp [htraced, CoreProfiler.hooked]
  | leaveStub f t now | tailcallStub f t now =>
    simp only [step, leaveStub, leave, tailcallStub, tailCall, ha.gCoreProfiler, if_true] at h
    split at h
    · rw [← Except.ok.inj h]
      exact hg u
    · rw [leaveActive_entryState h]
      exact hg u
  | exceptionUnwindFunctionLeave t now => rw [leaveActive_entryState h]; exact hg u
  | objectAllocated o c z t now =>
    rcases objectAllocated_cases h with ⟨rfl, rfl⟩ | ⟨z, rfl, rfl⟩
    · exact hg u
    · rw [visit, Visited.entryState_allocated, ← hg]
      simp only [CoreProfiler.entryState, Std.ExtTreeMap.getElem?_insertIfNew]
      by_cases ht : t = u
      · subst ht
        by_cases hm : t ∈ s.activeFunctionInThread <;> simp [hm]
      · simp [ht]
  | mapper2 f m => rcases mapper2_cases h with rfl | rfl <;> exact hg u
  | classLoadFinished c i p => rcases classLoadFinished_cases h with rfl | rfl <;> exact hg u
  | movedReferences | survivingReferences | garbageCollectionStarted | garbageCollectionFinished =>
    exact (congrArg (·.entryState u) (step_besidesObjects rfl h) :).trans (hg u)

theorem leaveActive_null_iff (ha : s.Alive) {σ : ThreadID → Spine Ptr} (hσ : Spines s σ) :
    leaveActive t now s = .error .nullActiveFunction ↔ s.entryState t = some false := by
  constructor
  · intro h
    obtain ⟨-, first, he⟩ := leaveActive_fault ha hσ h
    simp [CoreProfiler.entryState, he]
  · intro h
    obtain ⟨⟨first, active⟩, he, hnone⟩ := Option.map_eq_some_iff.1 h
    obtain rfl : active = none := by simpa using hnone
    simp [leaveActive, ha.info, he]

end entryState

/-! ### When null is dereferenced -/

structure VisitedInv (s : CoreProfiler) (g : Visited) : Prop where
  reachable : Reachable s
  entries : ∀ t, s.entryState t = g.entryState t

theorem VisitedInv.start (c : Config) : VisitedInv c.start Visited.start := ⟨.start c, fun _ => rfl⟩

namespace VisitedInv
variable {s s' : CoreProfiler} {g : Visited} {e : Callback}

theorem step (hi : VisitedInv s g) (h : Perun.step s e = .ok s') : VisitedInv s' (visit s g e) :=
  ⟨hi.reachable.step h, visit_entryState hi.reachable.alive hi.entries h⟩

theorem null_iff (hi : VisitedInv s g) {t : ThreadID} {now : Clock} (hm : e.move = some (.leave t now)) :
    Perun.step s e = .error .nullActiveFunction ↔ g.entered.any (·.1 = t) = false ∧ t ∈ g.allocated := by
  obtain ⟨σ, hσ⟩ := hi.reachable.spines
  rw [step_leave hi.reachable.alive.gCoreProfiler hm, leaveActive_null_iff hi.reachable.alive hσ, hi.entries,
    Visited.entryState]
  cases g.entered.any (·.1 = t) <;> simp

theorem ne_null (hi : VisitedInv s g) (hleave : ∀ t now, e.move ≠ some (.leave t now)) :
    Perun.step s e ≠ .error .nullActiveFunction := by
  obtain ⟨s', hok⟩ := hi.reachable.step_ok hleave
  rw [hok]
  exact nofun

theorem ne_null_entered {f : FunctionID} {t : ThreadID} {now : Clock} (hi : VisitedInv s g)
    (he : e = .leaveStub f t now ∨ e = .tailcallStub f t now) (hp : (t, f) ∈ g.entered) :
    Perun.step s e ≠ .error .nullActiveFunction := by
  intro hnull
  by_cases hf : f = 0
  · subst hf
    rcases he with rfl | rfl <;> cases hnull
  · have hno := ((hi.null_iff (leave_move hf he)).1 hnull).1
    have hentered : g.entered.any (·.1 = t) = true := List.any_eq_true.2 ⟨(t, f), hp, by simp⟩
    rw [hentered] at hno
    cases hno

/-- A callback that is attended to dereferences null only at the end of an unwind pair. -/
theorem attended (hi : VisitedInv s g) (hp : attends s g e = true) :
    Perun.step s e ≠ .error .nullActiveFunction ↔ unwindsEntered s g e = true := by
  cases e with
  | exceptionUnwindFunctionLeave t now =>
    rw [Ne, hi.null_iff rfl, unwindsEntered]
    cases g.entered.any (·.1 = t) <;> simp
  | leaveStub f t now => exact iff_of_true (hi.ne_null_entered (.inl rfl) (by simpa [attends] using hp)) rfl
  | tailcallStub f t now => exact iff_of_true (hi.ne_null_entered (.inr rfl) (by simpa [attends] using hp)) rfl
  | enterStub f t now | exceptionUnwindFunctionEnter f t now =>
    refine iff_of_true (hi.ne_null fun t' now' hm => ?_) rfl
    simp only [Callback.move] at hm
    split at hm <;> cases hm
  | _ => exact iff_of_true (hi.ne_null fun _ _ hm => by cases hm) rfl

end VisitedInv

/-- A run in which `Leave` and `TailCall` are attended to dereferences no null active function exactly
when every unwind pair ends on a thread that has entered a traced function or has allocated
nothing. -/
theorem run_nullActive_iff (c : Config) {es : List Callback}
    (h : Along step visit attends c.start Visited.start es) :
    run step c.start es ≠ .error .nullActiveFunction ↔
      Along step visit unwindsEntered c.start Visited.start es :=
  run_ne_error_iff_along (VisitedInv.start c) (fun _ _ _ _ hi hs => hi.step hs)
    (fun _ _ _ hi hp => hi.attended hp) h

/-- A thread that has entered a function allocates; a function that is not traced is unwound on it. -/
def enteredUnwind : List Callback :=
  [.trace 7, .enterStub 7 1 ⟨1, 1⟩, .objectAllocated 100 5 (some 24) 1 ⟨2, 2⟩,
    .exceptionUnwindFunctionEnter 9 1 ⟨3, 3⟩, .exceptionUnwindFunctionLeave 1 ⟨4, 4⟩]

theorem run_nullActive_iff_entered :
    run step Config.plain.start enteredUnwind ≠ .error .nullActiveFunction ↔
      Along step visit unwindsEntered Config.plain.start Visited.start enteredUnwind :=
  run_nullActive_iff .plain (by decide)

/-- The thread has allocated and entered nothing when function 9, which is not traced, is unwound. -/
theorem allocated_unwind_null :
    ∃ es, Along step visit attends Config.plain.start Visited.start es ∧
      run step Config.plain.start es = .error .nullActiveFunction :=
  ⟨[.objectAllocated 100 5 (some 24) 1 ⟨1, 1⟩, .exceptionUnwindFunctionEnter 9 1 ⟨2, 2⟩,
    .exceptionUnwindFunctionLeave 1 ⟨3, 3⟩], by decide, by decide⟩

end Perun
