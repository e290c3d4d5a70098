import PerunProfiler.Document

/-!
# After `Shutdown`

`Shutdown` releases `_info`, resets `g_CoreProfiler` and empties the maps. Five callbacks still ask
`_info`; the others find nothing to do.
-/

namespace Perun
open Lib

/-- What the callbacks see of the state `Shutdown` leaves. -/
structure Released (s : CoreProfiler) : Prop where
  info : s.info = false
  gCoreProfiler : s.gCoreProfiler = false
  objectsAlloc : s.objectsAlloc = ∅

/-- The callback asks `_info` without a look at `g_CoreProfiler`. -/
def Callback.asksInfo : Callback → Bool
  | .classLoadFinished .. | .exceptionUnwindFunctionLeave .. | .objectAllocated .. => true
  | .garbageCollectionStarted .. | .garbageCollectionFinished .. => true
  | _ => false

section released
variable {s : CoreProfiler} (h : Released s)
include h

theorem Released.movedReferences (ranges : List MovedRange) : movedReferences ranges s = .ok s := by
  have hmark : markMoved s.gcNumber s.objectsAlloc ranges s.objects = .ok (∅, s.objects) := by
    rw [markMoved, h.objectsAlloc, Map.toList_empty]
    exact run_ok ranges
  have hrekey : rekey ∅ s.objectsAlloc = .ok s.objectsAlloc := by
    rw [rekey, Map.toList_empty, run_nil]
  simp only [Perun.movedReferences, hmark, hrekey]
  split <;> rfl

theorem Released.survivingReferences (ranges : List SurvivingRange) : survivingReferences ranges s = .ok s := by
  have hmark : markSurviving s.gcNumber s.objectsAlloc ranges s.objects = .ok s.objects := by
    rw [markSurviving, h.objectsAlloc, Map.toList_empty]
    exact run_ok ranges
  simp only [Perun.survivingReferences, hmark]
  split <;> rfl

theorem Released.step (e : Callback) :
    step s e = if e.asksInfo then .error .releasedInfo else .ok s := by
  cases e with
  | mapper2 f m => simp [Perun.step, mapper2, h.gCoreProfiler, Callback.asksInfo]
  | enterStub f t now => simp [Perun.step, enterStub, h.gCoreProfiler, Callback.asksInfo]
  | leaveStub f t now => simp [Perun.step, leaveStub, h.gCoreProfiler, Callback.asksInfo]
  | tailcallStub f t now => simp [Perun.step, tailcallStub, h.gCoreProfiler, Callback.asksInfo]
  | exceptionUnwindFunctionEnter f t now =>
    simp [Perun.step, exceptionUnwindFunctionEnter, h.gCoreProfiler, Callback.asksInfo]
  | movedReferences ranges => exact h.movedReferences ranges
  | survivingReferences ranges => exact h.survivingReferences ranges
  | classLoadFinished c i p => simp [Perun.step, classLoadFinished, h.info, Callback.asksInfo]
  | exceptionUnwindFunctionLeave t now =>
    simp [Perun.step, exceptionUnwindFunctionLeave, leaveActive, h.info, Callback.asksInfo]
  | objectAllocated o c z t now => simp [Perun.step, objectAllocated, h.info, Callback.asksInfo]
  | garbageCollectionStarted g t now =>
    simp [Perun.step, garbageCollectionStarted, h.info, Callback.asksInfo]
  | garbageCollectionFinished t now =>
    simp [Perun.step, garbageCollectionFinished, h.info, Callback.asksInfo]

/-- Nothing happens until a callback asks `_info`. -/
theorem Released.run (es : List Callback) :
    run Perun.step s es = if es.any Callback.asksInfo then .error .releasedInfo else .ok s := by
  induction es with
  | nil => rfl
  | cons e es ih =>
    rw [Lib.run, h.step e, List.any_cons]
    cases e.asksInfo
    · exact ih
    · rfl

end released

theorem shutdown_released {os : Process} {now : Clock} {s s' : CoreProfiler} (h : shutdown os now s = .ok s') :
    Released s' := by
  unfold shutdown at h
  split at h
  · cases h
  · split at h
    · cases h
    · cases h
      exact ⟨rfl, rfl, rfl⟩

theorem Reachable.shutdown {s : CoreProfiler} (h : Reachable s) (os : Process) (now : Clock) :
    ∃ s', Perun.shutdown os now s = .ok s' := by
  obtain ⟨⟨events, functions, hf⟩, records, objects, ho⟩ := h.sections now
  obtain ⟨s', hs, -⟩ := shutdown_log os hf ho
  exact ⟨s', hs⟩

/-- No callback of `es` dereferences the released `_info` or touches a deleted record. -/
structure UsesNothing (s : CoreProfiler) (es : List Callback) : Prop where
  info : run step s es ≠ .error .releasedInfo
  records : run step s es ≠ .error .danglingPointer

/-- `Shutdown` returns, and the callbacks after it use nothing that it released exactly when none of
them asks `_info`. -/
theorem shutdown_usesNothing_iff {s : CoreProfiler} (h : Reachable s) (os : Process) (now : Clock) :
    ∃ s', shutdown os now s = .ok s' ∧
      ∀ es, UsesNothing s' es ↔ ∀ e ∈ es, e.asksInfo = false := by
  obtain ⟨s', hs⟩ := h.shutdown os now
  refine ⟨s', hs, fun es => ?_⟩
  have hrun := (shutdown_released hs).run es
  have hany : es.any Callback.asksInfo = false ↔ ∀ e ∈ es, e.asksInfo = false := by simp
  rw [← hany]
  constructor
  · intro hno
    by_contra hask
    exact hno.info (by rw [hrun, if_pos (by simpa using hask)])
  · intro hask
    rw [hask] at hrun
    exact ⟨by rw [hrun]; exact nofun, by rw [hrun]; exact nofun⟩

/-- `Shutdown` deletes the records of a call and of an object. -/
theorem shutdown_usesNothing_iff_inCall :
    ∃ s, run step Config.plain.start [.trace 7, .enterStub 7 1 ⟨1, 1⟩, .objectAllocated 100 5 (some 24) 1 ⟨2, 2⟩] = .ok s ∧
      ∃ s', shutdown ⟨1, 1⟩ ⟨9, 9⟩ s = .ok s' ∧ ∀ es, UsesNothing s' es ↔ ∀ e ∈ es, e.asksInfo = false :=
  ⟨_, rfl, shutdown_usesNothing_iff
    ⟨.plain, [.trace 7, .enterStub 7 1 ⟨1, 1⟩, .objectAllocated 100 5 (some 24) 1 ⟨2, 2⟩], rfl⟩ ⟨1, 1⟩ ⟨9, 9⟩⟩

/-- A collection starts after `Shutdown`. -/
theorem collection_uses_info :
    ∃ s', shutdown ⟨1, 1⟩ ⟨9, 9⟩ Config.plain.start = .ok s' ∧
      ¬ UsesNothing s' [.garbageCollectionStarted ⟨true, false, false⟩ 1 ⟨10, 10⟩] := by
  obtain ⟨s', hs⟩ := (Reachable.start .plain).shutdown ⟨1, 1⟩ ⟨9, 9⟩
  refine ⟨s', hs, fun h => h.info ?_⟩
  rw [(shutdown_released hs).run]
  rfl

end Perun
