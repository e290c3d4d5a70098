import PerunProfiler.CallTree

/-!
# Histories of one thread

`follow tid` watches the callbacks of a thread and keeps the traced calls that are open. It rejects
what does not fit a well-nested history: a call is opened by `Enter` and closed, innermost first, by
`Leave`, `TailCall` or an unwind pair for it; a function that is not traced shows up in unwind pairs
only. The callbacks of other threads and those that do not touch the calls are free.
-/

namespace Perun
open Lib

inductive Frame where
  /-- a traced call, with its record -/
  | call (functionId : FunctionID) (p : Ptr)
  /-- an unwind pair under way; whether it closes the traced call below it -/
  | unwind (closes : Bool)
deriving DecidableEq, Repr

def Frame.call? : Frame → Option (FunctionID × Ptr)
  | call f p => some (f, p)
  | unwind _ => none

structure History where
  /-- innermost first -/
  frames : List Frame
  /-- the records of the calls in the order of `Enter`, each with those open at that moment -/
  entered : List (Ptr × List Ptr)
deriving DecidableEq, Repr

namespace History

def start : History := ⟨[], []⟩

/-- The traced calls that are open, innermost first. -/
def calls (g : History) : List (FunctionID × Ptr) := g.frames.filterMap Frame.call?

def opened (g : History) : List Ptr := g.calls.map Prod.snd

def outside (g : History) : Bool := g.frames.all fun x => x.call?.isSome

theorem calls_of_call {g : History} {f : FunctionID} {p : Ptr} {rest : List Frame}
    (h : g.frames = .call f p :: rest) : g.calls = (f, p) :: calls { g with frames := rest } := by
  simp only [calls, h]
  rfl

theorem calls_of_unwind {g : History} {closes : Bool} {rest : List Frame}
    (h : g.frames = .unwind closes :: rest) : g.calls = calls { g with frames := rest } := by
  simp only [calls, h]
  rfl

end History

/-- A function the stubs act on: not 0, and in `m_functionMap` with an entry that is not null. -/
def CoreProfiler.hooked (s : CoreProfiler) (f : FunctionID) : Bool := f ≠ 0 && s.traced f

theorem CoreProfiler.hooked_iff {s : CoreProfiler} {f : FunctionID} :
    s.hooked f = true ↔ f ≠ 0 ∧ s.traced f = true := by
  simp [hooked]

def follow (tid : ThreadID) (s : CoreProfiler) (g : History) : Callback → Option History
  | .enterStub f t _ =>
    if t = tid then
      if s.hooked f then
        some ⟨.call f s.functions.size :: g.frames, g.entered ++ [(s.functions.size, g.opened)]⟩
      else none
    else some g
  | .leaveStub f t _ | .tailcallStub f t _ =>
    if t = tid then
      match g.frames with
      | .call f' _ :: rest => if f' = f then some { g with frames := rest } else none
      | _ => none
    else some g
  | .exceptionUnwindFunctionEnter f t _ =>
    if t = tid then
      if s.hooked f then
        match g.frames with
        | .call f' _ :: _ => if f' = f then some { g with frames := .unwind true :: g.frames } else none
        | _ => none
      else some { g with frames := .unwind false :: g.frames }
    else some g
  | .exceptionUnwindFunctionLeave t _ =>
    if t = tid then
      match g.frames with
      | .unwind true :: .call _ _ :: rest => some { g with frames := rest }
      | .unwind false :: rest => some { g with frames := rest }
      | _ => none
    else some g
  | _ => some g

/-! ### What one accepted callback does -/

section follow
variable {tid : ThreadID} {s s' : CoreProfiler} {σ : ThreadID → Spine Ptr} {g g' : History} {e : Callback}

/-- The callback concerns another thread or no calls at all. -/
def elsewhere (tid : ThreadID) (e : Callback) : Bool :=
  match e with
  | .enterStub _ t _ | .leaveStub _ t _ | .tailcallStub _ t _ | .exceptionUnwindFunctionEnter _ t _
  | .exceptionUnwindFunctionLeave t _ => t ≠ tid
  | _ => true

theorem follow_cases (h : follow tid s g e = some g') :
    (elsewhere tid e = true ∧ g' = g) ∨
    (∃ f now, e = .enterStub f tid now ∧ s.hooked f = true ∧
      g' = ⟨.call f s.functions.size :: g.frames, g.entered ++ [(s.functions.size, g.opened)]⟩) ∨
    (∃ f p rest now, (e = .leaveStub f tid now ∨ e = .tailcallStub f tid now) ∧ g.frames = .call f p :: rest ∧
      g' = { g with frames := rest }) ∨
    (∃ f p rest now, e = .exceptionUnwindFunctionEnter f tid now ∧ s.hooked f = true ∧
      g.frames = .call f p :: rest ∧ g' = { g with frames := .unwind true :: g.frames }) ∨
    (∃ f now, e = .exceptionUnwindFunctionEnter f tid now ∧ s.hooked f = false ∧
      g' = { g with frames := .unwind false :: g.frames }) ∨
    (∃ f p rest now, e = .exceptionUnwindFunctionLeave tid now ∧ g.frames = .unwind true :: .call f p :: rest ∧
      g' = { g with frames := rest }) ∨
    (∃ rest now, e = .exceptionUnwindFunctionLeave tid now ∧ g.frames = .unwind false :: rest ∧
      g' = { g with frames := rest }) := by
  cases e with
  | enterStub f t now =>
    by_cases ht : t = tid
    · subst ht
      simp only [follow, if_true] at h
      split at h
      · next hf => exact .inr (.inl ⟨f, now, rfl, hf, (Option.some.inj h).symm⟩)
      · cases h
    · simp only [follow, if_neg ht] at h
      exact .inl ⟨by simp [elsewhere, ht], (Option.some.inj h).symm⟩
  | leaveStub f t now | tailcallStub f t now =>
    by_cases ht : t = tid
    · subst ht
      simp only [follow, if_true] at h
      split at h
      · next hframes =>
        split at h
        · next hf =>
          subst hf
          exact .inr (.inr (.inl ⟨_, _, _, now, by simp, hframes, (Option.some.inj h).symm⟩))
        · cases h
      · cases h
    · simp only [follow, if_neg ht] at h
      exact .inl ⟨by simp [elsewhere, ht], (Option.some.inj h).symm⟩
  | exceptionUnwindFunctionEnter f t now =>
    by_cases ht : t = tid
    · subst ht
      simp only [follow, if_true] at h
      split at h
      · next hf =>
        split at h
        · next hframes =>
          split at h
          · next hff =>
            subst hff
            exact .inr (.inr (.inr (.inl ⟨_, _, _, now, rfl, hf, hframes, (Option.some.inj h).symm⟩)))
          · cases h
        · cases h
      · next hf =>
        exact .inr (.inr (.inr (.inr (.inl ⟨f, now, rfl, by simpa using hf, (Option.some.inj h).symm⟩))))
    · simp only [follow, if_neg ht] at h
      exact .inl ⟨by simp [elsewhere, ht], (Option.some.inj h).symm⟩
  | exceptionUnwindFunctionLeave t now =>
    by_cases ht : t = tid
    · subst ht
      simp only [follow, if_true] at h
      split at h
      · next hframes =>
        exact .inr (.inr (.inr (.inr (.inr (.inl ⟨_, _, _, now, rfl, hframes, (Option.some.inj h).symm⟩)))))
      · next hframes =>
        exact .inr (.inr (.inr (.inr (.inr (.inr ⟨_, now, rfl, hframes, (Option.some.inj h).symm⟩)))))
      · cases h
    · simp only [follow, if_neg ht] at h
      exact .inl ⟨by simp [elsewhere, ht], (Option.some.inj h).symm⟩
  | _ => exact .inl ⟨rfl, (Option.some.inj h).symm⟩

theorem leave_move {f : FunctionID} {now : Clock} (hf : f ≠ 0)
    (he : e = .leaveStub f tid now ∨ e = .tailcallStub f tid now) : e.move = some (.leave tid now) := by
  rcases he with rfl | rfl <;> exact if_neg hf

theorem spineStep_elsewhere (he : elsewhere tid e = true) (sp : Spine Ptr) : spineStep s tid e sp = sp := by
  unfold spineStep
  cases e <;> simp only [elsewhere, decide_eq_true_eq, ne_eq] at he <;>
    simp only [Callback.move] <;> split <;> simp_all

end follow

end Perun
