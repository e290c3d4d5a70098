import PerunProfiler.CallTree

/-!
# Which call an allocation is attributed to

`ObjectAllocated` stores the counter of the thread, which is the number of the last call made on it.
That is the active function's number as long as the active function has called nothing.
-/

namespace Perun
open Lib

/-- The number of the function active on a thread, -1 if there is none. -/
def attribution (s : CoreProfiler) (tid : ThreadID) : Int :=
  match s.activeFunction tid with
  | some p => orderNumber s.functions p
  | none => -1

theorem eq_length_of_map_eq_range {α : Type} {o : α → Nat} {l₁ l₂ : List α} {p : α} {n : Nat}
    (h : (l₁ ++ p :: l₂).map o = List.range n) : o p = l₁.length := by
  have hlen : (l₁ ++ p :: l₂).length = n := by simpa using congrArg List.length h
  have hat := congrArg (·[l₁.length]?) h
  have hlt : l₁.length < n := by rw [← hlen]; simp
  simpa [List.getElem?_range hlt] using hat

section attribution
variable {s : CoreProfiler} {t : ThreadID} {sp : Spine Ptr}

/-- The active function's number, and the numbers made after it. -/
theorem ThreadRep.counter_eq {p : Ptr} {cs : List (Rose Ptr)} {rest : Spine Ptr}
    (hr : ThreadRep s t ((p, cs) :: rest)) :
    (s.threadEntry t).1 = orderNumber s.functions p + (cs.flatMap Rose.preorder).length := by
  have hnum := hr.num
  have hcount := hr.count (by simp)
  rw [← hr.pre, Spine.preorder_cons, Rose.preorder_node] at hnum hcount
  have hp := eq_length_of_map_eq_range hnum
  simp only [List.length_append, List.length_cons] at hcount
  omega

theorem ThreadRep.attributed_iff {o : Nat} {c : ClassID} {z : Nat} {now : Clock} (hr : ThreadRep s t sp) :
    (newObject o c z t now s).functionNumOrder = attribution s t ↔
      ∀ p function, s.activeFunction t = some p → s.functions.get? p = some function →
        function.calledFunctions = [] := by
  have hnew : (newObject o c z t now s).functionNumOrder =
      if (s.activeFunction t).isSome then ((s.threadEntry t).1 : Int) else -1 := rfl
  rw [hnew, attribution]
  cases ha : s.activeFunction t with
  | none => simp
  | some p =>
    obtain ⟨cs, rest, rfl⟩ := hr.cons_of_active ha
    obtain ⟨function, hp, -, hcalled, -⟩ := hr.rep.get
    have hcount := hr.counter_eq
    simp only [Option.isSome_some, if_true, Int.ofNat_inj]
    rw [Option.toList_none, List.append_nil] at hcalled
    constructor
    · rintro h q g hq hg
      obtain rfl := Option.some.inj hq
      obtain rfl := Option.some.inj (hp.symm.trans hg)
      rw [hcalled]
      cases cs with
      | nil => rfl
      | cons d ds =>
        have hd := d.preorder_length_pos
        rw [List.flatMap_cons, List.length_append] at hcount
        omega
    · intro h
      have hnil := h p function rfl hp
      rw [hcalled, List.map_eq_nil_iff] at hnil
      simpa [hnil] using hcount

end attribution

/-- In every reachable state an allocation is attributed to the active function of its thread
exactly when that function has called nothing yet, or there is none. -/
theorem objectAllocated_attributed_iff {s : CoreProfiler} (h : Reachable s) (o : Nat) (c : ClassID) (z : Nat)
    (t : ThreadID) (now : Clock) :
    ∃ s' object, step s (.objectAllocated o c (some z) t now) = .ok s' ∧
      s'.objectsAlloc[o]? = some s.objects.size ∧ s'.objects.get? s.objects.size = some object ∧
      (object.functionNumOrder = attribution s t ↔
        ∀ p function, s.activeFunction t = some p → s.functions.get? p = some function →
          function.calledFunctions = []) := by
  obtain ⟨σ, hσ⟩ := h.spines
  obtain ⟨s', hs⟩ : ∃ s', objectAllocated o c (some z) t now s = .ok s' := by
    simp only [objectAllocated, h.alive.info, if_true]
    exact ⟨_, rfl⟩
  rcases objectAllocated_cases hs with ⟨hz, -⟩ | ⟨pcSize, hz, rfl⟩
  · cases hz
  obtain rfl := Option.some.inj hz
  exact ⟨_, newObject o c z t now s, hs, by simp, by simp, (hσ t).attributed_iff⟩

theorem objectAllocated_attributed_iff_entered :
    ∃ s, run step Config.plain.start [.trace 7, .enterStub 7 1 ⟨1, 1⟩] = .ok s ∧ attribution s 1 = 0 ∧
      ∃ s' object, step s (.objectAllocated 100 5 (some 24) 1 ⟨4, 4⟩) = .ok s' ∧
        s'.objectsAlloc[100]? = some s.objects.size ∧ s'.objects.get? s.objects.size = some object ∧
        (object.functionNumOrder = attribution s 1 ↔
          ∀ p function, s.activeFunction 1 = some p → s.functions.get? p = some function →
            function.calledFunctions = []) :=
  ⟨_, rfl, by decide, objectAllocated_attributed_iff ⟨.plain, [.trace 7, .enterStub 7 1 ⟨1, 1⟩], rfl⟩ 100 5 24 1 ⟨4, 4⟩⟩

/-- The caller, number 0, allocates after its callee, number 1, has returned: the record says 1. -/
theorem objectAllocated_after_callee :
    ∃ s s' object, run step Config.plain.start [.trace 7, .enterStub 7 1 ⟨1, 1⟩, .enterStub 7 1 ⟨2, 2⟩,
        .leaveStub 7 1 ⟨3, 3⟩] = .ok s ∧
      step s (.objectAllocated 100 5 (some 24) 1 ⟨4, 4⟩) = .ok s' ∧
      s'.objects.get? s.objects.size = some object ∧ object.functionNumOrder ≠ attribution s 1 :=
  ⟨_, _, _, rfl, rfl, rfl, by decide⟩

end Perun
