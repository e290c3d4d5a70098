import PerunProfiler.Allocations
import PerunProfiler.Document
import PerunProfiler.References
import PerunProfiler.Serialization

/-!
# What Shutdown leaves on the heap

`Shutdown` deletes every record of a call. Of the objects it deletes those that it writes: what a run
has allocated and `Shutdown` does not write stays on the heap. In the default mode these are the objects
whose address has been allocated again.
-/

namespace Perun
open Lib

/-! ### The calls -/

/-- `events` are what turns the heap `h` into `h'`: it keeps what is not deleted. -/
def Frees (h : Heap FunctionClass) (events : List FunctionEvent) (h' : Heap FunctionClass) : Prop :=
  ∀ q, (h'.get? q).isSome ↔ (h.get? q).isSome ∧ q ∉ deletedPtrs events

section frees
variable {events : List FunctionEvent} {now : Clock}

theorem Frees.set {h : Heap FunctionClass} {p : Ptr} {f : FunctionClass} (hp : deref h p = .ok f) (f' : FunctionClass) :
    Frees h [] (h.set p f') := by
  intro q
  rw [Heap.get?_set (deref_ok.1 hp)]
  split
  · next hq =>
    subst hq
    rw [deref_ok.1 hp]
    exact iff_of_true rfl ⟨rfl, List.not_mem_nil⟩
  · exact (and_iff_left List.not_mem_nil).symm

theorem respected_frees (now : Clock) : Respected now Frees where
  refl h q := (and_iff_left List.not_mem_nil).symm
  trans {h events h' events' h''} h₁ h₂ q := by
    have hdeleted : deletedPtrs (events ++ events') = deletedPtrs events ++ deletedPtrs events' := List.filterMap_append
    rw [h₂ q, h₁ q, hdeleted, List.mem_append, not_or, and_assoc]
  repair hp := Frees.set hp _
  written _ _ q := (and_iff_left List.not_mem_nil).symm
  clear hp := Frees.set hp _
  deleted {h p f} _ q := by
    have hdeleted : deletedPtrs [.deleted p] = [p] := rfl
    rw [Heap.get?_free, hdeleted, List.mem_singleton]
    split
    · next hq => exact iff_of_false nofun fun hlive => hlive.2 hq
    · next hq => exact (and_iff_left hq).symm

/-- No record of a call is left. -/
theorem Reachable.functions_freed {s : CoreProfiler} (hr : Reachable s) {functions : Heap FunctionClass}
    (hok : functionsSection s.functions.size now s = .ok (events, functions)) (p : Ptr) : functions.get? p = none := by
  obtain ⟨events', functions', hok', -, hdeleted, -⟩ := functionsSection_forest hr now (Nat.le_refl _)
  obtain ⟨rfl, rfl⟩ := Prod.mk.inj (Except.ok.inj (hok.symm.trans hok'))
  by_contra hne
  obtain ⟨hlive, hkept⟩ := ((respected_frees now).functionsSection hok p).1 (Option.isSome_iff_ne_none.2 hne)
  obtain ⟨f, hf⟩ := Option.isSome_iff_exists.1 hlive
  exact hkept (hdeleted.mem_iff.2 (Heap.mem_addrs.2 ⟨f, hf, rfl⟩))

end frees

/-! ### The objects -/

/-- The addresses of the objects, in the order of allocation. -/
def addresses (es : List Callback) : List Nat := es.filterMap Callback.address

section objects
variable {c : Config} {es : List Callback} {s s' : CoreProfiler} {e : Callback} {A : List Nat} {p : Ptr}

theorem length_addresses (es : List Callback) : (addresses es).length = (allocated es).length := by
  have hsome : ∀ e : Callback, (e.address).isSome = (e.allocates).isSome := by
    intro e
    unfold Callback.address
    split <;> simp [Callback.allocates]
  rw [addresses, allocated, List.length_filterMap_eq_countP, List.length_filterMap_eq_countP]
  exact List.countP_congr fun e _ => by rw [hsome]

/-- Without deallocation tracking, `m_objectsAlloc` has the last record of every address of `A`. -/
structure LastOf (A : List Nat) (s : CoreProfiler) : Prop where
  off : s.isDeallocEnable = false
  dead : s.objectsDeAlloc = []
  size : s.objects.size = A.length
  last : ∀ (k : Nat) (p : Ptr), s.objectsAlloc[k]? = some p ↔ A[p]? = some k ∧ ∀ q, p < q → A[q]? ≠ some k

theorem LastOf.congr (h : LastOf A s) (ht : s'.tracking = s.tracking) (hoff : s'.isDeallocEnable = s.isDeallocEnable) :
    LastOf A s' := by
  simp only [CoreProfiler.tracking, Prod.mk.injEq] at ht
  obtain ⟨h1, h2, h3⟩ := ht
  exact ⟨hoff.trans h.off, h3.trans h.dead, by rw [h1, h.size], by rw [h2]; exact h.last⟩

theorem LastOf.objectAllocated {o z : Nat} {d : ClassID} {t : ThreadID} {now : Clock} (h : LastOf A s)
    (hs : objectAllocated o d (some z) t now s = .ok s') : LastOf (A ++ [o]) s' := by
  rcases objectAllocated_cases hs with ⟨hz, -⟩ | ⟨z', hz, rfl⟩
  · cases hz
  refine ⟨h.off, h.dead, by rw [Heap.size_alloc, h.size, List.length_append]; rfl, fun k p => ?_⟩
  rw [Std.ExtTreeMap.getElem?_insert, h.size]
  have hbelow : ∀ q, q < A.length → (A ++ [o])[q]? = A[q]? := fun q hq => List.getElem?_append_left hq
  have hnew : (A ++ [o])[A.length]? = some o := List.getElem?_concat_length
  have hlt : ∀ {q : Nat}, (A ++ [o])[q]? ≠ none → q ≤ A.length := by
    intro q hq
    refine Nat.le_of_not_lt fun hlt => hq (List.getElem?_eq_none ?_)
    rw [List.length_append]
    exact hlt
  by_cases hk : compare o k = .eq
  · rw [if_pos hk]
    obtain rfl : o = k := Std.LawfulEqCmp.eq_of_compare hk
    constructor
    · rintro hp
      obtain rfl := Option.some.inj hp
      refine ⟨hnew, fun q hq hqk => ?_⟩
      exact absurd (hlt (by rw [hqk]; nofun)) (Nat.not_le.2 hq)
    · rintro ⟨hp, hlast⟩
      -- no index comes after the new one, so it is the last
      have hle : p ≤ A.length := hlt (by rw [hp]; nofun)
      rcases Nat.lt_or_ge p A.length with hpl | hpl
      · exact absurd hnew (hlast _ hpl)
      · rw [Nat.le_antisymm hle hpl]
  · rw [if_neg hk, h.last]
    have hok : some o ≠ some k := fun heq => hk (by rw [Option.some.inj heq]; exact Std.ReflCmp.compare_self)
    have hsame : ∀ q : Nat, (A ++ [o])[q]? = some k ↔ A[q]? = some k := by
      intro q
      rcases Nat.lt_trichotomy q A.length with hq | rfl | hq
      · rw [hbelow q hq]
      · rw [hnew, List.getElem?_eq_none (Nat.le_refl _)]
        exact iff_of_false hok nofun
      · rw [List.getElem?_eq_none (Nat.le_of_lt hq), List.getElem?_eq_none (by rw [List.length_append]; exact hq)]
    simp only [ne_eq, hsame]

theorem LastOf.step (h : LastOf A s) (hs : Perun.step s e = .ok s') : LastOf (A ++ e.address.toList) s' := by
  by_cases he : ∃ o d z t now, e = .objectAllocated o d (some z) t now
  · obtain ⟨o, d, z, t, now, rfl⟩ := he
    exact h.objectAllocated hs
  · have hnone : e.allocation s = none := by
      unfold Callback.allocation
      split
      · exact absurd ⟨_, _, _, _, _, rfl⟩ he
      · rfl
    have hnone' : e.address = none := by
      unfold Callback.address
      split
      · exact absurd ⟨_, _, _, _, _, rfl⟩ he
      · rfl
    rw [hnone', Option.toList_none, List.append_nil]
    exact h.congr (step_tracking h.off hnone hs) (step_isDeallocEnable hs)

theorem run_lastOf (hd : c.enableDealloc ≠ "1") (h : run Perun.step c.start es = .ok s) : LastOf (addresses es) s := by
  refine run_inv_events (P := fun es s => LastOf (addresses es) s) ?_ (fun es s e s' hs hstep => ?_) h
  · refine ⟨by simpa [Config.start, initializeProfiler, construct] using hd, rfl, rfl, fun k p => ?_⟩
    simp [show c.start.objectsAlloc = ∅ from rfl, addresses]
  · have hlast := hs.step hstep
    rw [addresses, List.filterMap_append]
    exact hlast

/-- The record of every allocation is on the heap until `Shutdown`. -/
theorem run_live (h : run step c.start es = .ok s) : (s.objects.get? p).isSome ↔ p < (addresses es).length := by
  rw [length_addresses, ← (run_typed h).size]
  constructor
  · intro hp
    obtain ⟨object, hobject⟩ := Option.isSome_iff_exists.1 hp
    exact Heap.lt_size hobject
  · intro hp
    obtain ⟨_, _, _, _, _, _, _, _, _, -, -, hobject⟩ := run_allocated h ((run_typed h).size ▸ hp)
    rw [hobject]
    rfl

/-- In the default mode a record is held unless its address is allocated again. -/
theorem LastOf.mem_heldRecords (h : LastOf A s) (hp : p < A.length) :
    p ∉ s.heldRecords ↔ ∃ q a, p < q ∧ A[p]? = some a ∧ A[q]? = some a := by
  obtain ⟨a, ha⟩ : ∃ a, A[p]? = some a := ⟨_, List.getElem?_eq_getElem hp⟩
  rw [CoreProfiler.mem_heldRecords, h.dead, not_or, and_iff_right List.not_mem_nil]
  constructor
  · intro hnone
    by_contra hlast
    refine hnone ⟨a, (h.last a p).2 ⟨ha, fun q hq hqa => hlast ⟨q, a, hq, ha, hqa⟩⟩⟩
  · rintro ⟨q, a', hq, ha', hqa⟩ ⟨k, hk⟩
    obtain ⟨hpk, hlast⟩ := (h.last k p).1 hk
    obtain rfl := Option.some.inj (hpk.symm.trans ha')
    exact hlast q hq hqa

end objects

/-- After any run `Shutdown` leaves no record of a call on the heap. Of the objects it leaves those that
it does not write, which are those that nothing holds; in the default mode, those whose address has been
allocated again. -/
theorem run_leaked {c : Config} {es : List Callback} {s : CoreProfiler} (h : run step c.start es = .ok s) (os : Process)
    (now : Clock) : ∃ records objects s', objectsSection s = .ok (records, objects) ∧ shutdown os now s = .ok s' ∧
      (∀ p, s'.functions.get? p = none) ∧
      (s'.objects.addrs fun _ => true).length + records.length = (addresses es).length ∧
      (∀ p, (s'.objects.get? p).isSome ↔ p < (addresses es).length ∧ p ∉ s.heldRecords) ∧
      (c.enableDealloc ≠ "1" → ∀ p, (s'.objects.get? p).isSome ↔
        ∃ q a, p < q ∧ (addresses es)[p]? = some a ∧ (addresses es)[q]? = some a) := by
  have hr : Reachable s := ⟨c, es, h⟩
  obtain ⟨⟨events, functions, hf⟩, records, objects, ho⟩ := hr.sections now
  obtain ⟨objects', ho', hget⟩ := hr.tracked.objectsSection
  obtain ⟨records', objects'', ho'', hwritten⟩ := hr.tracked.written
  obtain ⟨-, rfl⟩ := Prod.mk.inj (Except.ok.inj (ho.symm.trans ho'))
  obtain ⟨rfl, -⟩ := Prod.mk.inj (Except.ok.inj (ho.symm.trans ho''))
  have hleft : ∀ p, (objects.get? p).isSome ↔ p < (addresses es).length ∧ p ∉ s.heldRecords := by
    intro p
    rw [hget]
    split
    · next hp => exact iff_of_false nofun fun hq => hq.2 hp
    · next hp => rw [run_live h, and_iff_left hp]
  have hperm : (objects.addrs fun _ => true).Perm ((List.range (addresses es).length).filter (· ∉ s.heldRecords)) := by
    refine (List.perm_ext_iff_of_nodup Heap.nodup_addrs (List.nodup_range.filter _)).2 fun p => ?_
    rw [Heap.mem_addrs, List.mem_filter, List.mem_range, decide_eq_true_iff, ← hleft p, Option.isSome_iff_exists]
    exact exists_congr fun _ => and_iff_left rfl
  refine ⟨records, objects, _, ho, by rw [shutdown, hf]; dsimp only; rw [ho], hr.functions_freed hf, ?_, hleft, ?_⟩
  · rw [hperm.length_eq, ← hwritten.length_eq]
    exact length_filter_range hr.tracked.nodup_heldRecords fun p hp => (run_live h).1 (hr.tracked.heldRecords_live p hp)
  · intro hd p
    have hlast := run_lastOf hd h
    rw [hleft p]
    constructor
    · rintro ⟨hp, hnone⟩
      exact (hlast.mem_heldRecords hp).1 hnone
    · rintro ⟨q, a, hq, ha, hqa⟩
      have hp : p < (addresses es).length := by
        refine Nat.lt_of_not_le fun hle => ?_
        rw [List.getElem?_eq_none hle] at ha
        cases ha
      exact ⟨hp, (hlast.mem_heldRecords hp).2 ⟨q, a, hq, ha, hqa⟩⟩

theorem run_leaked_twice :
    ∃ s, run step Config.plain.start (allocateTwice 100) = .ok s ∧ ∃ s', shutdown ⟨1, 1⟩ ⟨9, 9⟩ s = .ok s' ∧
      (s'.objects.get? 0).isSome ∧ ¬ (s'.objects.get? 1).isSome := by
  obtain ⟨s, hs⟩ : ∃ s, run step Config.plain.start (allocateTwice 100) = .ok s := ⟨_, rfl⟩
  obtain ⟨records, objects, s', ho, hok, -, -, -, hleft⟩ := run_leaked hs ⟨1, 1⟩ ⟨9, 9⟩
  refine ⟨s, hs, s', hok, (hleft (by decide) 0).2 ⟨1, 100, by decide, rfl, rfl⟩, fun hp => ?_⟩
  obtain ⟨q, a, hq, -, hqa⟩ := (hleft (by decide) 1).1 hp
  rw [List.getElem?_eq_none (show (addresses (allocateTwice 100)).length ≤ q from hq)] at hqa
  cases hqa

end Perun
