import PerunProfiler.Allocations
import PerunProfiler.Document
import PerunProfiler.Lifetime

/-!
# The objects that are left at Shutdown

`Shutdown` gives `untilGcNumber` of an object that is still held the number after the last collection,
but only if it differs from the number of the last one. With deallocation tracking on, all objects
carry the latter outside a collection. In the default mode nothing is marked after the allocation, so
that an object made after the last collection is written as gone before the others.
-/

namespace Perun
open Lib

def Callback.collecting (running : Bool) : Callback → Bool
  | .garbageCollectionStarted .. => true
  | .garbageCollectionFinished .. => false
  | _ => running

/-- A collection runs after the callbacks. -/
def collecting (es : List Callback) : Bool := es.foldl Callback.collecting false

/-- The objects left have one `untilGC`, from their own `GC` on and above that of the dead. -/
def LeftAlike (dead left : List ObjectRecord) : Prop :=
  ∃ untilGC, (∀ r ∈ left, r.untilGC = untilGC ∧ r.GC ≤ untilGC) ∧ ∀ r ∈ dead, r.untilGC < untilGC

/-- The object has its record in `m_objectsAlloc`. -/
def CoreProfiler.Left (s : CoreProfiler) (object : ObjectClass) : Prop :=
  ∃ (k : Nat) (p : Ptr), s.objectsAlloc[k]? = some p ∧ s.objects.get? p = some object

/-! ### With deallocation tracking -/

section on
variable {s s' : CoreProfiler}

theorem Settled.marked {P : Nat → Prop} {objects' : Heap ObjectClass} {m' : Map Ptr} (h : Settled s)
    (hm : Marked s.gcNumber s.objectsAlloc P s.objects objects')
    (hsub : ∀ (k : Nat) (p : Ptr), m'[k]? = some p → ∃ k' : Nat, s.objectsAlloc[k']? = some p) :
    Settled { s with objects := objects', objectsAlloc := m' } := by
  intro k p hk object hobject
  rcases hm.cases p with ⟨-, -, -, hmark⟩ | hsame
  · obtain ⟨old, -, rfl⟩ := Option.map_eq_some_iff.1 (hmark.symm.trans hobject)
    rfl
  · obtain ⟨k', hk'⟩ := hsub k p hk
    exact h k' p hk' object (hsame.symm.trans hobject)

/-- What `Settled` needs is a collection that has ended. -/
theorem step_settled {e : Callback} {running : Bool} (hi : s.Alive ∧ s.isDeallocEnable = true ∧ Lifetime s)
    (hset : running = false → Settled s) (hs : step s e = .ok s') (hout : e.collecting running = false) :
    Settled s' := by
  obtain ⟨ha, hd, hl⟩ := hi
  cases hc : e.collects with
  | false =>
    have hrunning : running = false := by
      cases e <;> first | exact hout | cases hc
    exact (hset hrunning).step hc hs
  | true =>
    cases e with
    | movedReferences r =>
      obtain ⟨tmpMap, objects', m', hok, hrekey, hkeys, -, hm⟩ := movedReferences_spec r hd hl.tracked.live
      obtain rfl := Except.ok.inj (hs.symm.trans hok)
      exact (hset hout).marked hm (rekey_oneAddress hkeys hl.tracked.one hrekey).1
    | survivingReferences r =>
      obtain ⟨objects', hok, hm⟩ := survivingReferences_spec r hd hl.tracked.live
      obtain rfl := Except.ok.inj (hs.symm.trans hok)
      exact (hset hout).marked hm fun k p hk => ⟨k, hk⟩
    | garbageCollectionStarted g t now => cases hout
    | garbageCollectionFinished t now => exact (hl.garbageCollectionFinished ha.info hd hs).2
    | _ => cases hc

theorem run_settled {c : Config} {es : List Callback} (hd : c.enableDealloc = "1")
    (h : run step c.start es = .ok s) : Lifetime s ∧ (collecting es = false → Settled s) := by
  have hon : c.start.isDeallocEnable = true := by simp [Config.start, initializeProfiler, construct, hd]
  have hinv := run_inv_events
    (P := fun es s => (s.Alive ∧ s.isDeallocEnable = true ∧ Lifetime s) ∧ (collecting es = false → Settled s))
    ⟨⟨⟨rfl, rfl⟩, hon, Lifetime.start c⟩, fun _ k p hk => ?_⟩ ?_ h
  · exact ⟨hinv.1.2.2, hinv.2⟩
  · simp [Config.start, initializeProfiler, construct] at hk
  · rintro es s e s' ⟨hi, hset⟩ hs
    refine ⟨⟨hi.1.step hs, (step_isDeallocEnable hs).trans hi.2.1, hi.2.2.step hi.1.info hi.2.1 hs⟩, fun hout => ?_⟩
    rw [collecting, List.foldl_append] at hout
    exact step_settled hi hset hs hout

end on

/-! ### In the default mode -/

section off
variable {s s' : CoreProfiler} {e : Callback}

/-- No collection has touched a record. -/
structure Unmarked (s : CoreProfiler) : Prop where
  tracked : Tracked s
  ages : ∀ (p : Ptr) (object : ObjectClass), s.objects.get? p = some object →
    object.untilGcNumber = object.gcNumber ∧ object.gcNumber ≤ s.gcNumber

theorem step_gcNumber_le (h : step s e = .ok s') : s.gcNumber ≤ s'.gcNumber := by
  rw [(step_gc h).2]
  exact Nat.le_add_right _ _

theorem Unmarked.step (ha : s.info = true) (hoff : s.isDeallocEnable = false) (h : Unmarked s)
    (hs : Perun.step s e = .ok s') : Unmarked s' := by
  have ht := h.tracked.step ha hs
  refine ⟨ht, fun p object hp => ?_⟩
  have hg := step_gcNumber_le hs
  cases hc : e.allocation s with
  | none =>
    have hsame : s'.objects = s.objects := congrArg Prod.fst (step_tracking hoff hc hs)
    rw [hsame] at hp
    exact ⟨(h.ages p object hp).1, (h.ages p object hp).2.trans hg⟩
  | some x =>
    unfold Callback.allocation at hc
    split at hc
    · rcases get?_allocated hs hp with ⟨-, h1, h2⟩ | ⟨-, hold⟩
      · exact ⟨h2.trans h1.symm, by omega⟩
      · exact ⟨(h.ages p object hold).1, (h.ages p object hold).2.trans hg⟩
    · cases hc

theorem run_unmarked {c : Config} {es : List Callback} (hd : c.enableDealloc ≠ "1")
    (h : run Perun.step c.start es = .ok s) : Unmarked s := by
  have hinv := run_inv (P := fun s => s.Alive ∧ s.isDeallocEnable = false ∧ Unmarked s)
    ⟨⟨rfl, rfl⟩, by simpa [Config.start, initializeProfiler, construct] using hd, (Reachable.start c).tracked, ?_⟩
    (fun s e s' ⟨ha, hoff, hu⟩ hs => ⟨ha.step hs, (step_isDeallocEnable hs).trans hoff, hu.step ha.info hoff hs⟩) h
  · exact hinv.2.2
  · simp [Config.start, initializeProfiler, construct]

end off

/-! ### What is written -/

section written
variable {s : CoreProfiler}

theorem mem_left {r : ObjectRecord} (adjust : ObjectClass → ObjectClass) :
    r ∈ (s.objectsAlloc.toList.map Prod.snd).filterMap (fun p =>
        (s.objects.get? p).map fun object => (adjust object).record) ↔
      ∃ object, s.Left object ∧ (adjust object).record = r := by
  simp only [List.mem_filterMap, List.mem_map, Prod.exists, Std.ExtTreeMap.mem_toList_iff_getElem?_eq_some,
    exists_eq_right, Option.map_eq_some_iff, CoreProfiler.Left]
  constructor
  · rintro ⟨p, ⟨k, hk⟩, object, hobject, hr⟩
    exact ⟨object, ⟨k, p, hk, hobject⟩, hr⟩
  · rintro ⟨object, ⟨k, p, hk, hobject⟩, hr⟩
    exact ⟨p, ⟨k, hk⟩, object, hobject, hr⟩

theorem Settled.leftAlike (h : Settled s) (hl : Lifetime s) :
    LeftAlike (s.objectsDeAlloc.filterMap fun p => (s.objects.get? p).map ObjectClass.record)
      ((s.objectsAlloc.toList.map Prod.snd).filterMap fun p =>
        (s.objects.get? p).map fun object => (object.survive s.gcNumber).record) := by
  refine ⟨s.gcNumber, fun r hr => ?_, fun r hr => ?_⟩
  · obtain ⟨object, ⟨k, p, hk, hobject⟩, rfl⟩ := (mem_left _).1 hr
    have hset := h k p hk object hobject
    have hage := hl.ages p object hobject
    rw [ObjectClass.survive, if_neg (not_not_intro hset)]
    exact ⟨hset, show object.gcNumber ≤ s.gcNumber by omega⟩
  · obtain ⟨p, hp, hr⟩ := List.mem_filterMap.1 hr
    obtain ⟨object, hobject, rfl⟩ := Option.map_eq_some_iff.1 hr
    exact hl.dead p hp object hobject

/-- An object made before the last collection is written as alive beyond it, one made after it as
alive until it. -/
theorem Unmarked.survive {object : ObjectClass} (h : Unmarked s) (hleft : s.Left object) :
    (object.survive s.gcNumber).gcNumber = object.gcNumber ∧ object.gcNumber ≤ s.gcNumber ∧
      (object.survive s.gcNumber).untilGcNumber =
        if object.gcNumber = s.gcNumber then s.gcNumber else s.gcNumber + 1 := by
  obtain ⟨k, p, -, hobject⟩ := hleft
  obtain ⟨huntil, hage⟩ := h.ages p object hobject
  unfold ObjectClass.survive
  rw [huntil]
  by_cases hg : object.gcNumber = s.gcNumber
  · rw [if_neg (not_not_intro hg), if_pos hg]
    exact ⟨rfl, hage, huntil.trans hg⟩
  · rw [if_pos hg, if_neg hg]
    exact ⟨rfl, hage, rfl⟩

theorem Unmarked.alike_iff (h : Unmarked s) :
    LeftAlike [] ((s.objectsAlloc.toList.map Prod.snd).filterMap fun p =>
        (s.objects.get? p).map fun object => (object.survive s.gcNumber).record) ↔
      (∀ object, s.Left object → object.gcNumber = s.gcNumber) ∨
        ∀ object, s.Left object → object.gcNumber < s.gcNumber := by
  constructor
  · rintro ⟨untilGC, hleft, -⟩
    have huntil : ∀ object, s.Left object →
        untilGC = if object.gcNumber = s.gcNumber then s.gcNumber else s.gcNumber + 1 := by
      intro object hobject
      rw [← (hleft _ ((mem_left _).2 ⟨object, hobject, rfl⟩)).1]
      exact (h.survive hobject).2.2
    by_cases hall : ∀ object, s.Left object → object.gcNumber = s.gcNumber
    · exact .inl hall
    · obtain ⟨old, hold, hne⟩ := by simpa only [not_forall] using hall
      refine .inr fun object hobject => lt_of_le_of_ne (h.survive hobject).2.1 fun hg => ?_
      have h₁ := huntil old hold
      have h₂ := huntil object hobject
      rw [if_neg hne] at h₁
      rw [if_pos hg] at h₂
      omega
  · rintro (hall | hnone)
    · refine ⟨s.gcNumber, fun r hr => ?_, fun r hr => absurd hr List.not_mem_nil⟩
      obtain ⟨object, hobject, rfl⟩ := (mem_left _).1 hr
      obtain ⟨hgc, hage, huntil⟩ := h.survive hobject
      rw [if_pos (hall object hobject)] at huntil
      exact ⟨huntil, hgc.trans_le hage⟩
    · refine ⟨s.gcNumber + 1, fun r hr => ?_, fun r hr => absurd hr List.not_mem_nil⟩
      obtain ⟨object, hobject, rfl⟩ := (mem_left _).1 hr
      obtain ⟨hgc, hage, huntil⟩ := h.survive hobject
      rw [if_neg (Nat.ne_of_lt (hnone object hobject))] at huntil
      exact ⟨huntil, hgc.trans_le (hage.trans (Nat.le_succ _))⟩

end written

/-- In the default mode the objects left are written with one `untilGC` exactly when all of them were
made after the last collection, or all before it. -/
theorem leftAlike_iff {c : Config} {es : List Callback} {s : CoreProfiler} (h : run step c.start es = .ok s)
    (hout : collecting es = false) :
    ∃ dead left objects', objectsSection s = .ok (dead ++ left, objects') ∧
      dead.length = s.objectsDeAlloc.length ∧ left.length = s.objectsAlloc.size ∧
      (LeftAlike dead left ↔ c.enableDealloc = "1" ∨
        (∀ object, s.Left object → object.gcNumber = s.gcNumber) ∨
        ∀ object, s.Left object → object.gcNumber < s.gcNumber) := by
  have ht := Reachable.tracked ⟨c, es, h⟩
  obtain ⟨objects', hok, -⟩ := ht.objectsSection
  refine ⟨_, _, objects', hok, ?_, ?_, ?_⟩
  · refine List.filterMap_length_eq_length.2 fun p hp => ?_
    rw [Option.isSome_map]
    exact ht.deadLive p hp
  · rw [← Std.ExtTreeMap.length_toList, ← List.length_map (f := Prod.snd)]
    refine List.filterMap_length_eq_length.2 fun p hp => ?_
    rw [Option.isSome_map]
    exact ht.heldRecords_live p (List.mem_append_right _ hp)
  · by_cases hd : c.enableDealloc = "1"
    · obtain ⟨hl, hset⟩ := run_settled hd h
      exact iff_of_true ((hset hout).leftAlike hl) (.inl hd)
    · rw [(run_ledger hd h).dead, List.filterMap_nil, (run_unmarked hd h).alike_iff]
      simp [hd]

/-- Two objects on either side of a collection, both alive at the end. -/
theorem leftAlike_iff_twice :
    ∃ s, run step Config.plain.start (allocateTwice 200) = .ok s ∧
      ∃ dead left objects', objectsSection s = .ok (dead ++ left, objects') ∧
        dead.length = s.objectsDeAlloc.length ∧ left.length = s.objectsAlloc.size ∧
        (LeftAlike dead left ↔ Config.plain.enableDealloc = "1" ∨
          (∀ object, s.Left object → object.gcNumber = s.gcNumber) ∨
          ∀ object, s.Left object → object.gcNumber < s.gcNumber) :=
  ⟨_, rfl, leftAlike_iff (show run step Config.plain.start (allocateTwice 200) = .ok _ from rfl) rfl⟩

/-- The younger of them is written as gone first. -/
theorem left_apart :
    ∃ s a b objects', run step Config.plain.start (allocateTwice 200) = .ok s ∧
      collecting (allocateTwice 200) = false ∧ s.objectsDeAlloc = [] ∧ s.objectsAlloc.size = 2 ∧
      objectsSection s = .ok ([a, b], objects') ∧ a.GC < b.GC ∧ b.untilGC < a.untilGC ∧ ¬ LeftAlike [] [a, b] := by
  refine ⟨_, _, _, _, rfl, rfl, rfl, rfl, rfl, by decide, by decide, ?_⟩
  rintro ⟨untilGC, hleft, -⟩
  have ha := (hleft _ (List.mem_cons_self ..)).1
  have hb := (hleft _ (List.mem_cons_of_mem _ (List.mem_cons_self ..))).1
  exact absurd (ha.trans hb.symm) (by decide)

end Perun
