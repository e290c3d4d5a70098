import PerunProfiler.CallTree

/-!
# How long an object is taken to live

`untilGcNumber` is the last collection in which the object is known to be alive. It lies between the
number of the collection before the allocation and the current one, and a record in `m_objectsDeAlloc`
is behind. Right after a collection all of `m_objectsAlloc` is up to date, so that `Shutdown` has
nothing to repair.
-/

namespace Perun
open Lib

/-- The marks of the records, of which none is held twice. -/
structure Lifetime (s : CoreProfiler) : Prop where
  tracked : Tracked s
  ages : ∀ (p : Ptr) (object : ObjectClass), s.objects.get? p = some object →
    object.gcNumber ≤ object.untilGcNumber ∧ object.untilGcNumber ≤ s.gcNumber
  dead : ∀ p ∈ s.objectsDeAlloc, ∀ object, s.objects.get? p = some object → object.untilGcNumber < s.gcNumber

/-- All of `m_objectsAlloc` is marked with the current collection. -/
def Settled (s : CoreProfiler) : Prop :=
  ∀ (k : Nat) (p : Ptr), s.objectsAlloc[k]? = some p → ∀ object, s.objects.get? p = some object →
    object.untilGcNumber = s.gcNumber

section step
variable {s s' : CoreProfiler} {e : Callback} {o z : Nat} {c : ClassID} {t : ThreadID} {now : Clock}

/-- A callback that is neither an allocation nor part of a collection leaves the records alone. -/
theorem step_untouched (hc : e.collects = false) (ho : ∀ o c z t now, e ≠ .objectAllocated o c (some z) t now)
    (h : step s e = .ok s') : s'.tracking = s.tracking ∧ s'.gcNumber = s.gcNumber := by
  by_cases hcall : e.isCall = true
  · exact ⟨(congrArg CoreProfiler.tracking (step_besides hcall h) :),
      (congrArg CoreProfiler.gcNumber (step_besides hcall h) :)⟩
  cases e with
  | mapper2 f m => rcases mapper2_cases h with rfl | rfl <;> exact ⟨rfl, rfl⟩
  | classLoadFinished c i p => rcases classLoadFinished_cases h with rfl | rfl <;> exact ⟨rfl, rfl⟩
  | objectAllocated o c z t now =>
    rcases objectAllocated_cases h with ⟨-, rfl⟩ | ⟨z, rfl, -⟩
    · exact ⟨rfl, rfl⟩
    · exact absurd rfl (ho o c z t now)
  | movedReferences r | survivingReferences r => cases hc
  | garbageCollectionStarted g t now | garbageCollectionFinished t now => cases hc
  | _ => exact absurd rfl hcall

theorem get?_allocated {object : ObjectClass} {p : Ptr}
    (hs : objectAllocated o c (some z) t now s = .ok s') (hp : s'.objects.get? p = some object) :
    (p = s.objects.size ∧ object.gcNumber = s.gcNumber ∧ object.untilGcNumber = s.gcNumber) ∨
      (p ≠ s.objects.size ∧ s.objects.get? p = some object) := by
  rcases objectAllocated_cases hs with ⟨hz, -⟩ | ⟨z', -, rfl⟩
  · cases hz
  rw [Heap.get?_alloc] at hp
  split at hp
  · next hps =>
    obtain rfl := Option.some.inj hp
    exact .inl ⟨hps, rfl, rfl⟩
  · next hps => exact .inr ⟨hps, hp⟩

namespace Lifetime

theorem later (h : Lifetime s) (hs : s'.tracking = s.tracking) (hg : s.gcNumber ≤ s'.gcNumber) : Lifetime s' := by
  have ht := h.tracked.congr hs
  simp only [CoreProfiler.tracking, Prod.mk.injEq] at hs
  refine ⟨ht, fun p object hp => ?_, fun p hp object hobject => ?_⟩
  · rw [hs.1] at hp
    exact ⟨(h.ages p object hp).1, (h.ages p object hp).2.trans hg⟩
  · rw [hs.2.2] at hp
    rw [hs.1] at hobject
    exact (h.dead p hp object hobject).trans_le hg

theorem marked {P : Nat → Prop} {objects' : Heap ObjectClass} {m' : Map Ptr} (h : Lifetime s)
    (hm : Marked s.gcNumber s.objectsAlloc P s.objects objects')
    (ht : Tracked { s with objects := objects', objectsAlloc := m' }) :
    Lifetime { s with objects := objects', objectsAlloc := m' } := by
  refine ⟨ht, fun p object hp => ?_, fun p hp object hobject => ?_⟩
  · rcases hm.cases p with ⟨-, -, -, hmark⟩ | hsame
    · obtain ⟨old, hold, rfl⟩ := Option.map_eq_some_iff.1 (hmark.symm.trans hp)
      obtain ⟨h1, h2⟩ := h.ages p old hold
      exact ⟨h1.trans h2, Nat.le_refl _⟩
    · exact h.ages p object (hsame.symm.trans hp)
  · -- a dead record has no address to be marked by
    have hsame := hm.same p fun k hk _ => h.tracked.disjoint p hp k hk
    exact h.dead p hp object (hsame.symm.trans hobject)

theorem objectAllocated (h : Lifetime s) (hs : Perun.objectAllocated o c (some z) t now s = .ok s') :
    Lifetime s' := by
  have ht := h.tracked.objectAllocated hs
  have hget := fun p object (hp : s'.objects.get? p = some object) => get?_allocated hs hp
  obtain ⟨hg, hd⟩ : s'.gcNumber = s.gcNumber ∧ s'.objectsDeAlloc = s.objectsDeAlloc := by
    rcases objectAllocated_cases hs with ⟨-, rfl⟩ | ⟨z', -, rfl⟩ <;> exact ⟨rfl, rfl⟩
  refine ⟨ht, fun p object hp => ?_, fun p hp object hobject => ?_⟩
  · rw [hg]
    rcases hget p object hp with ⟨-, h1, h2⟩ | ⟨-, hold⟩
    · omega
    · exact h.ages p object hold
  · rw [hd] at hp
    rw [hg]
    rcases hget p object hobject with ⟨rfl, -, -⟩ | ⟨-, hold⟩
    · obtain ⟨object', hlive⟩ := Option.isSome_iff_exists.1 (h.tracked.deadLive _ hp)
      exact absurd (Heap.lt_size hlive) (Nat.lt_irrefl _)
    · exact h.dead p hp object hold

theorem garbageCollectionFinished (ha : s.info = true) (hd : s.isDeallocEnable = true) (h : Lifetime s)
    (hs : Perun.garbageCollectionFinished t now s = .ok s') : Lifetime s' ∧ Settled s' := by
  obtain ⟨s₁, hok₁, ht⟩ := h.tracked.garbageCollectionFinished t now ha
  obtain rfl := Except.ok.inj (hs.symm.trans hok₁)
  obtain ⟨m', hok, hget⟩ := garbageCollectionFinished_spec t now ha hd h.tracked.live
  obtain rfl := Except.ok.inj (hs.symm.trans hok)
  refine ⟨⟨ht, h.ages, fun p hp object hobject => ?_⟩, fun k p hk object hobject => ?_⟩
  · rcases List.mem_append.1 hp with hp | hp
    · exact h.dead p hp object hobject
    · obtain ⟨e, he, rfl⟩ := List.mem_map.1 hp
      have hold : object.untilGcNumber ≠ s.gcNumber := by
        simpa [outdated, show s.objects.get? e.2 = some object from hobject] using (List.mem_filter.1 he).2
      exact lt_of_le_of_ne (h.ages _ _ hobject).2 hold
  · simpa [outdated, show s.objects.get? p = some object from hobject] using ((hget k p).1 hk).2

theorem step (ha : s.info = true) (hd : s.isDeallocEnable = true) (h : Lifetime s)
    (hs : Perun.step s e = .ok s') : Lifetime s' := by
  by_cases ho : ∃ o c z t now, e = .objectAllocated o c (some z) t now
  · obtain ⟨o, c, z, t, now, rfl⟩ := ho
    exact h.objectAllocated hs
  cases hc : e.collects with
  | false =>
    obtain ⟨htrack, hg⟩ := step_untouched hc (fun o c z t now he => ho ⟨o, c, z, t, now, he⟩) hs
    exact h.later htrack (Nat.le_of_eq hg.symm)
  | true =>
    have ht := h.tracked.step ha hs
    cases e with
    | movedReferences r =>
      obtain ⟨tmpMap, objects', m', hok, -, -, -, hm⟩ := movedReferences_spec r hd h.tracked.live
      obtain rfl := Except.ok.inj (hs.symm.trans hok)
      exact h.marked hm ht
    | survivingReferences r =>
      obtain ⟨objects', hok, hm⟩ := survivingReferences_spec r hd h.tracked.live
      obtain rfl := Except.ok.inj (hs.symm.trans hok)
      exact h.marked hm ht
    | garbageCollectionStarted g t now =>
      rw [garbageCollectionStarted_cases hs]
      exact h.later rfl (Nat.le_succ _)
    | garbageCollectionFinished t now => exact (h.garbageCollectionFinished ha hd hs).1
    | _ => cases hc

end Lifetime

theorem Settled.step (h : Settled s) (hc : e.collects = false) (hs : step s e = .ok s') : Settled s' := by
  by_cases ho : ∃ o c z t now, e = .objectAllocated o c (some z) t now
  · obtain ⟨o, c, z, t, now, rfl⟩ := ho
    intro k p hk object hobject
    have hs : objectAllocated o c (some z) t now s = .ok s' := hs
    have hget := get?_allocated hs hobject
    rcases objectAllocated_cases hs with ⟨hz, -⟩ | ⟨z', -, rfl⟩
    · cases hz
    rcases hget with ⟨-, -, h2⟩ | ⟨hne, hold⟩
    · exact h2
    · rw [Std.ExtTreeMap.getElem?_insert] at hk
      split at hk
      · exact absurd (Option.some.inj hk).symm hne
      · exact h k p hk object hold
  · obtain ⟨htrack, hg⟩ := step_untouched hc (fun o c z t now he => ho ⟨o, c, z, t, now, he⟩) hs
    simp only [CoreProfiler.tracking, Prod.mk.injEq] at htrack
    intro k p hk object hobject
    rw [htrack.2.1] at hk
    rw [htrack.1] at hobject
    rw [hg]
    exact h k p hk object hobject

/-- What `Shutdown` does with the objects when nothing is behind. -/
theorem Settled.objectsSection (h : Settled s) (ht : Tracked s) :
    ∃ records objects', objectsSection s = .ok (records, objects') ∧
      s.heldRecords.map (fun p => (s.objects.get? p).map ObjectClass.record) = records.map some ∧
      ∀ q, objects'.get? q = if q ∈ s.heldRecords then none else s.objects.get? q := by
  obtain ⟨objects', hok, hget⟩ := ht.objectsSection
  have hsurvive : ((s.objectsAlloc.toList.map Prod.snd).filterMap fun p =>
      (s.objects.get? p).map fun object => (object.survive s.gcNumber).record) =
      (s.objectsAlloc.toList.map Prod.snd).filterMap fun p => (s.objects.get? p).map ObjectClass.record := by
    refine List.filterMap_congr fun p hp => ?_
    obtain ⟨e, he, rfl⟩ := List.mem_map.1 hp
    have hk := Std.ExtTreeMap.mem_toList_iff_getElem?_eq_some.1 (show (e.1, e.2) ∈ _ from he)
    refine Option.map_congr fun object hobject => ?_
    have hmark := h e.1 e.2 hk object hobject
    rw [ObjectClass.survive, if_neg (by simpa using hmark)]
  rw [hsurvive, ← List.filterMap_append] at hok
  refine ⟨_, objects', hok, ?_, hget⟩
  rw [List.map_filterMap, ← List.filterMap_eq_map]
  refine List.filterMap_congr fun p hp => ?_
  obtain ⟨object, hobject⟩ := Option.isSome_iff_exists.1 (ht.heldRecords_live p hp)
  simp [hobject]

end step

theorem Lifetime.run {s s' : CoreProfiler} {es : List Callback} (ha : s.Alive) (hd : s.isDeallocEnable = true)
    (h : Lifetime s) (hs : run Perun.step s es = .ok s') : s'.Alive ∧ s'.isDeallocEnable = true ∧ Lifetime s' := by
  refine run_inv (P := fun s => s.Alive ∧ s.isDeallocEnable = true ∧ Lifetime s) ⟨ha, hd, h⟩ ?_ hs
  rintro s e s' ⟨ha, hd, h⟩ hs
  exact ⟨ha.step hs, (step_isDeallocEnable hs).trans hd, h.step ha.info hd hs⟩

theorem Lifetime.start (c : Config) : Lifetime c.start :=
  ⟨(Reachable.start c).tracked, by simp [Config.start, initializeProfiler, construct],
    by simp [Config.start, initializeProfiler, construct]⟩

/-- The callbacks about objects do not fault. In every run with deallocation tracking on, the marks of
the records are as `Lifetime` says. If the last callback about a collection is the end of one, all of
`m_objectsAlloc` is up to date, and `Shutdown` writes every held record once, as it is, and deletes
it. -/
theorem run_lifetime {c : Config} (hd : c.enableDealloc = "1") (es : List Callback) :
    ((∀ e ∈ es, ∀ t now, e.move ≠ some (.leave t now)) → ∃ s, run step c.start es = .ok s) ∧
    ∀ s, run step c.start es = .ok s → Lifetime s ∧
      ∀ es₁ t now es₂, es = es₁ ++ .garbageCollectionFinished t now :: es₂ → (∀ e ∈ es₂, e.collects = false) →
        Settled s ∧ s.heldRecords.Nodup ∧ ∃ records objects', objectsSection s = .ok (records, objects') ∧
          s.heldRecords.map (fun p => (s.objects.get? p).map ObjectClass.record) = records.map some ∧
          ∀ q, objects'.get? q = if q ∈ s.heldRecords then none else s.objects.get? q := by
  have hon : c.start.isDeallocEnable = true := by simp [Config.start, initializeProfiler, construct, hd]
  refine ⟨fun hleave => run_ok_of_no_leave c hleave, fun s hs => ?_⟩
  have hstart := Lifetime.start c
  have ha : c.start.Alive := ⟨rfl, rfl⟩
  obtain ⟨-, -, hl⟩ := hstart.run ha hon hs
  refine ⟨hl, fun es₁ t now es₂ hes hlast => ?_⟩
  rw [hes] at hs
  obtain ⟨s₁, hs₁, hs⟩ := run_append.1 hs
  obtain ⟨s₂, hs₂, hs⟩ := run_cons.1 hs
  obtain ⟨ha₁, hd₁, hl₁⟩ := hstart.run ha hon hs₁
  have hset₂ := (hl₁.garbageCollectionFinished ha₁.info hd₁ hs₂).2
  have hset : Settled s := run_inv_mem hset₂ (fun s e he s' h hs => h.step (hlast e he) hs) hs
  exact ⟨hset, hl.tracked.nodup_heldRecords, hset.objectsSection hl.tracked⟩

/-- An environment that turns deallocation tracking on. -/
def Config.dealloc : Config := { Config.plain with enableDealloc := "1" }

/-- The object at 100 survives a collection, the one at 200 does not, a third comes after it. -/
def oneCollection : List Callback :=
  [.objectAllocated 100 5 (some 24) 1 ⟨1, 1⟩, .objectAllocated 200 5 (some 24) 1 ⟨2, 2⟩,
    .garbageCollectionStarted ⟨true, false, false⟩ 2 ⟨3, 3⟩, .survivingReferences [⟨100, 50⟩],
    .garbageCollectionFinished 2 ⟨4, 4⟩, .objectAllocated 300 5 (some 24) 1 ⟨5, 5⟩]

theorem run_lifetime_oneCollection :
    ((∀ e ∈ oneCollection, ∀ t now, e.move ≠ some (.leave t now)) →
      ∃ s, run step Config.dealloc.start oneCollection = .ok s) ∧
    ∀ s, run step Config.dealloc.start oneCollection = .ok s → Lifetime s ∧
      ∀ es₁ t now es₂, oneCollection = es₁ ++ .garbageCollectionFinished t now :: es₂ →
        (∀ e ∈ es₂, e.collects = false) →
        Settled s ∧ s.heldRecords.Nodup ∧ ∃ records objects', objectsSection s = .ok (records, objects') ∧
          s.heldRecords.map (fun p => (s.objects.get? p).map ObjectClass.record) = records.map some ∧
          ∀ q, objects'.get? q = if q ∈ s.heldRecords then none else s.objects.get? q :=
  run_lifetime rfl oneCollection

end Perun
