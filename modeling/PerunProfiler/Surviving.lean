import PerunProfiler.Generations

/-!
# Collections that move nothing

The calls of `SurvivingReferences` add up: together they mark the addresses in any range of any call,
whatever the order of the ranges. `GarbageCollectionFinished` then takes out the difference.
-/

namespace Perun
open Lib

/-- The address lies in the range. -/
def SurvivingRange.Holds (r : SurvivingRange) (k : Nat) : Prop := r.start ≤ k ∧ k < r.start + r.len

theorem SurvivingRange.passes_iff {r : SurvivingRange} {k : Nat} (hwrap : r.start + r.len < 2 ^ 64) :
    r.Passes k ↔ r.Holds k := by
  rw [Passes, Holds, wrap, Nat.mod_eq_of_lt hwrap]

section marked
variable {gcNumber : Nat} {objectsAlloc : Map Ptr} {P Q : Nat → Prop} {objects objects₁ objects₂ : Heap ObjectClass}

theorem Marked.refl (h : ∀ k, ¬ P k) : Marked gcNumber objectsAlloc P objects objects :=
  ⟨fun k _ _ hP => absurd hP (h k), fun _ _ => rfl⟩

/-- One marking after another marks what either does. -/
theorem Marked.trans (hone : OneAddress objectsAlloc) (h₁ : Marked gcNumber objectsAlloc P objects objects₁)
    (h₂ : Marked gcNumber objectsAlloc Q objects₁ objects₂) :
    Marked gcNumber objectsAlloc (fun k => P k ∨ Q k) objects objects₂ := by
  refine ⟨fun k p hk hPQ => ?_, fun p hp => ?_⟩
  · have hsame : ¬ P k → objects₁.get? p = objects.get? p := fun hP =>
      h₁.same p fun k' hk' => by rwa [hone k' k p hk' hk]
    by_cases hQ : Q k
    · rw [h₂.marked k p hk hQ]
      by_cases hP : P k
      · rw [h₁.marked k p hk hP, Option.map_map]
        rfl
      · rw [hsame hP]
    · have hP : P k := hPQ.resolve_right hQ
      rw [h₂.same p fun k' hk' => by rwa [hone k' k p hk' hk], h₁.marked k p hk hP]
  · rw [h₂.same p fun k hk hQ => hp k hk (.inr hQ), h₁.same p fun k hk hP => hp k hk (.inl hP)]

end marked

section cycle
variable {s : CoreProfiler}

/-- All the calls of a report, as one marking. -/
theorem run_survivingReferences (hd : s.isDeallocEnable = true) (ht : Tracked s) (calls : List (List SurvivingRange)) :
    ∃ objects', run step s (calls.map .survivingReferences) = .ok { s with objects := objects' } ∧
      Marked s.gcNumber s.objectsAlloc (fun k => ∃ ranges ∈ calls, ∃ r ∈ ranges, r.Passes k) s.objects objects' := by
  induction calls generalizing s with
  | nil => exact ⟨s.objects, rfl, .refl fun k ⟨_, hmem, _⟩ => absurd hmem List.not_mem_nil⟩
  | cons ranges calls ih =>
    obtain ⟨objects₁, hok, hmarked₁⟩ := survivingReferences_spec ranges hd ht.live
    have ht₁ : Tracked { s with objects := objects₁ } := ht.mark fun p hp => by
      rw [hmarked₁.isSome]
      exact hp
    obtain ⟨objects₂, hrun, hmarked₂⟩ := ih (s := { s with objects := objects₁ }) hd ht₁
    refine ⟨objects₂, run_cons.2 ⟨_, hok, hrun⟩, ?_⟩
    simpa only [List.exists_mem_cons_iff] using hmarked₁.trans ht.one hmarked₂

/-- An address that a call of the report has in a range. -/
def Survives (calls : List (List SurvivingRange)) (k : Nat) : Prop := ∃ ranges ∈ calls, ∃ r ∈ ranges, r.Holds k

/-- The sweep after the marking: whatever is in no range is older than the collection. -/
theorem outdated_iff (hl : Lifetime s) {calls : List (List SurvivingRange)} {objects' : Heap ObjectClass}
    (hm : Marked (s.gcNumber + 1) s.objectsAlloc (Survives calls) s.objects objects') {k : Nat} {p : Ptr}
    (hk : s.objectsAlloc[k]? = some p) : outdated (s.gcNumber + 1) objects' p = true ↔ ¬ Survives calls k := by
  obtain ⟨object, hobject⟩ := Option.isSome_iff_exists.1 (hl.tracked.live k p hk)
  by_cases hsurv : Survives calls k
  · refine iff_of_false ?_ (not_not_intro hsurv)
    simp [outdated, hm.marked k p hk hsurv, hobject, ObjectClass.mark]
  · refine iff_of_true ?_ hsurv
    have hsame := hm.same p fun k' hk' => by rwa [hl.tracked.one k' k p hk' hk]
    have hage := (hl.ages p object hobject).2
    simp only [outdated, hsame, hobject, Option.any_some, decide_eq_true_eq]
    omega

/-- What a collection that moves nothing makes of the tracked objects. -/
structure Swept (calls : List (List SurvivingRange)) (s s' : CoreProfiler) : Prop where
  gcNumber : s'.gcNumber = s.gcNumber + 1
  /-- What is in no range goes to `m_objectsDeAlloc`, by address, with the record it had. -/
  dead : ∃ dead : List (Nat × Ptr), dead.Pairwise (fun a b => a.1 < b.1) ∧
    (∀ (k : Nat) (p : Ptr), (k, p) ∈ dead ↔ s.objectsAlloc[k]? = some p ∧ ¬ Survives calls k) ∧
    s'.objectsDeAlloc = s.objectsDeAlloc ++ dead.map Prod.snd ∧
    ∀ e ∈ dead, s'.objects.get? e.2 = s.objects.get? e.2
  once : s'.objectsDeAlloc.Nodup
  /-- The others stay under their addresses. -/
  stays : ∀ (k : Nat) (p : Ptr), s'.objectsAlloc[k]? = some p ↔ s.objectsAlloc[k]? = some p ∧ Survives calls k
  marked : ∀ (k : Nat) (p : Ptr), s'.objectsAlloc[k]? = some p → ∃ object, s.objects.get? p = some object ∧
    s'.objects.get? p = some { object with untilGcNumber := s'.gcNumber }

/-- The end of the collection, after all the calls of its report. -/
theorem garbageCollectionFinished_swept {s₁ : CoreProfiler} {calls : List (List SurvivingRange)} (t : ThreadID)
    (now : Clock) (hl : Lifetime s) (hi : Reporting s₁) (hg : s₁.gcNumber = s.gcNumber + 1)
    (halloc : s₁.objectsAlloc = s.objectsAlloc) (hdealloc : s₁.objectsDeAlloc = s.objectsDeAlloc)
    (hm : Marked (s.gcNumber + 1) s.objectsAlloc (Survives calls) s.objects s₁.objects) :
    ∃ s', garbageCollectionFinished t now s₁ = .ok s' ∧ Swept calls s s' := by
  obtain ⟨s', hok, ht'⟩ := hi.tracked.garbageCollectionFinished t now hi.alive.info
  obtain ⟨m', hfinish, hget⟩ := garbageCollectionFinished_spec t now hi.alive.info hi.on hi.tracked.live
  obtain rfl := Except.ok.inj (hok.symm.trans hfinish)
  simp only [hg, halloc] at hget
  have hdead : ∀ (k : Nat) (p : Ptr), (k, p) ∈ s.objectsAlloc.toList.filter
      (fun e => outdated (s.gcNumber + 1) s₁.objects e.2) ↔ s.objectsAlloc[k]? = some p ∧ ¬ Survives calls k := by
    intro k p
    rw [List.mem_filter, Std.ExtTreeMap.mem_toList_iff_getElem?_eq_some]
    exact and_congr_right fun hk => outdated_iff hl hm hk
  have hstays : ∀ (k : Nat) (p : Ptr), m'[k]? = some p ↔ s.objectsAlloc[k]? = some p ∧ Survives calls k := by
    intro k p
    rw [hget, ← Bool.not_eq_true]
    exact and_congr_right fun hk => (not_congr (outdated_iff hl hm hk)).trans not_not
  refine ⟨_, hok, hg, ⟨_, s.objectsAlloc.toList_sorted.filter _, hdead, ?_, fun e he => ?_⟩, ht'.deadNodup, hstays,
    fun k p hk => ?_⟩
  · simp only [hg, halloc, hdealloc]
  · obtain ⟨hk, hsurv⟩ := (hdead e.1 e.2).1 he
    exact hm.same e.2 fun k' hk' => by rwa [hl.tracked.one k' e.1 e.2 hk' hk]
  · obtain ⟨hk, hsurv⟩ := (hstays k p).1 hk
    obtain ⟨object, hobject⟩ := Option.isSome_iff_exists.1 (hl.tracked.live k p hk)
    refine ⟨object, hobject, ?_⟩
    simp only [hg]
    rw [hm.marked k p hk hsurv, hobject]
    rfl

end cycle

/-- With deallocation tracking on, a collection that moves nothing takes exactly the objects whose
address is in no range of any call out of `m_objectsAlloc`. -/
theorem run_nonCompacting {c : Config} (hd : c.enableDealloc = "1") {es : List Callback} {s : CoreProfiler}
    (hs : run step c.start es = .ok s) (calls : List (List SurvivingRange))
    (hwrap : ∀ ranges ∈ calls, ∀ r ∈ ranges, r.start + r.len < 2 ^ 64) (generationCollected : Generations)
    (t t' : ThreadID) (now now' : Clock) :
    ∃ s', run step s (.garbageCollectionStarted generationCollected t now ::
        (calls.map .survivingReferences ++ [.garbageCollectionFinished t' now'])) = .ok s' ∧ Swept calls s s' := by
  have hon : c.start.isDeallocEnable = true := by simp [Config.start, initializeProfiler, construct, hd]
  obtain ⟨ha, hd, hl⟩ := (Lifetime.start c).run ⟨rfl, rfl⟩ hon hs
  obtain ⟨s₀, hstart⟩ : ∃ s₀, step s (.garbageCollectionStarted generationCollected t now) = .ok s₀ :=
    ⟨_, by rw [step, garbageCollectionStarted, if_pos ha.info]⟩
  have hi₀ : Reporting s₀ :=
    ⟨ha.step hstart, (step_isDeallocEnable hstart).trans hd, hl.tracked.step ha.info hstart⟩
  obtain ⟨objects', hcalls, hmarked⟩ := run_survivingReferences hi₀.on hi₀.tracked calls
  have hpasses : (fun k => ∃ ranges ∈ calls, ∃ r ∈ ranges, r.Passes k) = Survives calls := by
    funext k
    refine propext (exists_congr fun ranges => and_congr_right fun hranges => exists_congr fun r =>
      and_congr_right fun hr => ?_)
    exact SurvivingRange.passes_iff (hwrap ranges hranges r hr)
  rw [hpasses] at hmarked
  have hi₁ : Reporting { s₀ with objects := objects' } := by
    refine ⟨⟨hi₀.alive.info, hi₀.alive.gCoreProfiler⟩, hi₀.on, hi₀.tracked.mark fun p hp => ?_⟩
    rw [hmarked.isSome]
    exact hp
  have hs₀ := garbageCollectionStarted_cases hstart
  obtain ⟨s', hfinish, hswept⟩ := garbageCollectionFinished_swept (s := s) t' now' hl hi₁ (by rw [hs₀]) (by rw [hs₀])
    (by rw [hs₀]) (by simpa only [hs₀] using hmarked)
  exact ⟨s', run_cons.2 ⟨_, hstart, run_append.2 ⟨_, hcalls, run_cons.2 ⟨s', hfinish, run_nil⟩⟩⟩, hswept⟩

/-- Objects at 100, 200 and 300. -/
def threeObjects : List Callback :=
  [.objectAllocated 100 5 (some 24) 1 ⟨1, 1⟩, .objectAllocated 200 5 (some 24) 1 ⟨2, 2⟩,
    .objectAllocated 300 5 (some 24) 1 ⟨3, 3⟩]

/-- Ranges that overlap and come in no order, and an empty call. -/
theorem run_nonCompacting_threeObjects :
    ∃ s, run step Config.dealloc.start threeObjects = .ok s ∧
      ∃ s', run step s (.garbageCollectionStarted ⟨true, true, true⟩ 2 ⟨4, 4⟩ ::
          ([[⟨290, 40⟩, ⟨90, 20⟩, ⟨100, 8⟩], []].map .survivingReferences ++
            [.garbageCollectionFinished 2 ⟨5, 5⟩])) = .ok s' ∧
        Swept [[⟨290, 40⟩, ⟨90, 20⟩, ⟨100, 8⟩], []] s s' := by
  obtain ⟨s, hs⟩ : ∃ s, run step Config.dealloc.start threeObjects = .ok s := ⟨_, rfl⟩
  refine ⟨s, hs, run_nonCompacting rfl hs [[⟨290, 40⟩, ⟨90, 20⟩, ⟨100, 8⟩], []] ?_ ⟨true, true, true⟩ 2 2 ⟨4, 4⟩ ⟨5, 5⟩⟩
  intro ranges hranges r hr
  simp only [List.mem_cons, List.not_mem_nil, or_false] at hranges
  rcases hranges with rfl | rfl
  · simp only [List.mem_cons, List.not_mem_nil, or_false] at hr
    rcases hr with rfl | rfl | rfl <;> simp
  · cases hr

end Perun
