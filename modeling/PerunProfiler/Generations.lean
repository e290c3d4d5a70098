import PerunProfiler.Arrival
import PerunProfiler.Lifetime

/-!
# Collections of some generations

`GarbageCollectionFinished` keeps what the collection has marked, and only what it reports is marked:
the flags of `GarbageCollectionStarted` go to the log and nowhere else. An object of a generation that
is not collected is in no range of the report, so it stays only by accident: because the wrong upper
bound of `MovedReferences` lets its address through, and if it finds the place free that it is then
sent to.
-/

namespace Perun
open Lib

/-- The large object heap is collected with generation 2. -/
inductive Generation where
  | gen0
  | gen1
  | gen2
deriving DecidableEq, Repr

def Generations.collected (generationCollected : Generations) : Generation → Bool
  | .gen0 => generationCollected.gen0
  | .gen1 => generationCollected.gen1
  | .gen2 => generationCollected.gen2

/-- One call of the report of a collection. -/
inductive Report where
  | moved (ranges : List MovedRange)
  | surviving (ranges : List SurvivingRange)
deriving DecidableEq, Repr

namespace Report

def callback : Report → Callback
  | moved ranges => .movedReferences ranges
  | surviving ranges => .survivingReferences ranges

/-- The address lies in a range of the report, before the collection. -/
def Holds : Report → Nat → Prop
  | moved ranges, k => ∃ r ∈ ranges, r.Holds k
  | surviving ranges, k => ∃ r ∈ ranges, r.start ≤ k ∧ k < r.start + r.len

/-- The address is let through by the test of the loop. -/
def Passes : Report → Nat → Prop
  | moved ranges, k => ∃ r ∈ ranges, r.Passes k
  | surviving ranges, k => ∃ r ∈ ranges, r.Passes k

/-- The record at `k` is not lost. -/
def Arrives (m : Map Ptr) : Report → Nat → Prop
  | moved ranges, k => Perun.Arrives m ranges k
  | surviving _, _ => True

end Report

/-- The callbacks of one collection. -/
def cycle (generationCollected : Generations) (reports : List Report) (threadId : ThreadID) (now now' : Clock) :
    List Callback :=
  .garbageCollectionStarted generationCollected threadId now ::
    (reports.map Report.callback ++ [.garbageCollectionFinished threadId now'])

section report
variable {s s' : CoreProfiler} {r : Report} {reports : List Report} {k : Nat} {p : Ptr}

def CoreProfiler.Holds (s : CoreProfiler) (p : Ptr) : Prop := ∃ k : Nat, s.objectsAlloc[k]? = some p

/-- The record is in `m_objectsAlloc` and not in `m_objectsDeAlloc`. -/
def Remains (s : CoreProfiler) (p : Ptr) : Prop := s.Holds p ∧ p ∉ s.objectsDeAlloc

/-- What one call of the report does. -/
structure Reported (s : CoreProfiler) (r : Report) (s' : CoreProfiler) : Prop where
  gcNumber : s'.gcNumber = s.gcNumber
  marked : Marked s.gcNumber s.objectsAlloc r.Passes s.objects s'.objects
  stays : ∀ (k : Nat) (p : Ptr), s.objectsAlloc[k]? = some p → ¬ r.Passes k → s'.objectsAlloc[k]? = some p
  holds : ∀ (k : Nat) (p : Ptr), s.objectsAlloc[k]? = some p → (s'.Holds p ↔ r.Arrives s.objectsAlloc k)
  held : ∀ p, s'.Holds p → s.Holds p

theorem step_reported (hd : s.isDeallocEnable = true) (ht : Tracked s) (r : Report) :
    ∃ s', step s r.callback = .ok s' ∧ Reported s r s' := by
  cases r with
  | moved ranges =>
    obtain ⟨objects', m', hok, hmarked, hget⟩ := movedReferences_get ranges hd ht.live
    refine ⟨_, hok, rfl, hmarked, fun k p hk hno => ?_, fun k p hk => ⟨?_, fun harr => ?_⟩, ?_⟩
    · exact (hget k p).2 (.inl ⟨fun r hr hpass => hno ⟨r, hr, hpass⟩, hk⟩)
    · rintro ⟨a, ha⟩
      rcases (hget a p).1 ha with ⟨hno, hp⟩ | ⟨k', hp, -, harr⟩
      · obtain rfl := ht.one k a p hk hp
        intro t hdest
        rw [destination_eq_none.2 hno] at hdest
        cases hdest
      · obtain rfl := ht.one k k' p hk hp
        exact harr
    · by_cases hpass : ∃ r ∈ ranges, r.Passes k
      · obtain ⟨a, ha⟩ := destination_isSome.2 hpass
        exact ⟨a, (hget a p).2 (.inr ⟨k, hk, ha, harr⟩)⟩
      · exact ⟨k, (hget k p).2 (.inl ⟨fun r hr h => hpass ⟨r, hr, h⟩, hk⟩)⟩
    · rintro p ⟨a, ha⟩
      rcases (hget a p).1 ha with ⟨-, hp⟩ | ⟨k, hp, -⟩
      · exact ⟨a, hp⟩
      · exact ⟨k, hp⟩
  | surviving ranges =>
    obtain ⟨objects', hok, hmarked⟩ := survivingReferences_spec ranges hd ht.live
    exact ⟨_, hok, rfl, hmarked, fun k p hk _ => hk, fun k p hk => ⟨fun _ => trivial, fun _ => ⟨k, hk⟩⟩,
      fun p hp => hp⟩

/-- The record is found free space by every call of `MovedReferences` in the report. -/
def ArrivesThroughout (p : Ptr) (s : CoreProfiler) (reports : List Report) : Prop :=
  ∀ before r after s₁, reports = before ++ r :: after → run step s (before.map Report.callback) = .ok s₁ →
    ∀ k : Nat, s₁.objectsAlloc[k]? = some p → r.Arrives s₁.objectsAlloc k

theorem arrivesThroughout_cons (h : step s r.callback = .ok s') : ArrivesThroughout p s (r :: reports) ↔
    (∀ k : Nat, s.objectsAlloc[k]? = some p → r.Arrives s.objectsAlloc k) ∧ ArrivesThroughout p s' reports := by
  constructor
  · intro hall
    refine ⟨hall [] r reports s rfl rfl, fun before r' after s₁ hsplit hrun => ?_⟩
    exact hall (r :: before) r' after s₁ (by rw [hsplit]; rfl) (run_cons.2 ⟨s', h, hrun⟩)
  · rintro ⟨hfirst, hrest⟩ before r' after s₁ hsplit hrun
    cases before with
    | nil =>
      obtain ⟨rfl, rfl⟩ := List.cons.inj hsplit
      obtain rfl : s = s₁ := Except.ok.inj hrun
      exact hfirst
    | cons r'' before =>
      obtain ⟨rfl, hreports⟩ := List.cons.inj hsplit
      obtain ⟨s₂, hstep, hrun⟩ := run_cons.1 hrun
      obtain rfl := Except.ok.inj (h.symm.trans hstep)
      exact hrest before r' after s₁ hreports hrun

/-- The mark of the current collection on a record. -/
def CoreProfiler.Current (s : CoreProfiler) (p : Ptr) : Prop := outdated s.gcNumber s.objects p = false

theorem Reported.current (h : Reported s r s') (hk : s.Current p) : s'.Current p := by
  unfold CoreProfiler.Current outdated at *
  rw [h.gcNumber]
  rcases h.marked.cases p with ⟨-, -, -, hmark⟩ | hsame
  · rw [hmark]
    cases s.objects.get? p <;> simp [ObjectClass.mark]
  · rw [hsame]
    exact hk

theorem Reported.passed (h : Reported s r s') (hk : s.objectsAlloc[k]? = some p) (hpass : r.Passes k) :
    s'.Current p := by
  unfold CoreProfiler.Current outdated
  rw [h.gcNumber, h.marked.marked k p hk hpass]
  cases s.objects.get? p <;> simp [ObjectClass.mark]

theorem Reported.unpassed (h : Reported s r s') (ht : Tracked s) (hk : s.objectsAlloc[k]? = some p)
    (hpass : ¬ r.Passes k) : s'.Current p ↔ s.Current p := by
  unfold CoreProfiler.Current outdated
  rw [h.gcNumber, h.marked.same p fun k' hk' => by rwa [ht.one k' k p hk' hk]]

/-- The state between two calls of the report. -/
structure Reporting (s : CoreProfiler) : Prop where
  alive : s.Alive
  on : s.isDeallocEnable = true
  tracked : Tracked s

theorem Reporting.step (hi : Reporting s) (h : Perun.step s r.callback = .ok s') : Reporting s' :=
  ⟨hi.alive.step h, (step_isDeallocEnable h).trans hi.on, hi.tracked.step hi.alive.info h⟩

theorem run_reports_ok (hi : Reporting s) (reports : List Report) :
    ∃ s', run step s (reports.map Report.callback) = .ok s' ∧ Reporting s' := by
  induction reports generalizing s with
  | nil => exact ⟨s, rfl, hi⟩
  | cons r reports ih =>
    obtain ⟨s₁, hstep, -⟩ := step_reported hi.on hi.tracked r
    obtain ⟨s', hrun, hi'⟩ := ih (hi.step hstep)
    exact ⟨s', run_cons.2 ⟨s₁, hstep, hrun⟩, hi'⟩

theorem run_reports_lost (hi : Reporting s) (hrun : run step s (reports.map Report.callback) = .ok s')
    (hp : ¬ s.Holds p) : ¬ s'.Holds p := by
  induction reports generalizing s with
  | nil =>
    obtain rfl : s = s' := Except.ok.inj hrun
    exact hp
  | cons r reports ih =>
    obtain ⟨s₁, hstep, hrun⟩ := run_cons.1 hrun
    obtain ⟨s₂, hstep₂, hrep⟩ := step_reported hi.on hi.tracked r
    obtain rfl := Except.ok.inj (hstep.symm.trans hstep₂)
    exact ih (hi.step hstep) hrun fun h => hp (hrep.held p h)

/-- A record is held after the report exactly when no call loses it. -/
theorem run_reports_holds (hi : Reporting s) (hrun : run step s (reports.map Report.callback) = .ok s')
    (hk : s.objectsAlloc[k]? = some p) : s'.Holds p ↔ ArrivesThroughout p s reports := by
  induction reports generalizing s k with
  | nil =>
    obtain rfl : s = s' := Except.ok.inj hrun
    refine iff_of_true ⟨k, hk⟩ fun before r after s₁ hsplit => ?_
    simp at hsplit
  | cons r reports ih =>
    obtain ⟨s₁, hstep, hrun⟩ := run_cons.1 hrun
    obtain ⟨s₂, hstep₂, hrep⟩ := step_reported hi.on hi.tracked r
    obtain rfl := Except.ok.inj (hstep.symm.trans hstep₂)
    have harr : (∀ k : Nat, s.objectsAlloc[k]? = some p → r.Arrives s.objectsAlloc k) ↔ s₁.Holds p := by
      rw [hrep.holds k p hk]
      exact ⟨fun h => h k hk, fun h k' hk' => by rwa [hi.tracked.one k' k p hk' hk]⟩
    rw [arrivesThroughout_cons hstep, harr]
    constructor
    · intro h
      have hheld : s₁.Holds p := by
        by_contra hno
        exact run_reports_lost (hi.step hstep) hrun hno h
      obtain ⟨a, ha⟩ := hheld
      exact ⟨⟨a, ha⟩, (ih (hi.step hstep) hrun ha).1 h⟩
    · rintro ⟨⟨a, ha⟩, hall⟩
      exact (ih (hi.step hstep) hrun ha).2 hall

theorem run_reports_current (hi : Reporting s) (hrun : run step s (reports.map Report.callback) = .ok s')
    (hp : s.Current p) : s'.Current p := by
  induction reports generalizing s with
  | nil =>
    obtain rfl : s = s' := Except.ok.inj hrun
    exact hp
  | cons r reports ih =>
    obtain ⟨s₁, hstep, hrun⟩ := run_cons.1 hrun
    obtain ⟨s₂, hstep₂, hrep⟩ := step_reported hi.on hi.tracked r
    obtain rfl := Except.ok.inj (hstep.symm.trans hstep₂)
    exact ih (hi.step hstep) hrun (hrep.current hp)

/-- A record without the mark has it after the report exactly when a call lets its address through:
the address is the same until then. -/
theorem run_reports_current_iff (hi : Reporting s) (hrun : run step s (reports.map Report.callback) = .ok s')
    (hk : s.objectsAlloc[k]? = some p) (hp : ¬ s.Current p) : s'.Current p ↔ ∃ r ∈ reports, r.Passes k := by
  induction reports generalizing s with
  | nil =>
    obtain rfl : s = s' := Except.ok.inj hrun
    simpa using hp
  | cons r reports ih =>
    obtain ⟨s₁, hstep, hrun⟩ := run_cons.1 hrun
    obtain ⟨s₂, hstep₂, hrep⟩ := step_reported hi.on hi.tracked r
    obtain rfl := Except.ok.inj (hstep.symm.trans hstep₂)
    by_cases hpass : r.Passes k
    · refine iff_of_true ?_ ⟨r, by simp, hpass⟩
      exact run_reports_current (hi.step hstep) hrun (hrep.passed hk hpass)
    · rw [ih (hi.step hstep) hrun (hrep.stays k p hk hpass) (mt (hrep.unpassed hi.tracked hk hpass).1 hp)]
      simp [hpass]

theorem garbageCollectionFinished_remains {t : ThreadID} {now : Clock} (hi : Reporting s)
    (h : garbageCollectionFinished t now s = .ok s') : Remains s' p ↔ s.Holds p ∧ s.Current p := by
  obtain ⟨m', hok, hget⟩ := garbageCollectionFinished_spec t now hi.alive.info hi.on hi.tracked.live
  obtain rfl := Except.ok.inj (h.symm.trans hok)
  constructor
  · rintro ⟨⟨k, hk⟩, -⟩
    obtain ⟨hp, hcur⟩ := (hget k p).1 hk
    exact ⟨⟨k, hp⟩, hcur⟩
  · rintro ⟨⟨k, hk⟩, hcur⟩
    refine ⟨⟨k, (hget k p).2 ⟨hk, hcur⟩⟩, fun hp => ?_⟩
    rcases List.mem_append.1 hp with hp | hp
    · exact hi.tracked.disjoint p hp k hk
    · obtain ⟨e, he, rfl⟩ := List.mem_map.1 hp
      have hout := (List.mem_filter.1 he).2
      rw [CoreProfiler.Current, hout] at hcur
      cases hcur

end report

/-- A collection whose report has the addresses of the collected generations only keeps a record of
another generation exactly when a call of `MovedReferences` lets its address through all the same and
no call loses it. -/
theorem cycle_remains_iff {s : CoreProfiler} (hl : Lifetime s) (ha : s.Alive) (hd : s.isDeallocEnable = true)
    (generation : Nat → Generation) {generationCollected : Generations} {reports : List Report}
    (hreports : ∀ r ∈ reports, ∀ k, r.Holds k → generationCollected.collected (generation k) = true)
    (t : ThreadID) (now now' : Clock) :
    ∃ s₀ s', step s (.garbageCollectionStarted generationCollected t now) = .ok s₀ ∧
      run step s (cycle generationCollected reports t now now') = .ok s' ∧
      ∀ (k : Nat) (p : Ptr), s.objectsAlloc[k]? = some p → generationCollected.collected (generation k) = false →
        (Remains s' p ↔
          (∃ ranges, .moved ranges ∈ reports ∧ ∃ r ∈ ranges, r.Passes k) ∧ ArrivesThroughout p s₀ reports) := by
  obtain ⟨s₀, hstart⟩ : ∃ s₀, step s (.garbageCollectionStarted generationCollected t now) = .ok s₀ :=
    ⟨_, by rw [step, garbageCollectionStarted, if_pos ha.info]⟩
  have hi : Reporting s := ⟨ha, hd, hl.tracked⟩
  have hi₀ : Reporting s₀ :=
    ⟨ha.step hstart, (step_isDeallocEnable hstart).trans hd, hl.tracked.step ha.info hstart⟩
  obtain ⟨s₁, hrun, hi₁⟩ := run_reports_ok hi₀ reports
  obtain ⟨s', hfinish, -⟩ := hi₁.tracked.garbageCollectionFinished t now' hi₁.alive.info
  refine ⟨s₀, s', hstart, ?_, fun k p hk hgen => ?_⟩
  · exact run_cons.2 ⟨s₀, hstart, run_append.2 ⟨s₁, hrun, run_cons.2 ⟨s', hfinish, run_nil⟩⟩⟩
  have hs₀ := garbageCollectionStarted_cases hstart
  have hk₀ : s₀.objectsAlloc[k]? = some p := by rw [hs₀]; exact hk
  -- the collection counts one more, so no record has its mark yet
  have hold : ¬ s₀.Current p := by
    obtain ⟨object, hobject⟩ := Option.isSome_iff_exists.1 (hl.tracked.live k p hk)
    have hage := (hl.ages p object hobject).2
    rw [hs₀]
    simp only [CoreProfiler.Current, outdated, hobject, Option.any_some, decide_eq_false_iff_not, not_not]
    omega
  -- no range of survivors has the address
  have hmoved : (∃ r ∈ reports, r.Passes k) ↔ ∃ ranges, .moved ranges ∈ reports ∧ ∃ r ∈ ranges, r.Passes k := by
    constructor
    · rintro ⟨_ | ranges, hr, hpass⟩
      · exact ⟨_, hr, hpass⟩
      · obtain ⟨r, hmem, hlo, hhi⟩ := hpass
        have hhold : Report.Holds (.surviving ranges) k := ⟨r, hmem, hlo, hhi.trans_le (Nat.mod_le _ _)⟩
        rw [hreports _ hr k hhold] at hgen
        cases hgen
    · rintro ⟨ranges, hr, hpass⟩
      exact ⟨_, hr, hpass⟩
  rw [garbageCollectionFinished_remains hi₁ hfinish, run_reports_holds hi₀ hrun hk₀,
    run_reports_current_iff hi₀ hrun hk₀ hold, hmoved, and_comm]

/-- An object at 100 that has survived a full collection, in the state after it. -/
def survivedOnce : List Callback :=
  [.objectAllocated 100 5 (some 24) 1 ⟨1, 1⟩, .garbageCollectionStarted ⟨true, true, true⟩ 2 ⟨2, 2⟩,
    .survivingReferences [⟨100, 50⟩], .garbageCollectionFinished 2 ⟨3, 3⟩]

/-- Generation 1 is below 200 and generation 0 above it. -/
theorem cycle_remains_iff_young :
    ∃ s, run step Config.dealloc.start survivedOnce = .ok s ∧
      ∃ s₀ s', step s (.garbageCollectionStarted ⟨true, false, false⟩ 2 ⟨4, 4⟩) = .ok s₀ ∧
        run step s (cycle ⟨true, false, false⟩ [.moved [⟨200, 300, 50⟩], .surviving [⟨250, 50⟩]] 2 ⟨4, 4⟩ ⟨5, 5⟩) =
          .ok s' ∧
        ∀ (k : Nat) (p : Ptr), s.objectsAlloc[k]? = some p →
          Generations.collected ⟨true, false, false⟩ (if k < 200 then .gen1 else .gen0) = false →
          (Remains s' p ↔
            (∃ ranges, Report.moved ranges ∈ [.moved [⟨200, 300, 50⟩], .surviving [⟨250, 50⟩]] ∧
              ∃ r ∈ ranges, r.Passes k) ∧
            ArrivesThroughout p s₀ [.moved [⟨200, 300, 50⟩], .surviving [⟨250, 50⟩]]) := by
  obtain ⟨s, hs⟩ : ∃ s, run step Config.dealloc.start survivedOnce = .ok s := ⟨_, rfl⟩
  obtain ⟨ha, hd, hl⟩ := (Lifetime.start .dealloc).run ⟨rfl, rfl⟩ rfl hs
  refine ⟨s, hs, cycle_remains_iff hl ha hd (fun k => if k < 200 then .gen1 else .gen0) ?_ 2 ⟨4, 4⟩ ⟨5, 5⟩⟩
  intro r hr k hhold
  have hk : 200 ≤ k := by
    rcases List.mem_cons.1 hr with rfl | hr
    · obtain ⟨r, hr, h1, -⟩ := hhold
      rw [List.mem_singleton] at hr
      subst hr
      exact h1
    · rw [List.mem_singleton] at hr
      subst hr
      obtain ⟨r, hr, h1, -⟩ := hhold
      rw [List.mem_singleton] at hr
      subst hr
      exact (show 200 ≤ 250 by omega).trans h1
  simp [Nat.not_lt.2 hk, Generations.collected]

/-- The next collection is of generation 0 only and finds nothing there: the object, which is in
generation 1, is taken for dead. -/
theorem young_collection_drops :
    ∃ s s', run step Config.dealloc.start survivedOnce = .ok s ∧ s.objectsAlloc[100]? = some 0 ∧
      run step s (cycle ⟨true, false, false⟩ [] 2 ⟨4, 4⟩ ⟨5, 5⟩) = .ok s' ∧
      Generations.collected ⟨true, false, false⟩ .gen1 = false ∧ s'.objectsAlloc[100]? = none ∧
      0 ∈ s'.objectsDeAlloc ∧ ¬ Remains s' 0 :=
  ⟨_, _, rfl, by decide, rfl, rfl, by decide, by decide, fun h => h.2 (by decide)⟩

end Perun
