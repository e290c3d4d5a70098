import PerunProfiler.Callbacks
import PerunProfiler.Rekey

/-!
# The records of objects that are held

`Tracked s`: the pointers in `m_objectsAlloc` and `m_objectsDeAlloc` are live, no record is held
twice. Every callback keeps it, so the callbacks about objects never fault.
-/

namespace Perun
open Lib

structure Tracked (s : CoreProfiler) : Prop where
  live : ∀ (k : Nat) (p : Ptr), s.objectsAlloc[k]? = some p → (s.objects.get? p).isSome
  one : OneAddress s.objectsAlloc
  deadLive : ∀ p ∈ s.objectsDeAlloc, (s.objects.get? p).isSome
  deadNodup : s.objectsDeAlloc.Nodup
  disjoint : ∀ p ∈ s.objectsDeAlloc, ∀ k : Nat, s.objectsAlloc[k]? ≠ some p

/-- The record carries an older mark than `gcNumber`. -/
def outdated (gcNumber : Nat) (objects : Heap ObjectClass) (p : Ptr) : Bool :=
  (objects.get? p).any fun object => object.untilGcNumber ≠ gcNumber

theorem run_collectEntry (gcNumber : Nat) {objects : Heap ObjectClass} {entries : List (Nat × Ptr)}
    (ps : List Ptr) (ks : List Nat) (hlive : ∀ e ∈ entries, (objects.get? e.2).isSome) :
    run (collectEntry gcNumber objects) (ps, ks) entries =
      .ok (ps ++ (entries.filter fun e => outdated gcNumber objects e.2).map Prod.snd,
        ks ++ (entries.filter fun e => outdated gcNumber objects e.2).map Prod.fst) := by
  induction entries generalizing ps ks with
  | nil => simp
  | cons e entries ih =>
    obtain ⟨object, hobject⟩ := Option.isSome_iff_exists.1 (hlive e (by simp))
    have hrest : ∀ e ∈ entries, (objects.get? e.2).isSome := fun e he => hlive e (List.mem_cons_of_mem _ he)
    have hout : outdated gcNumber objects e.2 = decide (object.untilGcNumber ≠ gcNumber) := by
      simp [outdated, hobject]
    refine run_cons.2 ⟨_, by rw [collectEntry, deref_ok.2 hobject], ?_⟩
    by_cases h : object.untilGcNumber = gcNumber
    · rw [if_neg (by simpa using h), ih _ _ hrest, List.filter_cons_of_neg (by simp [hout, h])]
    · rw [if_pos h, ih _ _ hrest, List.filter_cons_of_pos (by simp [hout, h])]
      simp

/-! ### What the callbacks do to the records of objects -/

section spec
variable {s : CoreProfiler}

theorem movedReferences_spec (ranges : List MovedRange) (hd : s.isDeallocEnable = true)
    (hlive : ∀ (k : Nat) (p : Ptr), s.objectsAlloc[k]? = some p → (s.objects.get? p).isSome) :
    ∃ tmpMap objects' m', movedReferences ranges s = .ok { s with objects := objects', objectsAlloc := m' } ∧
      rekey tmpMap s.objectsAlloc = .ok m' ∧ (∀ k ∈ tmpMap, k ∈ s.objectsAlloc) ∧
      (∀ k : Nat, tmpMap[k]? = s.objectsAlloc[k]?.bind fun _ =>
        ((ranges.filter (·.Passes k)).getLast?).map (·.target k)) ∧
      Marked s.gcNumber s.objectsAlloc (fun k => ∃ r ∈ ranges, r.Passes k) s.objects objects' := by
  obtain ⟨tmpMap, objects', hmark, hmarked, htmp⟩ := markMoved_spec s.gcNumber ranges hlive
  have hkeys : ∀ k ∈ tmpMap, k ∈ s.objectsAlloc := by
    intro k hk
    obtain ⟨t, ht⟩ := Option.isSome_iff_exists.1 (Std.ExtTreeMap.mem_iff_isSome_getElem?.1 hk)
    rw [htmp] at ht
    obtain ⟨p, hp, -⟩ := Option.bind_eq_some_iff.1 ht
    rw [Std.ExtTreeMap.mem_iff_isSome_getElem?, hp]
    rfl
  obtain ⟨m', hrekey, -⟩ := rekey_get hkeys
  refine ⟨tmpMap, objects', m', ?_, hrekey, hkeys, htmp, hmarked⟩
  rw [movedReferences, if_pos hd]
  simp only [hmark, hrekey]

theorem survivingReferences_spec (ranges : List SurvivingRange) (hd : s.isDeallocEnable = true)
    (hlive : ∀ (k : Nat) (p : Ptr), s.objectsAlloc[k]? = some p → (s.objects.get? p).isSome) :
    ∃ objects', survivingReferences ranges s = .ok { s with objects := objects' } ∧
      Marked s.gcNumber s.objectsAlloc (fun k => ∃ r ∈ ranges, r.Passes k) s.objects objects' := by
  obtain ⟨objects', hmark, hmarked⟩ := markSurviving_spec s.gcNumber ranges hlive
  refine ⟨objects', ?_, hmarked⟩
  rw [survivingReferences, if_pos hd]
  simp only [hmark]

/-- The outdated records go to `m_objectsDeAlloc`, the others stay where they are. -/
theorem garbageCollectionFinished_spec (t : ThreadID) (now : Clock) (ha : s.info = true)
    (hd : s.isDeallocEnable = true)
    (hlive : ∀ (k : Nat) (p : Ptr), s.objectsAlloc[k]? = some p → (s.objects.get? p).isSome) :
    ∃ m', garbageCollectionFinished t now s = .ok { s with
        log := s.log ++ [gcFinishedMessage s.gcNumber t now]
        objectsDeAlloc := s.objectsDeAlloc ++
          (s.objectsAlloc.toList.filter fun e => outdated s.gcNumber s.objects e.2).map Prod.snd
        objectsAlloc := m' } ∧
      ∀ (k : Nat) (p : Ptr), m'[k]? = some p ↔
        s.objectsAlloc[k]? = some p ∧ outdated s.gcNumber s.objects p = false := by
  have hentry : ∀ {k : Nat} {p : Ptr}, (k, p) ∈ s.objectsAlloc.toList ↔ s.objectsAlloc[k]? = some p :=
    Std.ExtTreeMap.mem_toList_iff_getElem?_eq_some
  have hcollect := run_collectEntry s.gcNumber s.objectsDeAlloc [] fun e he => hlive e.1 e.2 (hentry.1 he)
  refine ⟨_, by rw [garbageCollectionFinished, if_pos ha]; simp only [hd, if_true, hcollect, List.nil_append]; rfl,
    fun k p => ?_⟩
  rw [Map.getElem?_foldl_erase]
  have hdead : ∀ {p : Ptr}, s.objectsAlloc[k]? = some p →
      (k ∈ (s.objectsAlloc.toList.filter fun e => outdated s.gcNumber s.objects e.2).map Prod.fst ↔
        outdated s.gcNumber s.objects p = true) := by
    intro p hp
    simp only [List.mem_map, List.mem_filter]
    constructor
    · rintro ⟨⟨k', q⟩, ⟨hm, hq⟩, rfl⟩
      rwa [← Option.some.inj ((hentry.1 hm).symm.trans hp)]
    · exact fun hq => ⟨(k, p), ⟨hentry.2 hp, hq⟩, rfl⟩
  constructor
  · intro h
    split at h
    · cases h
    · next hno => exact ⟨h, by simpa using mt (hdead h).2 hno⟩
  · rintro ⟨hp, hq⟩
    rw [if_neg fun hm => ?_, hp]
    rw [(hdead hp).1 hm] at hq
    cases hq

end spec

/-- The records of objects and where they are held. -/
def CoreProfiler.tracking (s : CoreProfiler) : Heap ObjectClass × Map Ptr × List Ptr :=
  (s.objects, s.objectsAlloc, s.objectsDeAlloc)

namespace Tracked
variable {s s' : CoreProfiler} {e : Callback}

theorem congr (h : Tracked s) (hs : s'.tracking = s.tracking) : Tracked s' := by
  simp only [CoreProfiler.tracking, Prod.mk.injEq] at hs
  obtain ⟨h1, h2, h3⟩ := hs
  exact ⟨by rw [h1, h2]; exact h.live, by rw [h2]; exact h.one, by rw [h1, h3]; exact h.deadLive,
    by rw [h3]; exact h.deadNodup, by rw [h2, h3]; exact h.disjoint⟩

theorem mark {objects' : Heap ObjectClass} (h : Tracked s)
    (ho : ∀ p, (s.objects.get? p).isSome → (objects'.get? p).isSome) : Tracked { s with objects := objects' } :=
  ⟨fun k p hk => ho p (h.live k p hk), h.one, fun p hp => ho p (h.deadLive p hp), h.deadNodup, h.disjoint⟩

theorem movedReferences (ranges : List MovedRange) (h : Tracked s) :
    ∃ s', Perun.movedReferences ranges s = .ok s' ∧ Tracked s' := by
  cases hd : s.isDeallocEnable with
  | false => exact ⟨s, by rw [Perun.movedReferences, if_neg (by simp [hd])], h⟩
  | true =>
    obtain ⟨tmpMap, objects', m', hok, hrekey, hkeys, -, hmarked⟩ := movedReferences_spec ranges hd h.live
    obtain ⟨hsub, hone⟩ := rekey_oneAddress hkeys h.one hrekey
    have hlive : ∀ p, (s.objects.get? p).isSome → (objects'.get? p).isSome := fun p hp => by
      rw [hmarked.isSome]
      exact hp
    refine ⟨_, hok, fun k p hk => ?_, hone, fun p hp => hlive p (h.deadLive p hp), h.deadNodup,
      fun p hp k hk => ?_⟩
    · obtain ⟨b, hb⟩ := hsub k p hk
      exact hlive p (h.live b p hb)
    · obtain ⟨b, hb⟩ := hsub k p hk
      exact h.disjoint p hp b hb

theorem survivingReferences (ranges : List SurvivingRange) (h : Tracked s) :
    ∃ s', Perun.survivingReferences ranges s = .ok s' ∧ Tracked s' := by
  cases hd : s.isDeallocEnable with
  | false => exact ⟨s, by rw [Perun.survivingReferences, if_neg (by simp [hd])], h⟩
  | true =>
    obtain ⟨objects', hok, hmarked⟩ := survivingReferences_spec ranges hd h.live
    refine ⟨_, hok, h.mark fun p hp => ?_⟩
    rw [hmarked.isSome]
    exact hp

theorem objectAllocated {o : Nat} {c : ClassID} {z : Option Nat} {t : ThreadID} {now : Clock} (h : Tracked s)
    (hs : Perun.objectAllocated o c z t now s = .ok s') : Tracked s' := by
  rcases objectAllocated_cases hs with ⟨-, rfl⟩ | ⟨z, -, rfl⟩
  · exact h.congr rfl
  -- a held record is older than the new one
  have hold : ∀ p, (s.objects.get? p).isSome → p ≠ s.objects.size ∧
      ((s.objects.alloc (newObject o c z t now s)).get? p).isSome := by
    intro p hp
    obtain ⟨object, hobject⟩ := Option.isSome_iff_exists.1 hp
    exact ⟨Nat.ne_of_lt (Heap.lt_size hobject), by rw [Heap.get?_alloc_of_some hobject]; rfl⟩
  have hget : ∀ (k : Nat) (p : Ptr), (s.objectsAlloc.insert o s.objects.size)[k]? = some p →
      (k = o ∧ p = s.objects.size) ∨ (k ≠ o ∧ s.objectsAlloc[k]? = some p) := by
    intro k p hk
    rw [Std.ExtTreeMap.getElem?_insert] at hk
    split at hk
    · next ho => exact .inl ⟨(by simpa using ho : o = k).symm, (Option.some.inj hk).symm⟩
    · next ho => exact .inr ⟨fun h => ho (by simp [h]), hk⟩
  refine ⟨fun k p hk => ?_, fun k k' p hk hk' => ?_, fun p hp => (hold p (h.deadLive p hp)).2, h.deadNodup,
    fun p hp k hk => ?_⟩
  · rcases hget k p hk with ⟨-, rfl⟩ | ⟨-, hk⟩
    · simp
    · exact (hold p (h.live k p hk)).2
  · rcases hget k p hk with ⟨ho, hp⟩ | ⟨-, hold₁⟩ <;> rcases hget k' p hk' with ⟨ho', hp'⟩ | ⟨-, hold₂⟩
    · exact ho.trans ho'.symm
    · exact absurd hp (hold p (h.live k' p hold₂)).1
    · exact absurd hp' (hold p (h.live k p hold₁)).1
    · exact h.one k k' p hold₁ hold₂
  · rcases hget k p hk with ⟨-, rfl⟩ | ⟨-, hk⟩
    · exact (hold _ (h.deadLive _ hp)).1 rfl
    · exact h.disjoint p hp k hk

theorem garbageCollectionFinished (t : ThreadID) (now : Clock) (ha : s.info = true) (h : Tracked s) :
    ∃ s', Perun.garbageCollectionFinished t now s = .ok s' ∧ Tracked s' := by
  cases hd : s.isDeallocEnable with
  | false =>
    have ht : Tracked { s with log := s.log ++ [gcFinishedMessage s.gcNumber t now] } := h.congr rfl
    refine ⟨_, ?_, ht⟩
    rw [Perun.garbageCollectionFinished, if_pos ha]
    simp [hd]
  | true =>
    obtain ⟨m', hok, hget⟩ := garbageCollectionFinished_spec t now ha hd h.live
    obtain ⟨dead, hdead⟩ : ∃ dead, s.objectsAlloc.toList.filter
      (fun e => outdated s.gcNumber s.objects e.2) = dead := ⟨_, rfl⟩
    rw [hdead] at hok
    -- the collected entries are entries of the map
    have hsub : ∀ e ∈ dead, s.objectsAlloc[e.1]? = some e.2 ∧ outdated s.gcNumber s.objects e.2 = true := by
      intro e he
      rw [← hdead, List.mem_filter] at he
      exact ⟨Std.ExtTreeMap.mem_toList_iff_getElem?_eq_some.1 he.1, he.2⟩
    refine ⟨_, hok, fun k p hk => h.live k p ((hget k p).1 hk).1,
      fun k k' p hk hk' => h.one k k' p ((hget k p).1 hk).1 ((hget k' p).1 hk').1, fun p hp => ?_, ?_,
      fun p hp k hk => ?_⟩
    · rcases List.mem_append.1 hp with hp | hp
      · exact h.deadLive p hp
      · obtain ⟨e, he, rfl⟩ := List.mem_map.1 hp
        exact h.live e.1 e.2 (hsub e he).1
    · have hnd : (dead.map Prod.snd).Nodup := by
        refine List.Nodup.map_on (fun e he e' he' heq => ?_) ?_
        · have hk := h.one e.1 e'.1 e.2 (hsub e he).1 (by rw [heq]; exact (hsub e' he').1)
          exact Prod.ext hk heq
        · rw [← hdead]
          exact (s.objectsAlloc.nodup_keys.of_map _).filter _
      refine List.nodup_append.2 ⟨h.deadNodup, hnd, fun p hp q hq hpq => ?_⟩
      obtain ⟨e, he, rfl⟩ := List.mem_map.1 hq
      exact h.disjoint p hp e.1 (by rw [hpq]; exact (hsub e he).1)
    · obtain ⟨hk, hno⟩ := (hget k p).1 hk
      rcases List.mem_append.1 hp with hp | hp
      · exact h.disjoint p hp k hk
      · obtain ⟨e, he, rfl⟩ := List.mem_map.1 hp
        rw [(hsub e he).2] at hno
        cases hno

theorem step (ha : s.info = true) (h : Tracked s) (hs : Perun.step s e = .ok s') : Tracked s' := by
  by_cases hc : e.isCall = true
  · exact h.congr (congrArg CoreProfiler.tracking (step_besides hc hs) :)
  cases e with
  | mapper2 f m => rcases mapper2_cases hs with rfl | rfl <;> exact h.congr rfl
  | classLoadFinished c i p => rcases classLoadFinished_cases hs with rfl | rfl <;> exact h.congr rfl
  | objectAllocated o c z t now => exact h.objectAllocated hs
  | movedReferences r =>
    obtain ⟨s₁, hok, ht⟩ := h.movedReferences r
    rwa [Except.ok.inj (hs.symm.trans hok)]
  | survivingReferences r =>
    obtain ⟨s₁, hok, ht⟩ := h.survivingReferences r
    rwa [Except.ok.inj (hs.symm.trans hok)]
  | garbageCollectionStarted g t now => rw [garbageCollectionStarted_cases hs]; exact h.congr rfl
  | garbageCollectionFinished t now =>
    obtain ⟨s₁, hok, ht⟩ := h.garbageCollectionFinished t now ha
    rwa [Except.ok.inj (hs.symm.trans hok)]
  | _ => exact absurd rfl hc

end Tracked

theorem Reachable.tracked {s : CoreProfiler} (h : Reachable s) : Tracked s := by
  have hinv := h.inv (P := fun s => s.Alive ∧ Tracked s) (fun c => ⟨(Reachable.start c).alive, ?_⟩)
    fun s e s' ⟨ha, ht⟩ hs => ⟨ha.step hs, ht.step ha.info hs⟩
  · exact hinv.2
  · constructor <;> simp [Config.start, initializeProfiler, construct, OneAddress]

/-! ### What `Shutdown` writes of them -/

theorem run_serializeObject (adjust : ObjectClass → ObjectClass) (objects : Heap ObjectClass) {ps : List Ptr}
    (records : List ObjectRecord) (hnd : ps.Nodup) (hlive : ∀ p ∈ ps, (objects.get? p).isSome) :
    ∃ objects', run (serializeObject adjust) (records, objects) ps =
        .ok (records ++ ps.filterMap fun p => (objects.get? p).map fun object => (adjust object).record, objects') ∧
      ∀ q, objects'.get? q = if q ∈ ps then none else objects.get? q := by
  induction ps generalizing records objects with
  | nil => exact ⟨objects, by simp, by simp⟩
  | cons p ps ih =>
    obtain ⟨hp, hnd⟩ := List.nodup_cons.1 hnd
    obtain ⟨object, hobject⟩ := Option.isSome_iff_exists.1 (hlive p (by simp))
    have hrest : ∀ q ∈ ps, (objects.free p).get? q = objects.get? q := fun q hq => by
      rw [Heap.get?_free, if_neg fun (h : q = p) => hp (h ▸ hq)]
    obtain ⟨objects', hrun, hget⟩ := ih (objects.free p) (records ++ [(adjust object).record]) hnd
      fun q hq => by rw [hrest q hq]; exact hlive q (List.mem_cons_of_mem _ hq)
    refine ⟨objects', run_cons.2 ⟨_, by rw [serializeObject, deref_ok.2 hobject], ?_⟩, fun q => ?_⟩
    · rw [hrun, List.filterMap_cons_some (b := (adjust object).record) (by rw [hobject]; rfl), List.append_assoc,
        List.filterMap_congr fun q hq => by rw [hrest q hq]]
      rfl
    · rw [hget, Heap.get?_free]
      by_cases hq : q = p
      · simp [hq]
      · simp [hq]

/-- The records that are held, the dead ones first. -/
def CoreProfiler.heldRecords (s : CoreProfiler) : List Ptr :=
  s.objectsDeAlloc ++ s.objectsAlloc.toList.map Prod.snd

theorem CoreProfiler.mem_heldRecords {s : CoreProfiler} {p : Ptr} :
    p ∈ s.heldRecords ↔ p ∈ s.objectsDeAlloc ∨ ∃ k : Nat, s.objectsAlloc[k]? = some p := by
  simp only [heldRecords, List.mem_append, List.mem_map, Prod.exists, Std.ExtTreeMap.mem_toList_iff_getElem?_eq_some,
    exists_eq_right]

theorem Tracked.nodup_heldRecords {s : CoreProfiler} (h : Tracked s) : s.heldRecords.Nodup := by
  refine List.nodup_append.2 ⟨h.deadNodup, ?_, fun p hp q hq hpq => ?_⟩
  · refine (s.objectsAlloc.nodup_keys.of_map _).map_on fun e he e' he' heq => ?_
    have hk := Std.ExtTreeMap.mem_toList_iff_getElem?_eq_some.1 (show (e.1, e.2) ∈ _ from he)
    have hk' := Std.ExtTreeMap.mem_toList_iff_getElem?_eq_some.1 (show (e'.1, e'.2) ∈ _ from he')
    exact Prod.ext (h.one e.1 e'.1 e.2 hk (by rw [heq]; exact hk')) heq
  · obtain ⟨e, he, rfl⟩ := List.mem_map.1 hq
    exact h.disjoint p hp e.1 (by rw [hpq]; exact Std.ExtTreeMap.mem_toList_iff_getElem?_eq_some.1 he)

theorem Tracked.heldRecords_live {s : CoreProfiler} (h : Tracked s) :
    ∀ p ∈ s.heldRecords, (s.objects.get? p).isSome := by
  intro p hp
  rcases CoreProfiler.mem_heldRecords.1 hp with hp | ⟨k, hk⟩
  · exact h.deadLive p hp
  · exact h.live k p hk

/-- The objects section is written without a fault, the dead objects first; it deletes what is held. -/
theorem Tracked.objectsSection {s : CoreProfiler} (h : Tracked s) :
    ∃ objects', Perun.objectsSection s = .ok
      (s.objectsDeAlloc.filterMap (fun p => (s.objects.get? p).map ObjectClass.record) ++
        (s.objectsAlloc.toList.map Prod.snd).filterMap fun p =>
          (s.objects.get? p).map fun object => (object.survive s.gcNumber).record, objects') ∧
      ∀ q, objects'.get? q = if q ∈ s.heldRecords then none else s.objects.get? q := by
  have hnd := List.nodup_append.1 h.nodup_heldRecords
  obtain ⟨objects₁, hrun₁, hget₁⟩ := run_serializeObject id s.objects [] h.deadNodup h.deadLive
  have hrest : ∀ p ∈ s.objectsAlloc.toList.map Prod.snd, objects₁.get? p = s.objects.get? p := fun p hp => by
    rw [hget₁, if_neg fun hd => hnd.2.2 p hd p hp rfl]
  obtain ⟨objects₂, hrun₂, hget₂⟩ := run_serializeObject (ObjectClass.survive s.gcNumber) objects₁
    (s.objectsDeAlloc.filterMap fun p => (s.objects.get? p).map ObjectClass.record) hnd.2.1 fun p hp => by
      rw [hrest p hp]
      exact h.heldRecords_live p (List.mem_append_right _ hp)
  have hsurvive : ((s.objectsAlloc.toList.map Prod.snd).filterMap fun p =>
      (objects₁.get? p).map fun object => (object.survive s.gcNumber).record) =
      (s.objectsAlloc.toList.map Prod.snd).filterMap fun p =>
        (s.objects.get? p).map fun object => (object.survive s.gcNumber).record :=
    List.filterMap_congr fun p hp => by rw [hrest p hp]
  rw [hsurvive] at hrun₂
  refine ⟨objects₂, ?_, fun q => ?_⟩
  · simp only [List.nil_append, id_eq] at hrun₁
    simp only [Perun.objectsSection, hrun₁]
    exact hrun₂
  · have hmem : q ∈ s.heldRecords ↔ q ∈ s.objectsDeAlloc ∨ q ∈ s.objectsAlloc.toList.map Prod.snd := List.mem_append
    rw [hget₂, hget₁]
    by_cases ha : q ∈ s.objectsAlloc.toList.map Prod.snd
    · rw [if_pos ha, if_pos (hmem.2 (.inr ha))]
    · rw [if_neg ha]
      by_cases hd : q ∈ s.objectsDeAlloc
      · rw [if_pos hd, if_pos (hmem.2 (.inl hd))]
      · rw [if_neg hd, if_neg fun hq => (hmem.1 hq).elim hd ha]

end Perun
