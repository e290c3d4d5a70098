import Mathlib.Algebra.Order.Ring.Unbundled.Rat
import PerunProfiler.Lib.Nested
import PerunProfiler.ThreadCalls

/-!
# Recorded intervals

Only the records on the path lack a leave time, but for the outermost one, which every leave without
an open call stamps anew. All others run within their callers, one after the other, also when enters
and leaves do not match (`Running`); `Shutdown` closes the path at its own time.
-/

namespace Perun
open Lib

instance : Preorder Clock where
  le a b := a.wall ≤ b.wall ∧ a.cpu ≤ b.cpu
  le_refl _ := ⟨le_rfl, le_rfl⟩
  le_trans _ _ _ h h' := ⟨h.1.trans h'.1, h.2.trans h'.2⟩

instance (a b : Clock) : Decidable (a ≤ b) := inferInstanceAs (Decidable (a.wall ≤ b.wall ∧ a.cpu ≤ b.cpu))

def Move.now : Move → Clock
  | .enter _ _ now | .leave _ now => now

/-- The clock readings of a callback that enters or leaves. -/
def Callback.reading (e : Callback) : Option Clock := e.move.map Move.now

/-- The calls that are finished run within their callers, up to `last`; those on the path have no
leave time, except that the outermost one may have been left. -/
def Running : Clock → Spine FunctionRecord → Prop
  | _, [] => True
  | last, (r, cs) :: sp =>
    Lib.Nested FunctionRecord.entered FunctionRecord.left r.entered last cs ∧
      (r.left = ⟨0, 0⟩ ∨ (sp = [] ∧ r.entered ≤ r.left)) ∧ Running r.entered sp

section running
variable {last now : Clock} {sp : Spine FunctionRecord} {r : FunctionRecord} {cs cs' : List (Rose FunctionRecord)}

theorem Running.mono (h : Running last sp) (hn : last ≤ now) : Running now sp := by
  cases sp with
  | nil => trivial
  | cons x sp =>
    obtain ⟨hcs, hleft, hsp⟩ := h
    exact ⟨hcs.mono le_rfl hn, hleft, hsp⟩

theorem Running.push (h : Running last sp) (hn : last ≤ now) (f : FunctionID) (t : ThreadID) :
    Running now (sp.push (enterRecord f t now sp)) :=
  ⟨.nil le_rfl, .inl rfl, h.mono hn⟩

theorem Running.leave (h : Running last sp) (hn : last ≤ now) : Running now (leaveRecord now sp) := by
  match sp with
  | [] => trivial
  | [(r, cs)] =>
    obtain ⟨hcs, -, -⟩ := h
    exact ⟨hcs.mono le_rfl hn, .inr ⟨rfl, hcs.le.trans hn⟩, trivial⟩
  | (r, cs) :: (q, ds) :: sp =>
    obtain ⟨hcs, -, hds, hleft, hsp⟩ := h
    have hstamp : Lib.Nested FunctionRecord.entered FunctionRecord.left (r.stamp now).entered (r.stamp now).left cs :=
      hcs.mono (le_refl r.entered) hn
    have hbefore : Lib.Nested FunctionRecord.entered FunctionRecord.left q.entered (r.stamp now).entered ds := hds
    exact ⟨Lib.Nested.concat hbefore hstamp (le_refl now), hleft, hsp⟩

theorem Running.step {traced : FunctionID → Bool} {tid : ThreadID} {e : Callback} (h : Running last sp)
    (hn : ∀ now, e.reading = some now → last ≤ now) : Running (e.reading.getD last) (recordStep traced tid e sp) := by
  unfold recordStep
  unfold Callback.reading at hn ⊢
  cases hm : e.move with
  | none => exact h
  | some m =>
    rw [hm] at hn
    have hle := hn _ rfl
    cases m with
    | enter f t now =>
      show Running now (if _ then _ else _)
      split
      · exact h.push hle f t
      · exact h.mono hle
    | leave t now =>
      show Running now (if _ then _ else _)
      split
      · exact h.leave hle
      · exact h.mono hle

/-! ### At the shutdown -/

theorem FunctionRecord.left_repair_zero (h : r.left = ⟨0, 0⟩) : (r.repair now).left = now := by
  rw [FunctionRecord.left_repair, h, if_pos (.inl rfl)]

theorem FunctionRecord.entered_repair : (r.repair now).entered = r.entered := by
  unfold FunctionRecord.repair
  split <;> rfl

theorem FunctionRecord.entered_le_repair (h : r.left = ⟨0, 0⟩ ∨ r.entered ≤ r.left) (hn : r.entered ≤ now) :
    (r.repair now).entered ≤ (r.repair now).left := by
  rw [FunctionRecord.entered_repair]
  rcases h with h | h
  · rw [FunctionRecord.left_repair_zero h]
    exact hn
  · unfold FunctionRecord.repair
    split
    · exact hn
    · exact h

/-- The tree of a thread once its path is repaired. -/
def Timed (T : Rose FunctionRecord) : Prop :=
  T.root.entered ≤ T.root.left ∧
    ∃ hi, Lib.Nested FunctionRecord.entered FunctionRecord.left T.root.entered hi T.children

theorem Running.plug (h : Running last ((r, cs) :: sp)) (hn : last ≤ now)
    (hcs : Lib.Nested FunctionRecord.entered FunctionRecord.left r.entered now cs') :
    Timed (Spine.plug (.node (r.repair now) cs') (Spine.mapPath (FunctionRecord.repair now) sp)) := by
  induction sp generalizing r cs cs' last with
  | nil =>
    obtain ⟨-, hleft, -⟩ := h
    refine ⟨FunctionRecord.entered_le_repair (hleft.imp_right And.right) hcs.le, now, ?_⟩
    show Lib.Nested _ _ (r.repair now).entered now cs'
    rw [FunctionRecord.entered_repair]
    exact hcs
  | cons x sp ih =>
    obtain ⟨q, ds⟩ := x
    obtain ⟨-, hleft, hsp⟩ := h
    obtain hleft : r.left = ⟨0, 0⟩ := hleft.resolve_right fun h => by cases h.1
    have hstop : (r.repair now).left = now := FunctionRecord.left_repair_zero hleft
    have hstart : (r.repair now).entered = r.entered := FunctionRecord.entered_repair
    -- the call above it ends with the shutdown, after the calls it has finished
    have hnode : Lib.Nested FunctionRecord.entered FunctionRecord.left q.entered now
        (ds ++ [.node (r.repair now) cs']) := by
      refine Lib.Nested.concat ?_ ?_ (le_of_eq hstop)
      · rw [hstart]
        exact hsp.1
      · rw [hstart, hstop]
        exact hcs
    exact ih hsp hcs.le hnode

theorem Running.timed (h : Running last sp) (hn : last ≤ now) {T : Rose FunctionRecord}
    (hT : (Spine.mapPath (FunctionRecord.repair now) sp).trees = [T]) : Timed T := by
  cases sp with
  | nil => cases hT
  | cons x sp =>
    obtain ⟨r, cs⟩ := x
    obtain rfl : Spine.plug (.node (r.repair now) cs) (Spine.mapPath (FunctionRecord.repair now) sp) = T := by
      simpa [Spine.mapPath, Spine.trees] using hT
    exact h.plug hn (h.1.mono le_rfl hn)

end running

section timed
variable {T u : Rose FunctionRecord}

theorem Timed.nested (h : Timed T) (hu : u ∈ T.subtrees) :
    ∃ hi, Lib.Nested FunctionRecord.entered FunctionRecord.left u.root.entered hi u.children := by
  obtain ⟨r, cs⟩ := T
  rw [Rose.subtrees_node, List.mem_cons] at hu
  rcases hu with rfl | hu
  · exact h.2
  · obtain ⟨c, hc, hu⟩ := List.mem_flatMap.1 hu
    obtain ⟨hi, hcs⟩ := h.2
    exact ⟨_, hcs.subtree c hc u hu⟩

theorem Timed.nested_of_ne (h : Timed T) (hu : u ∈ T.subtrees) (hne : u ≠ T) :
    Lib.Nested FunctionRecord.entered FunctionRecord.left u.root.entered u.root.left u.children := by
  obtain ⟨r, cs⟩ := T
  rw [Rose.subtrees_node, List.mem_cons] at hu
  obtain ⟨c, hc, hu⟩ := List.mem_flatMap.1 (hu.resolve_left hne)
  obtain ⟨hi, hcs⟩ := h.2
  exact hcs.subtree c hc u hu

theorem Timed.le (h : Timed T) {r : FunctionRecord} (hr : r ∈ T.preorder) : r.entered ≤ r.left := by
  obtain ⟨u, hu, rfl⟩ := Rose.mem_preorder.1 hr
  by_cases hne : u = T
  · rw [hne]
    exact h.1
  · exact (h.nested_of_ne hu hne).le

variable (hlinked : Rose.Linked (·.nOr) (·.rFn) none T) (hnum : T.preorder.map (·.nOr) = List.range T.preorder.length)
include hlinked hnum

theorem filter_children (hu : u ∈ T.subtrees) :
    T.preorder.filter (fun x => x.rFn = some u.root.nOr) = u.children.map Rose.root :=
  hlinked.filter_subtree (by rw [hnum]; exact List.nodup_range) (by simp) hu

variable (h : Timed T)
include h

/-- Of two calls with one parent the one with the smaller number stops before the other starts. -/
theorem Timed.siblings {x y : FunctionRecord} {k : Nat} (hx : x ∈ T.preorder) (hy : y ∈ T.preorder)
    (hxk : x.rFn = some k) (hyk : y.rFn = some k) (hlt : x.nOr < y.nOr) : x.left ≤ y.entered := by
  obtain ⟨u, hu, rfl⟩ := hlinked.exists_subtree (by simp) hx hxk
  obtain ⟨hi, hnested⟩ := h.nested hu
  have hchildren := filter_children hlinked hnum hu
  have hstop := hnested.pairwise
  have hless : (u.children.map Rose.root).Pairwise fun a b => a.nOr < b.nOr := by
    have hall : T.preorder.Pairwise fun a b => a.nOr < b.nOr := by
      have hrange : (T.preorder.map (·.nOr)).Pairwise (· < ·) := by
        rw [hnum]
        exact List.pairwise_lt_range
      exact List.pairwise_map.1 hrange
    rw [← hchildren]
    exact hall.filter _
  have hmem : ∀ z ∈ T.preorder, z.rFn = some u.root.nOr → z ∈ u.children.map Rose.root := fun z hz hzk => by
    rw [← hchildren]
    exact List.mem_filter.2 ⟨hz, by simpa using hzk⟩
  obtain ⟨i, hi, rfl⟩ := List.getElem_of_mem (hmem x hx hxk)
  obtain ⟨j, hj, rfl⟩ := List.getElem_of_mem (hmem y hy hyk)
  rcases Nat.lt_trichotomy i j with hij | rfl | hij
  · exact List.pairwise_iff_getElem.1 hstop i j hi hj hij
  · omega
  · have := List.pairwise_iff_getElem.1 hless j i hj hi hij
    omega

/-- A call below the root runs for as long as its children at least. -/
theorem Timed.contains {x y : FunctionRecord} (hx : x ∈ T.preorder) (hy : y ∈ T.preorder)
    (hroot : x.rFn ≠ none) (hyx : y.rFn = some x.nOr) : x.entered ≤ y.entered ∧ y.left ≤ x.left := by
  obtain ⟨u, hu, rfl⟩ := Rose.mem_preorder.1 hx
  have hne : u ≠ T := fun heq => hroot (by rw [heq]; exact hlinked.par_root)
  have hmem : y ∈ u.children.map Rose.root := by
    rw [← filter_children hlinked hnum hu]
    exact List.mem_filter.2 ⟨hy, by simpa using hyx⟩
  obtain ⟨c, hc, rfl⟩ := List.mem_map.1 hmem
  exact (h.nested_of_ne hu hne).roots c hc

end timed

/-! ### Over a run -/

theorem run_running {s s' : CoreProfiler} {κ : ThreadID → Spine FunctionRecord} {last now : Clock}
    {es : List Callback} (ha : s.Alive) (hκ : CallRecords s κ) (hrunning : ∀ tid, Running last (κ tid))
    (hclock : (last :: (es.filterMap Callback.reading ++ [now])).IsChain (· ≤ ·)) (h : run step s es = .ok s') :
    ∃ κ', CallRecords s' κ' ∧ ∀ tid, Running now (κ' tid) := by
  induction es generalizing s κ last with
  | nil =>
    cases h
    have hle : last ≤ now := by simpa using hclock
    exact ⟨κ, hκ, fun tid => (hrunning tid).mono hle⟩
  | cons e es ih =>
    obtain ⟨s₁, h₁, h₂⟩ := run_cons.1 h
    have hn : ∀ reading, e.reading = some reading → last ≤ reading := by
      intro reading hr
      rw [List.filterMap_cons_some hr, List.cons_append, List.isChain_cons_cons] at hclock
      exact hclock.1
    have hrunning₁ : ∀ tid, Running (e.reading.getD last) (recordStep s.traced tid e (κ tid)) :=
      fun tid => (hrunning tid).step hn
    refine ih (ha.step h₁) (hκ.step ha h₁) hrunning₁ ?_ h₂
    cases hr : e.reading with
    | none =>
      rw [List.filterMap_cons_none hr] at hclock
      exact hclock
    | some reading =>
      rw [List.filterMap_cons_some hr, List.cons_append, List.isChain_cons_cons] at hclock
      exact hclock.2

/-- A run that dereferences no null active function, with readings that never decrease, is written by
`Shutdown` so that every call stops after it starts, calls with one parent follow each other, and a
call below a thread's outermost one contains its children. -/
theorem run_intervals {c : Config} {es : List Callback} {now : Clock}
    (h : run step c.start es ≠ .error .nullActiveFunction)
    (hclock : (es.filterMap Callback.reading ++ [now]).IsChain (· ≤ ·)) :
    ∃ s events functions, run step c.start es = .ok s ∧
      functionsSection s.functions.size now s = .ok (events, functions) ∧
      (∀ x ∈ writtenRecords events, x.entered ≤ x.left) ∧
      (∀ x ∈ writtenRecords events, ∀ y ∈ writtenRecords events, x.TID = y.TID → x.rFn = y.rFn → x.rFn ≠ none →
        x.nOr < y.nOr → x.left ≤ y.entered) ∧
      ∀ x ∈ writtenRecords events, ∀ y ∈ writtenRecords events, y.TID = x.TID → y.rFn = some x.nOr → x.rFn ≠ none →
        x.entered ≤ y.entered ∧ y.left ≤ x.left := by
  cases hr : run step c.start es with
  | error x => exact absurd (by rw [hr, run_fault hr]) h
  | ok s =>
    obtain ⟨first, hfirst⟩ : ∃ first, (first :: (es.filterMap Callback.reading ++ [now])).IsChain (· ≤ ·) := by
      cases hl : es.filterMap Callback.reading ++ [now] with
      | nil => exact ⟨now, by simp⟩
      | cons reading rest =>
        rw [hl] at hclock
        exact ⟨reading, List.isChain_cons_cons.2 ⟨le_rfl, hclock⟩⟩
    have halive := (Reachable.start c).alive
    obtain ⟨κ, hκ, hrunning⟩ := run_running halive (CallRecords.start c) (fun _ => trivial) hfirst hr
    obtain ⟨events, functions, hok, -, hfilter⟩ := hκ.written now (Nat.le_refl _)
    -- the records of a thread are the listing of one timed tree
    have htree : ∀ x ∈ writtenRecords events, ∃ T, Timed T ∧ Rose.Linked (·.nOr) (·.rFn) none T ∧
        T.preorder.map (·.nOr) = List.range T.preorder.length ∧ x ∈ T.preorder ∧
        ∀ y ∈ writtenRecords events, y.TID = x.TID → y ∈ T.preorder := by
      intro x hx
      have hmem : ∀ y ∈ writtenRecords events, y.TID = x.TID → y ∈ finished now (κ x.TID) := fun y hy ht => by
        rw [← hfilter]
        exact List.mem_filter.2 ⟨hy, by simpa using ht⟩
      have hne : κ x.TID ≠ [] := fun hnil => by
        have := hmem x hx rfl
        rw [hnil] at this
        cases this
      obtain ⟨T, hT, hpre, hlinked, hnum⟩ := hκ.tree now hne
      exact ⟨T, (hrunning _).timed le_rfl hT, hlinked, hnum, by rw [hpre]; exact hmem x hx rfl,
        fun y hy ht => by rw [hpre]; exact hmem y hy ht⟩
    refine ⟨s, events, functions, rfl, hok, fun x hx => ?_, fun x hx y hy ht hxy hroot hlt => ?_,
      fun x hx y hy ht hyx hroot => ?_⟩
    · obtain ⟨T, hT, -, -, hxT, -⟩ := htree x hx
      exact hT.le hxT
    · obtain ⟨T, hT, hlinked, hnum, hxT, hthread⟩ := htree x hx
      obtain ⟨k, hk⟩ := Option.ne_none_iff_exists'.1 hroot
      exact Timed.siblings hlinked hnum hT hxT (hthread y hy ht.symm) hk (hxy ▸ hk) hlt
    · obtain ⟨T, hT, hlinked, hnum, hxT, hthread⟩ := htree x hx
      exact Timed.contains hlinked hnum hT hxT (hthread y hy ht) hroot hyx

/-- An outermost call is left twice and entered below once more; the last call is never left. -/
def illNested : List Callback :=
  [.trace 7, .enterStub 7 1 ⟨1, 0⟩, .leaveStub 7 1 ⟨2, 0⟩, .leaveStub 9 1 ⟨3, 1⟩, .enterStub 7 1 ⟨4, 1⟩,
    .exceptionUnwindFunctionEnter 7 1 ⟨5, 1⟩, .exceptionUnwindFunctionLeave 1 ⟨6, 2⟩, .enterStub 7 2 ⟨7, 2⟩]

theorem run_intervals_illNested :
    ∃ s events functions, run step Config.plain.start illNested = .ok s ∧
      functionsSection s.functions.size ⟨9, 3⟩ s = .ok (events, functions) ∧
      (∀ x ∈ writtenRecords events, x.entered ≤ x.left) ∧
      (∀ x ∈ writtenRecords events, ∀ y ∈ writtenRecords events, x.TID = y.TID → x.rFn = y.rFn → x.rFn ≠ none →
        x.nOr < y.nOr → x.left ≤ y.entered) ∧
      ∀ x ∈ writtenRecords events, ∀ y ∈ writtenRecords events, y.TID = x.TID → y.rFn = some x.nOr → x.rFn ≠ none →
        x.entered ≤ y.entered ∧ y.left ≤ x.left :=
  run_intervals (by decide) (by decide)

end Perun
