import PerunProfiler.Aggregation
import PerunProfiler.Reading
import PerunProfiler.References

/-!
# The treemap of the allocations

`show_treemap` draws the boxes that `show_treemap_func` draws, with the sizes of
`agregate_objectsize_to_functions`. A treemap without branch values adds the sizes up, so what it shows
of a thread is the sum of its boxes. It is what the calls of the thread have allocated, and what the
calls of other threads have that carry one of its numbers.
-/

namespace Perun
open Lib

section drawn
variable {Fl : Type} [DecidableEq Fl] {P : Pandas Fl} {pointer : Nat → String} {float : Time → String}
  {name : FunctionID → String} {dfFunc dfObjects result : DataFrame Fl} {V : List FunctionRecord}
  {A O : List ObjectRecord}

theorem filter_cut (W : List FunctionRecord) (t : ThreadID) (maxDepth : Int) :
    (W.filter (·.TID = t)).filter (fun r => (r.depth : Int) ≤ maxDepth) =
      W.filter fun r => r.TID = t ∧ (r.depth : Int) ≤ maxDepth := by
  rw [List.filter_filter]
  exact List.filter_congr fun r _ => by rw [Bool.decide_and, Bool.and_comm]

/-- The box of a row, without the number of its allocations. -/
def AllocationRow.box (r : AllocationRow Fl) : TreemapRow Fl := { r.toTreemapRow with customdata := r.customdata.take 4 }

/-- What the boxes add up to. -/
def drawnTotal (rows : List (AllocationRow Fl)) : Int := (rows.map fun r => Cell.toInt r.value).sum

theorem agregate_columns {thread : String}
    (h : agregateObjectsizeToFunctions P dfFunc dfObjects (some thread) = .ok result) :
    "objectSizeSum" ∈ result.columns ∧ "count" ∈ result.columns := by
  simp only [agregateObjectsizeToFunctions, bind_eq_ok] at h
  obtain ⟨-, -, df, -, -, -, -, -, h⟩ := h
  obtain rfl := Except.ok.inj h
  have hfill : ∀ (column : String) (df : DataFrame Fl) (c : String), c ∈ (fillna column df).columns ↔
      c ∈ df.columns ∨ c = column := fun _ _ _ => Table.mem_columns_assign _
  exact ⟨(hfill _ _ _).2 (.inl ((hfill _ _ _).2 (.inr rfl))), (hfill _ _ _).2 (.inr rfl)⟩

omit [DecidableEq Fl] in
theorem showTreemap_lists (hP : P.Reads float) (hV : ∀ r ∈ V, r.depth < 2 ^ 31)
    (h : result.Lists functionColumns V (totalled P pointer float name A))
    (hcolumns : "objectSizeSum" ∈ result.columns ∧ "count" ∈ result.columns) (maxDepth : Int) :
    ∃ rows, showTreemap result maxDepth = .ok rows ∧
      rows.Perm ((V.filter (·.depth ≤ maxDepth)).map fun r => allocationRow (totalled P pointer float name A r)) := by
  have hdepth : ∀ r ∈ V, atMost maxDepth (totalled P pointer float name A r "depth") = decide (r.depth ≤ maxDepth) := by
    intro r hr
    show atMost maxDepth ((P.astypeInt (.text (toString (r.depth : Int)))).map .int) = _
    rw [hP.astypeInt_nat (hV r hr)]
    rfl
  have hcut := h.filter fun r => atMost maxDepth (r "depth")
  rw [List.filter_congr hdepth] at hcut
  have hrows := hcut.rows.map allocationRow
  rw [List.map_map] at hrows
  refine ⟨_, ?_, hrows⟩
  have hfirst : need result ["depth"] = .ok () := need_column h (by decide)
  have hsecond : need (result.filter fun r => atMost maxDepth (r "depth"))
      ["class", "function", "cpuTime", "wallTime", "count", "nOr", "rFn", "fName", "objectSizeSum"] = .ok () := by
    refine need_ok fun c hc => ?_
    by_cases hsize : c = "objectSizeSum"
    · rw [hsize]
      exact hcolumns.1
    by_cases hcount : c = "count"
    · rw [hcount]
      exact hcolumns.2
    · refine h.columns c ?_
      simp only [List.mem_cons, List.not_mem_nil, or_false, hsize, hcount, false_or] at hc
      rcases hc with rfl | rfl | rfl | rfl | rfl | rfl | rfl <;> decide
  rw [showTreemap, hfirst]
  show (need _ _ >>= _) = _
  rw [hsecond]
  rfl

omit [DecidableEq Fl] in
theorem drawnTotal_perm {rows : List (AllocationRow Fl)} (hnd : (V.map (·.nOr)).Nodup)
    (h : rows.Perm (V.map fun r => allocationRow (totalled P pointer float name A r))) :
    drawnTotal rows = sizeSum (A.filter fun o => o.fnc ∈ V.map fun r => (r.nOr : Int)) := by
  have hnd' : (V.map fun r => (r.nOr : Int)).Nodup := by
    have hcast := hnd.map (show Function.Injective fun n : Nat => (n : Int) from fun _ _ h => Int.ofNat_inj.1 h)
    rwa [List.map_map] at hcast
  rw [drawnTotal, (h.map _).sum_eq, sizeSum, ← sum_groups (·.fnc) _ A hnd', List.map_map, List.map_map]
  rfl

end drawn

section run
variable {Fl : Type} [DecidableEq Fl] {P : Pandas Fl} {pointer : Nat → String} {float : Time → String} {c : Config}
  {es : List Callback} {s : CoreProfiler} {t : ThreadID}

/-- The numbers of the records of a thread are those that its objects may carry. -/
theorem run_numbers (h : run step c.start es = .ok s) {now : Clock} {events : List FunctionEvent}
    {functions : Heap FunctionClass} (hf : functionsSection s.functions.size now s = .ok (events, functions)) (t : ThreadID) :
    ((writtenRecords events).filter (·.TID = t)).map (·.nOr) =
      List.range ((writtenRecords events).filter (·.TID = t)).length := by
  obtain ⟨κ, hκ⟩ := Reachable.callRecords ⟨c, es, h⟩
  obtain ⟨events', functions', hf', -, hfilter⟩ := hκ.written now (Nat.le_refl _)
  obtain ⟨rfl, -⟩ := Prod.mk.inj (Except.ok.inj (hf.symm.trans hf'))
  rw [hfilter]
  exact hκ.numbers now t

theorem mem_numbers {V : List FunctionRecord} (h : V.map (·.nOr) = List.range V.length) (n : Int) :
    n ∈ V.map (fun r => (r.nOr : Int)) ↔ 0 ≤ n ∧ n < V.length := by
  have hcast : V.map (fun r => (r.nOr : Int)) = (List.range V.length).map fun i : Nat => (i : Int) := by
    rw [← h, List.map_map]
    rfl
  rw [hcast, List.mem_map]
  constructor
  · rintro ⟨i, hi, rfl⟩
    rw [List.mem_range] at hi
    omega
  · rintro ⟨h0, hlt⟩
    exact ⟨n.toNat, List.mem_range.2 (by omega), Int.toNat_of_nonneg h0⟩

/-- An object carries -1 or one of the numbers of its thread. -/
theorem run_fnc (h : run step c.start es = .ok s) {now : Clock} {events : List FunctionEvent}
    {functions : Heap FunctionClass} {records : List ObjectRecord} {objects : Heap ObjectClass}
    (hf : functionsSection s.functions.size now s = .ok (events, functions))
    (ho : objectsSection s = .ok (records, objects)) {o : ObjectRecord} (hrec : o ∈ records) :
    -1 ≤ o.fnc ∧ o.fnc < ((writtenRecords events).filter (·.TID = o.TID)).length := by
  obtain ⟨events', functions', records', objects', hf', ho', hall⟩ := run_references h now
  obtain ⟨rfl, -⟩ := Prod.mk.inj (Except.ok.inj (hf.symm.trans hf'))
  obtain ⟨rfl, -⟩ := Prod.mk.inj (Except.ok.inj (ho.symm.trans ho'))
  obtain ⟨es₁, _, _, _, -, hfnc, hlast⟩ := hall o hrec
  refine ⟨by omega, ?_⟩
  rcases List.eq_nil_or_concat (recordedEnters o.TID c.start es₁) with hnil | ⟨calls, call, hconcat⟩
  · rw [hnil, List.length_nil] at hfnc
    omega
  · rw [hconcat, List.concat_eq_append, List.getLast?_concat, Option.toList_some] at hlast
    obtain ⟨f, hf₁, -⟩ :=
      List.mem_map.1 (show call ∈ List.map FunctionRecord.call _ from hlast ▸ List.mem_singleton_self call)
    obtain ⟨hmem, hf₂⟩ := List.mem_filter.1 hf₁
    obtain ⟨htid, hnum⟩ := of_decide_eq_true hf₂
    have hrange : f.nOr ∈ ((writtenRecords events).filter (·.TID = o.TID)).map (·.nOr) :=
      List.mem_map_of_mem (List.mem_filter.2 ⟨hmem, decide_eq_true htid⟩)
    rw [run_numbers h hf, List.mem_range] at hrange
    omega

/-- The treemap of a thread's allocations has the boxes of the treemap of its functions. They add up to
what the objects with the numbers of these boxes take, on whatever thread they were allocated; for the
whole thread, to all that its calls have allocated and what the calls of others have with its numbers. -/
theorem run_allocationTreemap (e : Encoding) (hP : P.Documented float) (hprint : Prints pointer float)
    (hp : Function.Injective pointer) (hne : ∀ a, pointer a ≠ "") (h : run step c.start es = .ok s) (hi : s.IntMembers)
    (hn : s.PlainNames) (os : Process) (now : Clock) :
    ∃ events functions records objects s' data, functionsSection s.functions.size now s = .ok (events, functions) ∧
      objectsSection s = .ok (records, objects) ∧ shutdown os now s = .ok s' ∧
      loadJson e (fileBytes pointer float s'.log.flatten) = some data ∧
      ∀ t, (∃ r ∈ writtenRecords events, r.TID = t) → (∃ o ∈ records, o.fnc ≠ -1) → ∀ maxDepth : Nat,
        ∃ dfFunc dfObjects result boxes rows, makeFunctionDf P data = .ok dfFunc ∧
          makeObjectsDf P data = .ok dfObjects ∧
          agregateObjectsizeToFunctions P dfFunc dfObjects (some ("0x" ++ pointer t)) = .ok result ∧
          showTreemapFunc dfFunc maxDepth ("0x" ++ pointer t) = .ok boxes ∧ showTreemap result maxDepth = .ok rows ∧
          (rows.map AllocationRow.box).Perm boxes ∧
          drawnTotal rows = sizeSum (records.filter fun o =>
            o.fnc ∈ ((writtenRecords events).filter fun r => r.TID = t ∧ r.depth ≤ maxDepth).map fun r => (r.nOr : Int)) ∧
          ((∀ r ∈ writtenRecords events, r.TID = t → r.depth ≤ maxDepth) →
            drawnTotal rows = sizeSum (records.filter fun o => o.TID = t ∧ o.fnc ≠ -1) + sizeSum (records.filter fun o =>
              o.TID ≠ t ∧ o.fnc ≠ -1 ∧ o.fnc < ((writtenRecords events).filter (·.TID = t)).length)) := by
  have hr : Reachable s := ⟨c, es, h⟩
  obtain ⟨events, functions, records, objects, s', hf, ho, hok, hload⟩ := shutdown_loaded hprint h hn os now
  refine ⟨events, functions, records, objects, s', _, hf, ho, hok, hload e, ?_⟩
  rintro t ⟨r, hrw, htid⟩ hA maxDepth
  obtain ⟨dfFunc, hfunc, hlists⟩ := hr.makeFunctionDf hP.toLoads hp hne hi hf (List.ne_nil_of_mem hrw)
  obtain ⟨dfObjects, hobj, hobjLists⟩ := makeObjectsDf_lists hP.toReads (item_document rfl) hA (hr.written_gc hi ho)
  have hdepth := hr.written_depth hi hf
  have hattributed : ∀ o ∈ records.filter (·.fnc ≠ -1), o.fnc ≠ -1 := fun o ho =>
    of_decide_eq_true (List.mem_filter.1 ho).2
  obtain ⟨result, hres, hresLists⟩ := agregate_lists hP hp hlists hobjLists hattributed t
  obtain ⟨boxes, hboxes, hboxesPerm⟩ := showTreemapFunc_lists hP.toReads hp hlists hdepth t maxDepth
  obtain ⟨rows, hrows, hrowsPerm⟩ := showTreemap_lists hP.toReads (fun r hr => hdepth r (List.mem_filter.1 hr).1) hresLists
    (agregate_columns hres) maxDepth
  have hnumbers := run_numbers h hf t
  have hnd : ((((writtenRecords events).filter (·.TID = t)).filter (fun r => (r.depth : Int) ≤ maxDepth)).map (·.nOr)).Nodup :=
    (hnumbers ▸ List.nodup_range).sublist (List.filter_sublist.map _)
  have htotal := drawnTotal_perm hnd hrowsPerm
  rw [filter_cut, List.filter_filter] at htotal
  simp only [Nat.cast_le] at htotal
  refine ⟨dfFunc, dfObjects, result, boxes, rows, hfunc, hobj, hres, hboxes, hrows, ?_, ?_, fun hdeep => ?_⟩
  · have hbox := hrowsPerm.map AllocationRow.box
    rw [List.map_map] at hbox
    exact hbox.trans hboxesPerm.symm
  · rw [htotal]
    refine congrArg sizeSum (List.filter_congr fun o _ => ?_)
    rw [← Bool.decide_and, decide_eq_decide, and_iff_left_iff_imp]
    intro hmem hnone
    obtain ⟨r, -, hnum⟩ := List.mem_map.1 hmem
    omega
  · have hall : (writtenRecords events).filter (fun r => r.TID = t ∧ r.depth ≤ maxDepth) =
        (writtenRecords events).filter (·.TID = t) :=
      List.filter_congr fun r hr => decide_eq_decide.2 (and_iff_left_of_imp (hdeep r hr))
    rw [htotal, hall, sizeSum, ← List.sum_map_filter_add_sum_map_filter_not (fun o : ObjectRecord => o.TID = t),
      List.filter_filter, List.filter_filter]
    congr 1
    · refine congrArg sizeSum (List.filter_congr fun o hrec => ?_)
      obtain ⟨hlow, hhigh⟩ := run_fnc h hf ho hrec
      simp only [mem_numbers hnumbers, ← Bool.decide_and, decide_eq_decide]
      constructor
      · rintro ⟨htid, -, hnone⟩
        exact ⟨htid, hnone⟩
      · rintro ⟨htid, hnone⟩
        rw [htid] at hhigh
        exact ⟨htid, ⟨by omega, hhigh⟩, hnone⟩
    · refine congrArg sizeSum (List.filter_congr fun o hrec => ?_)
      obtain ⟨hlow, -⟩ := run_fnc h hf ho hrec
      simp only [mem_numbers hnumbers, ← Bool.decide_and, decide_eq_decide]
      constructor
      · rintro ⟨htid, ⟨-, hlt⟩, hnone⟩
        exact ⟨htid, hnone, hlt⟩
      · rintro ⟨htid, hnone, hlt⟩
        exact ⟨htid, ⟨by omega, hlt⟩, hnone⟩

end run

/-- The first thread is shown the 24 bytes that the second one has allocated. -/
theorem run_allocationTreemap_second :
    ∃ s, run step Config.plain.start allocateInSecond = .ok s ∧
      ∃ events functions records objects s' data, functionsSection s.functions.size ⟨9, 9⟩ s = .ok (events, functions) ∧
        objectsSection s = .ok (records, objects) ∧ shutdown ⟨1, 1⟩ ⟨9, 9⟩ s = .ok s' ∧
        loadJson .utf8 (fileBytes (fun a => "0x" ++ a.repr) seconds s'.log.flatten) = some data ∧ records.filter (·.TID = 1) = [] ∧
        ∃ dfFunc dfObjects result boxes rows,
          makeFunctionDf tables data = .ok dfFunc ∧ makeObjectsDf tables data = .ok dfObjects ∧
          agregateObjectsizeToFunctions tables dfFunc dfObjects (some ("0x" ++ ("0x" ++ Nat.repr 1))) = .ok result ∧
          showTreemapFunc dfFunc (10 : Nat) ("0x" ++ ("0x" ++ Nat.repr 1)) = .ok boxes ∧
          showTreemap result (10 : Nat) = .ok rows ∧ (rows.map AllocationRow.box).Perm boxes ∧ drawnTotal rows = 24 := by
  obtain ⟨s, hs⟩ : ∃ s, run step Config.plain.start allocateInSecond = .ok s := ⟨_, rfl⟩
  obtain ⟨events, functions, records, objects, s', data, hf, ho, hok, hload, hall⟩ :=
    run_allocationTreemap .utf8 tables_documented prints_printed printed_injective printed_ne hs
      (run_intMembers hs (by decide)) (by obtain rfl : _ = s := Except.ok.inj hs; decide)
      ⟨1, 1⟩ ⟨9, 9⟩
  refine ⟨s, hs, events, functions, records, objects, s', data, hf, ho, hok, hload, ?_⟩
  obtain rfl : _ = s := Except.ok.inj hs
  obtain ⟨rfl, -⟩ : [⟨2, 100, 24, "", 1, 1, 0, 3, 3⟩] = records ∧ _ = objects := Prod.mk.inj (Except.ok.inj ho)
  obtain ⟨rfl, -⟩ : _ = events ∧ _ = functions := Prod.mk.inj (Except.ok.inj hf)
  obtain ⟨dfFunc, dfObjects, result, boxes, rows, hfunc, hobj, hres, hboxes, hrows, hbox, -, htotal⟩ :=
    hall 1 (by decide) (by decide) 10
  exact ⟨rfl, dfFunc, dfObjects, result, boxes, rows, hfunc, hobj, hres, hboxes, hrows, hbox, htotal (by decide)⟩

end Perun
