import Mathlib
import PerunProfiler.Loaded
import PerunProfiler.Survivors

/-!
# The treemap of a thread

The frame of the functions has a row for every record that is written, so `show_treemap_func` passes
on the records of the thread down to the depth asked for. These list a tree (`Rose.Listing`).
-/

namespace Perun
open Lib

section drawn
variable {Fl : Type} [DecidableEq Fl] {P : Pandas Fl} {pointer : Nat → String} {float : Time → String}
  {name : FunctionID → String}

/-- What the treemap gets of a record. -/
def FunctionRecord.drawn (P : Pandas Fl) (float : Time → String) (name : FunctionID → String) (r : FunctionRecord) :
    TreemapRow Fl where
  id := some (.text (toString (r.nOr : Int)))
  label := some (.text (name r.fID))
  parent := some (.text (r.rFn.elim "" fun n => toString (n : Int)))
  customdata := [part "::" 0 (some (.text (name r.fID))), part "::" 1 (some (.text (name r.fID))),
    millis P ((P.astypeFloat (.text (float r.lCPUt))).map .float)
      ((P.astypeFloat (.text (float r.eCPUt))).map .float),
    millis P ((P.astypeFloat (.text (float r.lWALLt))).map .float)
      ((P.astypeFloat (.text (float r.eWALLt))).map .float)]

omit [DecidableEq Fl] in
theorem computed_thread (hp : Function.Injective pointer) (r : FunctionRecord) (tid : ThreadID) :
    computed P (namedRow Fl pointer float name r) "TID" = some (.text ("0x" ++ pointer tid)) ↔ r.TID = tid := by
  show some (Cell.text ("0x" ++ pointer r.TID)) = some (.text ("0x" ++ pointer tid)) ↔ _
  rw [Option.some.injEq, Cell.text.injEq, String.append_right_inj, hp.eq_iff]

theorem showTreemapFunc_lists (hP : P.Reads float) (hp : Function.Injective pointer) {df : DataFrame Fl}
    {W : List FunctionRecord} (h : df.Lists functionColumns W fun r => computed P (namedRow Fl pointer float name r))
    (hW : ∀ r ∈ W, r.depth < 2 ^ 31) (tid : ThreadID) (maxDepth : Int) :
    ∃ rows, showTreemapFunc df maxDepth ("0x" ++ pointer tid) = .ok rows ∧
      rows.Perm (((W.filter (·.TID = tid)).filter (·.depth ≤ maxDepth)).map (FunctionRecord.drawn P float name)) := by
  have hthread : ∀ r : FunctionRecord, decide (computed P (namedRow Fl pointer float name r) "TID" =
      some (.text ("0x" ++ pointer tid))) = decide (r.TID = tid) :=
    fun r => decide_eq_decide.2 (computed_thread hp r tid)
  have hdepth : ∀ r ∈ W.filter (·.TID = tid), atMost maxDepth (computed P (namedRow Fl pointer float name r) "depth") =
      decide (r.depth ≤ maxDepth) := by
    intro r hr
    show atMost maxDepth ((P.astypeInt (.text (toString (r.depth : Int)))).map .int) = _
    rw [hP.astypeInt_nat (hW r (List.mem_filter.1 hr).1)]
    rfl
  have hrowsOf := h.filter fun r => r "TID" = some (.text ("0x" ++ pointer tid))
  simp only [hthread] at hrowsOf
  have hcut := hrowsOf.filter fun r => atMost maxDepth (r "depth")
  rw [List.filter_congr hdepth] at hcut
  have hrows := hcut.rows.map treemapRow
  rw [List.map_map] at hrows
  refine ⟨_, ?_, hrows⟩
  have hfirst : need df ["TID", "depth"] = .ok () := need_ok fun c hc => h.columns c (by revert c; decide)
  have hsecond : need _ ["class", "function", "cpuTime", "wallTime", "nOr", "fName", "rFn"] = .ok () :=
    need_ok fun c hc => hcut.columns c (by revert c; decide)
  rw [showTreemapFunc, hfirst]
  show (need _ _ >>= _) = _
  rw [hsecond]
  rfl

theorem number_injective : Function.Injective fun n : Nat => toString (n : Int) := by
  intro m n h
  have hrepr := Int.repr_injective h
  omega

omit [DecidableEq Fl] in
theorem drawn_id {r q : FunctionRecord} : (r.drawn P float name).id = (q.drawn P float name).id ↔ r.nOr = q.nOr := by
  show some (Cell.text (toString (r.nOr : Int))) = some (.text (toString (q.nOr : Int))) ↔ _
  rw [Option.some.injEq, Cell.text.injEq]
  exact number_injective.eq_iff

omit [DecidableEq Fl] in
theorem drawn_parent_eq_empty {r : FunctionRecord} :
    (r.drawn P float name).parent = some (.text "") ↔ r.rFn = none := by
  show some (Cell.text _) = some (.text "") ↔ _
  rw [Option.some.injEq, Cell.text.injEq]
  cases r.rFn with
  | none => exact iff_of_true rfl rfl
  | some n => exact iff_of_false Nat.repr_ne_empty (by simp)

/-- The rows of records that list a tree are a tree. -/
theorem drawn_tree {R : List FunctionRecord} (h : Rose.Listing (·.nOr) (·.rFn) (·.depth) R)
    {rows : List (TreemapRow Fl)} (hrows : rows.Perm (R.map (FunctionRecord.drawn P float name))) :
    (rows.map (·.id)).Nodup ∧ (∃ root, rows.filter (fun row => row.parent = some (.text "")) = [root]) ∧
      ∀ row ∈ rows, row.parent ≠ some (.text "") → ∃ row' ∈ rows, row'.id = row.parent ∧ row'.id ≠ row.id := by
  refine ⟨?_, ?_, fun row hrow hparent => ?_⟩
  · rw [(hrows.map _).nodup_iff, List.map_map]
    have hids : (R.map (·.nOr)).map (fun n : Nat => some (Cell.text (toString (n : Int)) : Cell Fl)) =
        R.map (TreemapRow.id ∘ FunctionRecord.drawn P float name) := by
      rw [List.map_map]
      rfl
    rw [← hids]
    refine h.nodup.map fun m n hmn => number_injective ?_
    rwa [Option.some.injEq, Cell.text.injEq] at hmn
  · obtain ⟨r, hr⟩ := h.root
    refine ⟨r.drawn P float name, List.perm_singleton.1 ((hrows.filter _).trans (.of_eq ?_))⟩
    rw [List.filter_map]
    have hfilter : R.filter ((fun row : TreemapRow Fl => decide (row.parent = some (.text ""))) ∘
        FunctionRecord.drawn P float name) = R.filter (fun r => r.rFn = none) :=
      List.filter_congr fun r _ => decide_eq_decide.2 drawn_parent_eq_empty
    rw [hfilter, hr]
    rfl
  · obtain ⟨r, hr, rfl⟩ := List.mem_map.1 (hrows.mem_iff.1 hrow)
    rcases h.parents r hr with ⟨hnone, -⟩ | ⟨q, hq, hpar, hdepth⟩
    · exact absurd (drawn_parent_eq_empty.2 hnone) hparent
    · refine ⟨q.drawn P float name, hrows.mem_iff.2 (List.mem_map_of_mem hq), ?_, fun hid => ?_⟩
      · show some (Cell.text (toString (q.nOr : Int))) = some (.text (r.rFn.elim "" _))
        rw [hpar]
        rfl
      · have heq : q = r := List.inj_on_of_nodup_map h.nodup hq hr (drawn_id.1 hid)
        rw [heq] at hdepth
        omega

/-- The members of the records that the source declares `int` are; one more collection can be counted. -/
structure CoreProfiler.IntMembers (s : CoreProfiler) : Prop where
  depth : ∀ (p : Ptr) (function : FunctionClass), s.functions.get? p = some function → function.depth < 2 ^ 31
  gcNumber : ∀ (p : Ptr) (object : ObjectClass), s.objects.get? p = some object →
    object.gcNumber < 2 ^ 31 ∧ object.untilGcNumber < 2 ^ 31
  next : s.gcNumber + 1 < 2 ^ 31

instance (s : CoreProfiler) : Decidable s.IntMembers :=
  decidable_of_iff ((∀ (p : Ptr) (function : FunctionClass), s.functions.get? p = some function →
      function.depth < 2 ^ 31) ∧ (∀ (p : Ptr) (object : ObjectClass), s.objects.get? p = some object →
        object.gcNumber < 2 ^ 31 ∧ object.untilGcNumber < 2 ^ 31) ∧ s.gcNumber + 1 < 2 ^ 31)
    ⟨fun ⟨hdepth, hgc, hnext⟩ => ⟨hdepth, hgc, hnext⟩, fun h => ⟨h.depth, h.gcNumber, h.next⟩⟩

section few
variable {n : Nat} {s s' : CoreProfiler} {e : Callback} {f : FunctionID} {t : ThreadID} {now : Clock}

/-- What `n` callbacks can do at most: no record lies deeper than there are records before it. -/
structure Few (n : Nat) (s : CoreProfiler) : Prop where
  depth : ∀ (p : Ptr) (function : FunctionClass), s.functions.get? p = some function → function.depth ≤ p
  size : s.functions.size ≤ n
  gcNumber : s.gcNumber ≤ n + 1

theorem Few.enter (h : Few n s) (hs : Perun.enter f t now s = .ok s') :
    (∀ (p : Ptr) (function : FunctionClass), s'.functions.get? p = some function → function.depth ≤ p) ∧
      s'.functions.size ≤ n + 1 := by
  have hsize := h.size
  rcases enter_cases hs with ⟨-, rfl⟩ | ⟨-, info, -, ⟨-, rfl⟩ | ⟨prev, prevFunction, -, hprev, rfl⟩⟩
  · exact ⟨h.depth, Nat.le_succ_of_le hsize⟩
  · refine ⟨fun p function hp => ?_, by simp [enterTop]; omega⟩
    rw [show (enterTop (newFunction f info t now) t s).functions.get? p = _ from Heap.get?_alloc] at hp
    split at hp
    · rw [← Option.some.inj hp]
      exact Nat.zero_le p
    · exact h.depth p function hp
  · refine ⟨fun p function hp => ?_, by simp [enterBelow]; omega⟩
    rw [get?_enterBelow _ _ _ hprev] at hp
    split at hp
    · next hpp =>
      rw [← Option.some.inj hp, hpp]
      exact h.depth prev prevFunction hprev
    · split at hp
      · next hpp =>
        have hlt := Heap.lt_size hprev
        have hdepth := h.depth prev prevFunction hprev
        rw [← Option.some.inj hp, hpp]
        show prevFunction.depth + 1 ≤ s.functions.size
        omega
      · exact h.depth p function hp

theorem Few.step (ha : s.Alive) (h : Few n s) (hs : Perun.step s e = .ok s') : Few (n + 1) s' := by
  have hsize := h.size
  have hgc : s'.gcNumber ≤ n + 1 + 1 := by
    have hle := h.gcNumber
    rw [(step_gc hs).2]
    split <;> omega
  rcases step_move ha hs with ⟨f, t, now, -, henter⟩ | ⟨t, now, -, hleave⟩ | ⟨-, hf, -⟩
  · obtain ⟨hdepth, hsize⟩ := h.enter henter
    exact ⟨hdepth, hsize, hgc⟩
  · rcases leaveActive_cases hleave with ⟨-, rfl⟩ | ⟨first, active, function, -, hact, rfl⟩
    · exact ⟨h.depth, Nat.le_succ_of_le hsize, hgc⟩
    · refine ⟨fun p g hp => ?_, by simp; omega, hgc⟩
      simp only [Heap.get?_set hact] at hp
      split at hp
      · next hpp =>
        rw [← Option.some.inj hp, hpp]
        exact h.depth active function hact
      · exact h.depth p g hp
  · exact ⟨by rw [hf]; exact h.depth, by rw [hf]; omega, hgc⟩

/-- No `int` overflows in a run of fewer than 2^31 - 2 callbacks. -/
theorem run_intMembers {c : Config} {es : List Callback} (h : run Perun.step c.start es = .ok s)
    (hes : es.length + 2 < 2 ^ 31) : s.IntMembers := by
  have hfew : s.Alive ∧ Few es.length s := by
    refine run_inv_events (P := fun es s => s.Alive ∧ Few es.length s) ⟨(Reachable.start c).alive, ?_⟩ ?_ h
    · refine ⟨fun p function hp => ?_, Nat.le_refl _, Nat.le_refl _⟩
      cases hp
    · rintro es s e s' ⟨ha, hfew⟩ hs
      rw [List.length_append]
      exact ⟨ha.step hs, hfew.step ha hs⟩
  obtain ⟨-, hfew⟩ := hfew
  have hgc := hfew.gcNumber
  refine ⟨fun p function hp => ?_, fun p object hp => ?_, by omega⟩
  · have hlt := Heap.lt_size hp
    have hdepth := hfew.depth p function hp
    have hsize := hfew.size
    omega
  · have hages : object.gcNumber ≤ s.gcNumber ∧ object.untilGcNumber ≤ s.gcNumber := by
      by_cases hd : c.enableDealloc = "1"
      · obtain ⟨hle, hnow⟩ := ((run_lifetime hd es).2 s h).1.ages p object hp
        exact ⟨hle.trans hnow, hnow⟩
      · obtain ⟨heq, hnow⟩ := (run_unmarked hd h).ages p object hp
        exact ⟨hnow, heq ▸ hnow⟩
    omega

end few

/-- The document of a run, without a condition on its collections. -/
theorem shutdown_profile {c : Config} {es : List Callback} {s : CoreProfiler} (h : run step c.start es = .ok s)
    (os : Process) (now : Clock) :
    ∃ events functions records objects s', functionsSection s.functions.size now s = .ok (events, functions) ∧
      objectsSection s = .ok (records, objects) ∧ shutdown os now s = .ok s' ∧
      s'.log.flatten =
        (Json.obj (document c (gcEvents c.start es) (writtenRecords events) records s.names os now)).toks := by
  obtain ⟨⟨events, functions, hf⟩, records, objects, ho⟩ := Reachable.sections ⟨c, es, h⟩ now
  obtain ⟨s', hok, hlog⟩ := shutdown_log os hf ho
  refine ⟨events, functions, records, objects, s', hf, ho, hok, ?_⟩
  rw [hlog, List.append_assoc, List.flatten_append, run_text h]
  exact document_text

/-- The records written of a thread list a tree. -/
theorem Reachable.listing {s : CoreProfiler} (hr : Reachable s) {now : Clock} {events : List FunctionEvent}
    {functions : Heap FunctionClass} (hf : functionsSection s.functions.size now s = .ok (events, functions))
    {r : FunctionRecord} (hrw : r ∈ writtenRecords events) {tid : ThreadID} (htid : r.TID = tid) :
    Rose.Listing (·.nOr) (·.rFn) (·.depth) ((writtenRecords events).filter (·.TID = tid)) := by
  obtain ⟨κ, hκ⟩ := hr.callRecords
  obtain ⟨events', functions', hf', -, hfilter⟩ := hκ.written now (Nat.le_refl _)
  obtain ⟨rfl, -⟩ := Prod.mk.inj (Except.ok.inj (hf.symm.trans hf'))
  have hmem : r ∈ (writtenRecords events).filter (·.TID = tid) := List.mem_filter.2 ⟨hrw, decide_eq_true htid⟩
  rw [hfilter] at hmem ⊢
  refine hκ.listing now fun hnil => ?_
  rw [hnil] at hmem
  cases hmem

theorem Reachable.written_depth {s : CoreProfiler} (hr : Reachable s) (hi : s.IntMembers) {now : Clock}
    {events : List FunctionEvent} {functions : Heap FunctionClass}
    (hf : functionsSection s.functions.size now s = .ok (events, functions)) :
    ∀ r ∈ writtenRecords events, r.depth < 2 ^ 31 := by
  intro r hrw
  obtain ⟨p, function, hfunction, -, hdepth⟩ := hr.written_call (Nat.le_refl _) hf r hrw
  rw [hdepth]
  exact hi.depth p function hfunction

/-- The frame of the functions of a profile with a call. -/
theorem Reachable.makeFunctionDf (hP : P.Loads float) (hp : Function.Injective pointer)
    (hne : ∀ a, pointer a ≠ "") {s : CoreProfiler} (hr : Reachable s) (hi : s.IntMembers) {now : Clock}
    {events : List FunctionEvent} {functions : Heap FunctionClass}
    (hf : functionsSection s.functions.size now s = .ok (events, functions)) (hW : writtenRecords events ≠ [])
    {c : Config} {gcs : List GcEvent} {records : List ObjectRecord} {os : Process} :
    ∃ df, Perun.makeFunctionDf P (parseJson pointer float
        (document c gcs (writtenRecords events) records s.names os now)) = .ok df ∧
      df.Lists functionColumns (writtenRecords events) fun r => computed P (namedRow Fl pointer float s.nameOf r) :=
  makeFunctionDf_lists hP hp hne hr.named.nodup hW (hr.written_depth hi hf) (hr.written_named (Nat.le_refl _) hf)
    (item_document rfl)
    (item_document rfl)

/-- Whatever the callbacks did, the treemap of a thread is drawn from its records down to the depth
asked for, each once, and they are a tree. -/
theorem treemap_isTree (hP : P.Loads float) (hp : Function.Injective pointer) (hne : ∀ a, pointer a ≠ "")
    {c : Config} {es : List Callback} {s : CoreProfiler} (h : run step c.start es = .ok s) (hi : s.IntMembers)
    (os : Process) (now : Clock) :
    ∃ events functions records objects s' ms,
      functionsSection s.functions.size now s = .ok (events, functions) ∧ objectsSection s = .ok (records, objects) ∧
      shutdown os now s = .ok s' ∧ s'.log.flatten = (Json.obj ms).toks ∧
      ms = document c (gcEvents c.start es) (writtenRecords events) records s.names os now ∧
      ∀ tid, (∃ r ∈ writtenRecords events, r.TID = tid) → ∀ maxDepth : Nat,
        ∃ df rows, makeFunctionDf P (parseJson pointer float ms) = .ok df ∧
          showTreemapFunc df maxDepth ("0x" ++ pointer tid) = .ok rows ∧
          rows.Perm (((writtenRecords events).filter fun r => r.TID = tid ∧ r.depth ≤ maxDepth).map
            (FunctionRecord.drawn P float s.nameOf)) ∧
          (rows.map (·.id)).Nodup ∧ (∃ root, rows.filter (fun row => row.parent = some (.text "")) = [root]) ∧
          ∀ row ∈ rows, row.parent ≠ some (.text "") → ∃ row' ∈ rows, row'.id = row.parent ∧ row'.id ≠ row.id := by
  have hr : Reachable s := ⟨c, es, h⟩
  obtain ⟨events, functions, records, objects, s', hf, ho, hok, hlog⟩ := shutdown_profile h os now
  refine ⟨events, functions, records, objects, s', _, hf, ho, hok, hlog, rfl, ?_⟩
  rintro tid ⟨r, hrw, htid⟩ maxDepth
  obtain ⟨df, hdf, hlists⟩ := hr.makeFunctionDf hP hp hne hi hf (List.ne_nil_of_mem hrw)
  obtain ⟨rows, hrows, hperm⟩ := showTreemapFunc_lists hP.toReads hp hlists (hr.written_depth hi hf) tid maxDepth
  simp only [Nat.cast_le] at hperm
  refine ⟨df, rows, hdf, hrows, ?_, drawn_tree ((hr.listing hf hrw htid).cut maxDepth) hperm⟩
  rw [List.filter_filter] at hperm
  convert hperm using 3
  funext r
  rw [Bool.decide_and, Bool.and_comm]

end drawn

/-! ### A table library -/

/-- What `%f` prints of a whole number of seconds. -/
def seconds (t : Time) : String := toString t.num ++ ".000000"

/-- Tables of `Lib.Table`, with rational numbers for the floats. -/
def tables : Pandas Time where
  dataFrame ds := Table.ofDicts (ds.map fun d => d.map fun e => (e.1, .text e.2))
  fromDict d column index := ⟨[index, column], d.map fun e => Dict.get? [(index, .text e.1), (column, .text e.2)]⟩
  merge left right on := Table.join on left right
  dropna df := df.dropMissing
  astypeFloat
    | .text s => (String.ofList (s.toList.take (s.toList.length - 7))).toInt?.map fun n => (n : Time)
    | .int n => some n
    | .float x => some x
  astypeInt
    | .text s => s.toInt?
    | .int n => some n
    | .float x => some (x.num.tdiv x.den)
  millis leave enter := (leave - enter) * 1000
  groupbySum df key column k := if df.group key k = [] then none
    else some (.int (((df.group key k).map fun r => Cell.toInt (r column)).sum))
  groupbySize df key k := if df.group key k = [] then none else some (.int (df.group key k).length)

theorem tables_documented : tables.Documented seconds where
  dataFrame _ := rfl
  fromDict _ _ _ := ⟨rfl, rfl⟩
  merge _ _ _ _ := ⟨fun _ => Iff.rfl, .rfl⟩
  dropna _ := rfl
  astypeFloat t := by
    have htake : ((seconds t).toList.take ((seconds t).toList.length - 7)) = (toString t.num).toList := by
      rw [seconds, String.toList_append, List.length_append]
      exact List.take_left
    simp only [tables]
    rw [htake, String.ofList_toList, Int.toString_eq_repr, Int.toInt?_repr]
    rfl
  astypeInt n _ _ := ⟨Int.toInt?_repr n, rfl⟩
  groupbySum _ _ _ _ _ := rfl
  groupbySize _ _ _ := rfl

theorem printed_injective : Function.Injective fun a : Nat => "0x" ++ a.repr := fun _ _ h =>
  Nat.repr_injective ((String.append_right_inj "0x").1 h)

theorem printed_ne (a : Nat) : "0x" ++ a.repr ≠ "" := fun h => by simpa using congrArg String.length h

theorem treemap_isTree_twoThreads :
    ∃ s, run step Config.plain.start twoThreads = .ok s ∧
      ∃ events functions records objects s' ms,
        functionsSection s.functions.size ⟨9, 9⟩ s = .ok (events, functions) ∧
        objectsSection s = .ok (records, objects) ∧ shutdown ⟨1, 1⟩ ⟨9, 9⟩ s = .ok s' ∧
        s'.log.flatten = (Json.obj ms).toks ∧
        ms = document .plain (gcEvents Config.plain.start twoThreads) (writtenRecords events) records s.names
          ⟨1, 1⟩ ⟨9, 9⟩ ∧
        ∀ tid, (∃ r ∈ writtenRecords events, r.TID = tid) → ∀ maxDepth : Nat,
          ∃ df rows, makeFunctionDf tables (parseJson (fun a => "0x" ++ a.repr) seconds ms) = .ok df ∧
            showTreemapFunc df maxDepth ("0x" ++ ("0x" ++ tid.repr)) = .ok rows ∧
            rows.Perm (((writtenRecords events).filter fun r => r.TID = tid ∧ r.depth ≤ maxDepth).map
              (FunctionRecord.drawn tables seconds s.nameOf)) ∧
            (rows.map (·.id)).Nodup ∧ (∃ root, rows.filter (fun row => row.parent = some (.text "")) = [root]) ∧
            ∀ row ∈ rows, row.parent ≠ some (.text "") → ∃ row' ∈ rows, row'.id = row.parent ∧ row'.id ≠ row.id :=
  ⟨_, rfl, treemap_isTree tables_documented.toLoads printed_injective printed_ne
    (show run step Config.plain.start twoThreads = .ok _ from rfl) (by decide) ⟨1, 1⟩ ⟨9, 9⟩⟩

end Perun
