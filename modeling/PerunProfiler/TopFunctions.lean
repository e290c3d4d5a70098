import PerunProfiler.Modes

/-!
# The table of functions

`display_top_callbacks_functions`, sorted by the number of calls. On the profile of any run it lists the
names that are called most, and the count of a name is the number of calls of its functions that have
been recorded, over all threads and whether or not they have been left.
-/

namespace Perun
open Lib

/-! ### The recorded calls -/

/-- The call that a callback records, and its thread. -/
def Callback.recordedCall (s : CoreProfiler) (e : Callback) : Option (ThreadID × FunctionID × Clock) :=
  match e.move with
  | some (.enter f t now) => if s.traced f then some (t, f, now) else none
  | _ => none

def recordedCalls (s : CoreProfiler) (es : List Callback) : List (ThreadID × FunctionID × Clock) :=
  outputs step (fun s e => e.recordedCall s) s es

section calls
variable {s : CoreProfiler} {e : Callback} {t : ThreadID} {now : Clock} {c : Config} {es : List Callback}

theorem recordedEnters_eq (t : ThreadID) (s : CoreProfiler) (es : List Callback) :
    recordedEnters t s es = ofKey t (recordedCalls s es) := by
  have hout : (fun (s : CoreProfiler) (e : Callback) => e.enters t s) = fun s e =>
      (e.recordedCall s).bind fun x => if x.1 = t then some x.2 else none := by
    funext s e
    unfold Callback.enters Callback.recordedCall
    rcases e.move with - | ⟨f, u, now⟩ | ⟨u, now⟩
    · rfl
    · by_cases hu : u = t <;> cases hf : s.traced f <;> simp [hu, hf]
    · rfl
  rw [recordedEnters, hout, ofKey, recordedCalls, outputs_filterMap]

/-- Every recorded call is written once. -/
theorem run_written_recorded (h : run step c.start es = .ok s) {events : List FunctionEvent}
    {functions : Heap FunctionClass} (hf : functionsSection s.functions.size now s = .ok (events, functions)) :
    ((writtenRecords events).map fun r => (r.TID, r.call)).Perm (recordedCalls c.start es) := by
  refine perm_of_ofKey fun t => ?_
  rw [← recordedEnters_eq, ← run_written_calls h hf t, ofKey, List.filterMap_map, ← List.filterMap_eq_map,
    List.filterMap_filter]
  refine List.filterMap_congr fun r _ => ?_
  by_cases ht : r.TID = t <;> simp [ht]

end calls

/-! ### What the documentation says -/

section documented
variable {Fl : Type} [DecidableEq Fl]

def FloatColumn (df : DataFrame Fl) (column : String) : Prop := ∀ r ∈ df.rows, ∃ x, r column = some (.float x)

/-- The row of a group: the first values that are not missing, and the sums of the times. -/
def aggregated (sum : List Fl → Fl) (df : DataFrame Fl) (key : String) (k : Cell Fl) : Row (Cell Fl) :=
  fun c =>
    if c = key then some k
    else if c ∈ ["class", "function"] then (df.group key k).findSome? fun r => r c
    else if c ∈ ["wallTime", "cpuTime"] then some (.float (sum (floats c (df.filter fun r => r key = some k))))
    else none

/-- `sum` adds floats, in the order of the rows. -/
structure FunctionPandas.Documented (Q : FunctionPandas Fl) (sum : List Fl → Fl) : Prop
    extends toObjectDocumented : Q.toObjectPandas.Documented where
  groupbyAggFirst : ∀ (df : DataFrame Fl) (key : String), FloatColumn df "wallTime" → FloatColumn df "cpuTime" →
    (Q.groupbyAggFirst df key).columns = [key, "class", "function", "wallTime", "cpuTime"] ∧
      (Q.groupbyAggFirst df key).rows.Perm ((df.keys key).map (aggregated sum df key))

end documented

/-! ### The first rows of a sorted frame -/

section largest
variable {Fl ι : Type} [DecidableEq Fl] {Q : ObjectPandas Fl} {df : DataFrame Fl} {column : String}
  {L : List ι} {row : ι → Row (Cell Fl)} {value : ι → Int}

/-- Sorting numbers the rows, and the cut keeps the first ones of some order. -/
theorem ObjectPandas.Documented.largest (hQ : Q.Documented) (hindex : "index" ∉ df.columns)
    (hcolumn : column ≠ "index") (hrows : df.rows.Perm (L.map row))
    (hvalue : ∀ i, row i column = some (.int (value i))) (n : Nat) :
    (Q.nlargest (Q.resetIndex (Q.sortValues df column)) n column).columns = "index" :: df.columns ∧
      ∃ order : List ι, order.Perm L ∧ order.Pairwise (fun i j => value j ≤ value i) ∧
        (Q.nlargest (Q.resetIndex (Q.sortValues df column)) n column).rows.map (fun r => r.set "index" none) =
          (order.take n).map fun i => (row i).set "index" none := by
  have hforget : ∀ r : Row (Cell Fl), r.set "index" none column = r column := fun r => if_neg hcolumn
  have hint : IntColumn df column := by
    intro r hr
    obtain ⟨i, -, rfl⟩ := List.mem_map.1 (hrows.mem_iff.1 hr)
    exact ⟨_, hvalue i⟩
  obtain ⟨hsortColumns, hsortRows⟩ := hQ.sortValues df column hint
  obtain ⟨hresetColumns, hresetRows⟩ := hQ.resetIndex (Q.sortValues df column) (hsortColumns ▸ hindex)
  have hreset : ((Q.resetIndex (Q.sortValues df column)).rows.map fun r => r.set "index" none).Perm
      (L.map fun i => (row i).set "index" none) := by
    rw [hresetRows]
    have hmap := (hsortRows.trans hrows).map fun r : Row (Cell Fl) => r.set "index" none
    rwa [List.map_map] at hmap
  have hintReset : IntColumn (Q.resetIndex (Q.sortValues df column)) column := by
    intro r hr
    obtain ⟨i, -, hi⟩ := List.mem_map.1 (hreset.mem_iff.1 (List.mem_map_of_mem hr))
    have hsame : row i column = r column := by rw [← hforget (row i), hi, hforget r]
    exact ⟨_, hsame.symm.trans (hvalue i)⟩
  obtain ⟨hlargestColumns, rows, hperm, hsorted, htake⟩ := hQ.nlargest _ n column hintReset
  obtain ⟨order, horder, heq⟩ := exists_perm_map ((hperm.map fun r : Row (Cell Fl) => r.set "index" none).trans hreset)
  refine ⟨by rw [hlargestColumns, hresetColumns, hsortColumns], order, horder, ?_, ?_⟩
  · have hpairs : (rows.map fun r : Row (Cell Fl) => r.set "index" none).Pairwise fun r next =>
        Cell.toInt (next column) ≤ Cell.toInt (r column) := by
      refine List.pairwise_map.2 (hsorted.imp fun {r next} hle => ?_)
      rwa [hforget, hforget]
    rw [heq, List.pairwise_map] at hpairs
    refine hpairs.imp fun {i j} hle => ?_
    rwa [hforget, hforget, hvalue, hvalue] at hle
  · rw [htake, List.map_take, heq, ← List.map_take]

end largest

/-! ### The table -/

section table
variable {Fl : Type} [DecidableEq Fl] {Q : FunctionPandas Fl} {float : Time → String} {sum : List Fl → Fl}
  {pointer : Nat → String} {df : DataFrame Fl} {W : List FunctionRecord} {name : FunctionID → String} {called : List String}

/-- What `make_function_df` computes for the time of a call. -/
def FunctionRecord.wallTime (P : Pandas Fl) (float : Time → String) (r : FunctionRecord) : Option (Cell Fl) :=
  millis P ((P.astypeFloat (.text (float r.lWALLt))).map .float) ((P.astypeFloat (.text (float r.eWALLt))).map .float)

/-- The row of the name `v` in the table: how often it is called, and the sum of the times of its calls. -/
structure ListsName (Q : FunctionPandas Fl) (float : Time → String) (sum : List Fl → Fl) (W : List FunctionRecord)
    (name : FunctionID → String) (called : List String) (v : String) (r : Row (Cell Fl)) : Prop where
  functionName : r "Function name" = some (.text v)
  count : r "count" = some (.int (called.count v))
  className : r "class" = part "::" 0 (some (.text v))
  method : r "function" = part "::" 1 (some (.text v))
  time : ∃ times : List Fl, (times.map fun x => some (Cell.float x)).Perm
      ((W.filter (name ·.fID = v)).map (FunctionRecord.wallTime Q.toPandas float)) ∧
    r "Time" = some (.text (Q.roundStr (.float (sum times)) ++ " ms"))

/-- The row of a name before the columns are renamed. -/
def mergedRow (sum : List Fl → Fl) (df : DataFrame Fl) (k : Cell Fl) : Row (Cell Fl) := fun c =>
  if c ∈ ["fName", "class", "function", "wallTime", "cpuTime"] then aggregated sum df "fName" k c
  else Dict.get? [("fName", k), ("count", .int (df.group "fName" k).length)] c

omit [DecidableEq Fl] in
theorem computed_floatColumn (hP : Q.toPandas.Reads float)
    (h : df.Lists functionColumns W fun r => computed Q.toPandas (namedRow Fl pointer float name r)) :
    FloatColumn df "wallTime" ∧ FloatColumn df "cpuTime" := by
  have hfloat : ∀ t t' : Time, ∃ x, millis Q.toPandas ((Q.astypeFloat (.text (float t))).map .float)
      ((Q.astypeFloat (.text (float t'))).map .float) = some (.float x) := by
    intro t t'
    obtain ⟨x, hx⟩ := Option.isSome_iff_exists.1 (hP.astypeFloat t)
    obtain ⟨y, hy⟩ := Option.isSome_iff_exists.1 (hP.astypeFloat t')
    exact ⟨Q.millis x y, by rw [hx, hy]; rfl⟩
  constructor
  · intro r hr
    obtain ⟨r, -, rfl⟩ := List.mem_map.1 (h.rows.mem_iff.1 hr)
    exact hfloat r.lWALLt r.eWALLt
  · intro r hr
    obtain ⟨r, -, rfl⟩ := List.mem_map.1 (h.rows.mem_iff.1 hr)
    exact hfloat r.lCPUt r.eCPUt

/-- A row for each name. -/
theorem merged_names (hP : Q.toPandas.Reads float) (hQ : Q.Documented sum)
    (h : df.Lists functionColumns W fun r => computed Q.toPandas (namedRow Fl pointer float name r)) :
    (∀ c, c ∈ (Q.merge (Q.groupbyAggFirst df "fName") (Q.groupbySizeFrame df "fName" "count") "fName").columns ↔
        c ∈ ["fName", "class", "function", "wallTime", "cpuTime", "count"]) ∧
      (Q.merge (Q.groupbyAggFirst df "fName") (Q.groupbySizeFrame df "fName" "count") "fName").rows.Perm
        ((df.keys "fName").map (mergedRow sum df)) := by
  obtain ⟨hwall, hcpu⟩ := computed_floatColumn hP h
  obtain ⟨hleft, hleftRows⟩ := hQ.groupbyAggFirst df "fName" hwall hcpu
  have hright := hQ.groupbySizeFrame df "fName" "count"
  obtain ⟨hcolumns, hrows⟩ := hQ.merge (Q.groupbyAggFirst df "fName") (Q.groupbySizeFrame df "fName" "count") "fName"
    fun c hc hc' => by
      rw [hleft] at hc
      rw [hright.columns] at hc'
      revert c
      decide
  refine ⟨fun c => ?_, hrows.trans ?_⟩
  · rw [hcolumns, Table.mem_columns_join, hleft, hright.columns]
    simp only [List.mem_cons, List.not_mem_nil, or_false]
    tauto
  · have hjoin := Table.join_groups "fName" Table.nodup_keys hleftRows hright.rows (fun k => rfl) fun k => rfl
    rw [hleft] at hjoin
    exact hjoin

/-- What the table does with a row. -/
def tableRow (Q : FunctionPandas Fl) (r : Row (Cell Fl)) : Row (Cell Fl) :=
  let r := r.set "index" none
  let r := (r.set "fName" none).set "Function name" (r "fName")
  let r := r.set "wallTime" ((r "wallTime").map fun value => .text (Q.roundStr value))
  let r := r.set "wallTime" (inMillis (r "wallTime"))
  (r.set "wallTime" none).set "Time" (r "wallTime")

def tableOf (Q : FunctionPandas Fl) (df : DataFrame Fl) : DataFrame Fl :=
  ((((df.drop "index").rename "fName" "Function name").assign "wallTime" fun r =>
    (r "wallTime").map fun value => .text (Q.roundStr value)).assign "wallTime" fun r =>
      inMillis (r "wallTime")).rename "wallTime" "Time"

omit [DecidableEq Fl] in
theorem rows_tableOf (hname : "fName" ∈ df.columns) : (tableOf Q df).rows = df.rows.map (tableRow Q) := by
  have hdrop : "fName" ∈ (df.drop "index").columns := List.mem_filter.2 ⟨hname, by decide⟩
  unfold tableOf
  rw [Table.rename_of_mem _ hdrop, Table.rename_of_mem _ ((Table.mem_columns_assign _).2 (.inr rfl))]
  show ((((df.rows.map _).map _).map _).map _).map _ = _
  rw [List.map_map, List.map_map, List.map_map, List.map_map]
  rfl

omit [DecidableEq Fl] in
theorem tableRow_index (Q : FunctionPandas Fl) (r : Row (Cell Fl)) : tableRow Q (r.set "index" none) = tableRow Q r := by
  unfold tableRow
  rw [Row.set_set]

theorem names_perm (h : df.Lists functionColumns W fun r => computed Q.toPandas (namedRow Fl pointer float name r))
    (hcalled : (W.map fun r => name r.fID).Perm called) : (df.keys "fName").Perm (called.dedup.map .text) := by
  have hkeys := h.keys_perm (c := "fName") (f := fun r => .text (name r.fID)) fun r => rfl
  have hmap : (W.map fun r => (Cell.text (name r.fID) : Cell Fl)) = (W.map fun r => name r.fID).map .text := by
    rw [List.map_map]
    rfl
  rw [hmap, List.dedup_map_of_injective fun _ _ => Cell.text.inj] at hkeys
  exact hkeys.trans (hcalled.dedup.map _)

theorem group_name (h : df.Lists functionColumns W fun r => computed Q.toPandas (namedRow Fl pointer float name r))
    (v : String) : (df.group "fName" (.text v)).Perm
      ((W.filter (name ·.fID = v)).map fun r => computed Q.toPandas (namedRow Fl pointer float name r)) := by
  have hgroup := h.group (c := "fName") (f := fun r => .text (name r.fID)) (fun r => rfl) (.text v)
  simpa only [Cell.text.injEq] using hgroup

theorem mergedRow_count (sum : List Fl → Fl)
    (h : df.Lists functionColumns W fun r => computed Q.toPandas (namedRow Fl pointer float name r))
    (hcalled : (W.map fun r => name r.fID).Perm called) (v : String) :
    mergedRow sum df (.text v) "count" = some (.int (called.count v)) := by
  have hlength := (group_name h v).length_eq
  rw [List.length_map, ← List.countP_eq_length_filter] at hlength
  show some (Cell.int (df.group "fName" (.text v)).length) = _
  rw [hlength, ← hcalled.count_eq, List.count, List.countP_map]
  rfl

theorem topFunctions_rows (hP : Q.toPandas.Reads float) (hQ : Q.Documented sum)
    (h : df.Lists functionColumns W fun r => computed Q.toPandas (namedRow Fl pointer float name r))
    (hcalled : (W.map fun r => name r.fID).Perm called) (n : Nat) :
    ∃ table, ∃ order : List String, displayTopCallbacksFunctions Q df n .count = .ok table ∧ order.Perm called.dedup ∧
      order.Pairwise (fun v v' => called.count v' ≤ called.count v) ∧
      table.rows = (order.take n).map fun v => tableRow Q (mergedRow sum df (.text v)) := by
  obtain ⟨hcolumns, hrows⟩ := merged_names hP hQ h
  obtain ⟨merged, hmerged⟩ : ∃ merged, Q.merge (Q.groupbyAggFirst df "fName")
    (Q.groupbySizeFrame df "fName" "count") "fName" = merged := ⟨_, rfl⟩
  rw [hmerged] at hcolumns hrows
  replace hrows := hrows.trans ((names_perm h hcalled).map (mergedRow sum df))
  rw [List.map_map] at hrows
  obtain ⟨hlargest, order, horder, hsorted, hlargestRows⟩ := hQ.toObjectDocumented.largest
    (fun hindex => absurd ((hcolumns _).1 hindex) (by decide)) (by decide) hrows (mergedRow_count sum h hcalled) n
  have hname : "fName" ∈ (Q.nlargest (Q.resetIndex (Q.sortValues merged "count")) n "count").columns := by
    rw [hlargest]
    exact List.mem_cons_of_mem _ ((hcolumns _).2 (by decide))
  refine ⟨tableOf Q (Q.nlargest (Q.resetIndex (Q.sortValues merged "count")) n "count"), order, ?_, horder, ?_, ?_⟩
  · have hkey : need df ["fName"] = .ok () := need_ok fun c hc => h.columns c (by revert c; decide)
    have hneed : need df ["class", "function", "wallTime", "cpuTime"] = .ok () :=
      need_ok fun c hc => h.columns c (by revert c; decide)
    rw [displayTopCallbacksFunctions]
    show (need df ["fName"] >>= _) = _
    rw [hkey]
    show (need df _ >>= _) = _
    rw [hneed, ← hmerged]
    rfl
  · exact hsorted.imp fun hle => Int.ofNat_le.1 hle
  · -- the table does not read the new index
    have htable : ∀ rows : List (Row (Cell Fl)),
        rows.map (tableRow Q) = (rows.map fun r => r.set "index" none).map (tableRow Q) := by
      intro rows
      rw [List.map_map]
      exact List.map_congr_left fun r _ => (tableRow_index Q r).symm
    rw [rows_tableOf hname, htable, hlargestRows, List.map_map]
    exact List.map_congr_left fun v _ => tableRow_index Q _

omit [DecidableEq Fl] in
theorem floats_values {c : String} (h : FloatColumn df c) :
    (floats c df).map (fun x => some (Cell.float x)) = df.values c := by
  have hvalues : ∀ v ∈ df.values c, ∃ x, v = some (.float x) := by
    intro v hv
    obtain ⟨r, hr, rfl⟩ := Table.mem_values.1 hv
    exact h r hr
  unfold floats
  generalize df.values c = vs at hvalues ⊢
  induction vs with
  | nil => rfl
  | cons v vs ih =>
    obtain ⟨x, rfl⟩ := hvalues v List.mem_cons_self
    have hvs := ih fun v hv => hvalues v (List.mem_cons_of_mem _ hv)
    exact congrArg (some (Cell.float x) :: ·) hvs

theorem listsName (hP : Q.toPandas.Reads float)
    (h : df.Lists functionColumns W fun r => computed Q.toPandas (namedRow Fl pointer float name r))
    (hcalled : (W.map fun r => name r.fID).Perm called) {v : String} (hv : v ∈ called) :
    ListsName Q float sum W name called v (tableRow Q (mergedRow sum df (.text v))) := by
  have hgroup := group_name h v
  have hne : df.group "fName" (.text v) ≠ [] := by
    obtain ⟨r, hr, hname⟩ := List.mem_map.1 (hcalled.mem_iff.2 hv)
    refine List.ne_nil_of_mem (hgroup.mem_iff.2 (List.mem_map_of_mem (List.mem_filter.2 ⟨hr, ?_⟩)))
    exact decide_eq_true hname
  have hfirst : ∀ {c : String} {value : Option (Cell Fl)},
      (∀ r : FunctionRecord, name r.fID = v → computed Q.toPandas (namedRow Fl pointer float name r) c = value) →
        (df.group "fName" (.text v)).findSome? (fun r => r c) = value := by
    intro c value hvalue
    refine findSome?_const (fun r hr => ?_) hne
    obtain ⟨r', hr', rfl⟩ := List.mem_map.1 (hgroup.mem_iff.1 hr)
    exact hvalue r' (of_decide_eq_true (List.mem_filter.1 hr').2)
  refine ⟨rfl, mergedRow_count sum h hcalled v, hfirst fun r hr => ?_, hfirst fun r hr => ?_,
    floats "wallTime" (df.filter fun r => r "fName" = some (.text v)), ?_, rfl⟩
  · rw [← hr]
    rfl
  · rw [← hr]
    rfl
  · have hfloat : FloatColumn (df.filter fun r => r "fName" = some (.text v)) "wallTime" :=
      fun r hr => (computed_floatColumn hP h).1 r (List.mem_filter.1 hr).1
    rw [floats_values hfloat]
    have hmap := hgroup.map fun r : Row (Cell Fl) => r "wallTime"
    rwa [List.map_map] at hmap

end table

/-! ### On the profile of a run -/

/-- The names of the functions of the recorded calls. -/
def recordedNames (c : Config) (es : List Callback) (s : CoreProfiler) : List String :=
  (recordedCalls c.start es).map fun x => s.nameOf x.2.1

/-- On the profile of any run: the table of the functions, sorted by count. -/
theorem run_topFunctions {Fl : Type} [DecidableEq Fl] {Q : FunctionPandas Fl} {pointer : Nat → String}
    {float : Time → String} {sum : List Fl → Fl} (hP : Q.toPandas.Loads float) (hQ : Q.Documented sum)
    (hprint : Prints pointer float) (hp : Function.Injective pointer) (hne : ∀ a, pointer a ≠ "")
    {c : Config} {es : List Callback} {s : CoreProfiler} (h : run step c.start es = .ok s) (hi : s.IntMembers)
    (hn : s.PlainNames) (os : Process) (now : Clock) :
    ∃ events functions s' data, functionsSection s.functions.size now s = .ok (events, functions) ∧
      shutdown os now s = .ok s' ∧ (∀ e : Encoding, loadJson e (fileBytes pointer float s'.log.flatten) = some data) ∧
      (recordedCalls c.start es ≠ [] → ∀ n : Nat,
        ∃ df table, ∃ shown : List String, makeFunctionDf Q.toPandas data = .ok df ∧
          displayTopCallbacksFunctions Q df n .count = .ok table ∧
          Ranks ((recordedNames c es s).count ·) (recordedNames c es s) shown n ∧
          List.Forall₂ (ListsName Q float sum (writtenRecords events) s.nameOf (recordedNames c es s)) shown
            table.rows) := by
  have hr : Reachable s := ⟨c, es, h⟩
  obtain ⟨events, functions, records, objects, s', hf, -, hok, hload⟩ := shutdown_loaded hprint h hn os now
  refine ⟨events, functions, s', _, hf, hok, hload, fun hcalls n => ?_⟩
  have hwritten := run_written_recorded h hf
  have hcalled : ((writtenRecords events).map fun r => s.nameOf r.fID).Perm (recordedNames c es s) := by
    have hmap := hwritten.map fun x => s.nameOf x.2.1
    rwa [List.map_map] at hmap
  have hW : writtenRecords events ≠ [] := by
    intro hnil
    rw [hnil] at hwritten
    exact hcalls (List.nil_perm.1 hwritten)
  obtain ⟨df, hdf, hlists⟩ := hr.makeFunctionDf hP hp hne hi hf hW
  obtain ⟨table, order, htable, horder, hsorted, hrows⟩ := topFunctions_rows hP.toReads hQ hlists hcalled n
  refine ⟨df, table, order.take n, hdf, htable, .take horder hsorted n, ?_⟩
  rw [hrows, List.forall₂_map_right_iff, List.forall₂_same]
  intro v hv
  exact listsName hP.toReads hlists hcalled (List.mem_dedup.1 (horder.mem_iff.1 (List.mem_of_mem_take hv)))

theorem functionTables_documented : functionTables.Documented List.sum where
  toObjectDocumented := objectTables_documented
  groupbyAggFirst df key _ _ := by
    refine ⟨rfl, .of_eq (List.map_congr_left fun k _ => ?_)⟩
    funext c
    simp only [aggregated, floats, Table.values, List.filterMap_map]
    refine if_congr Iff.rfl rfl (if_congr Iff.rfl rfl (if_congr Iff.rfl ?_ rfl))
    refine congrArg (fun times : List Time => some (Cell.float times.sum)) (List.filterMap_congr fun r _ => ?_)
    rw [Function.comp_apply]
    rcases r c with - | (_ | _ | _) <;> rfl

theorem run_topFunctions_twoThreads :
    ∃ s, run step Config.plain.start twoThreads = .ok s ∧ ∃ s' data df table, ∃ shown : List String,
      shutdown ⟨1, 1⟩ ⟨9, 9⟩ s = .ok s' ∧
      loadJson .utf8 (fileBytes (fun a => "0x" ++ a.repr) seconds s'.log.flatten) = some data ∧
      makeFunctionDf functionTables.toPandas data = .ok df ∧
      displayTopCallbacksFunctions functionTables df 10 .count = .ok table ∧
      Ranks ((recordedNames .plain twoThreads s).count ·) (recordedNames .plain twoThreads s) shown 10 := by
  obtain ⟨s, hs⟩ : ∃ s, run step Config.plain.start twoThreads = .ok s := ⟨_, rfl⟩
  obtain ⟨events, functions, s', data, -, hok, hload, hall⟩ := run_topFunctions tables_documented.toLoads
    functionTables_documented prints_printed printed_injective printed_ne hs
    (run_intMembers hs (by decide)) (by obtain rfl : _ = s := Except.ok.inj hs; decide)
    ⟨1, 1⟩ ⟨9, 9⟩
  obtain ⟨df, table, shown, hdf, htable, hranks, -⟩ := hall (by decide) 10
  exact ⟨s, hs, s', data, df, table, shown, hok, hload .utf8, hdf, htable, hranks⟩

end Perun
