import PerunProfiler.Dropped
import PerunProfiler.Lib.Top
import PerunProfiler.ObjectPlots

/-!
# The top types of objects

The table drops the objects without a type before it takes the types with the largest sums; the plot
takes them first and drops the objects afterwards. So objects without a type may cost the plot a type.
-/

namespace Perun
open Lib

section frames
variable {Fl : Type} [DecidableEq Fl]

/-- A frame as `make_objects_df` makes it. -/
structure ObjectFrame (df : DataFrame Fl) : Prop where
  columns : ∀ c ∈ ["eWALLt", "eCPUt", "objSize", "objType", "Object type"], c ∈ df.columns
  fresh : "index" ∉ df.columns ∧ "Object size (Bytes)" ∉ df.columns
  rows : ∀ r ∈ df.rows, ∃ (wall cpu : Fl) (size : Int) (type name : String), r "eWALLt" = some (.float wall) ∧
    r "eCPUt" = some (.float cpu) ∧ r "objSize" = some (.int size) ∧ r "objType" = some (.text type) ∧
    r "Object type" = some (.text name)

def types (df : DataFrame Fl) : Finset (Cell Fl) := (df.keys "objType").toFinset

/-- The sum of the sizes of a type. -/
def total (df : DataFrame Fl) (k : Cell Fl) : Int := groupTotal df "objType" "objSize" k

end frames

section pairs
variable {Fl : Type} {df : DataFrame Fl} {key column : String} {ks : List (Cell Fl)} {g : Cell Fl → Int}

/-- The groups `ks`, in some order, with `g` in a column. -/
def Pairs (df : DataFrame Fl) (key column : String) (ks : List (Cell Fl)) (g : Cell Fl → Int) : Prop :=
  (df.rows.map fun r => (r key, r column)).Perm (ks.map fun k => (some k, some (.int (g k))))

theorem Pairs.mem (h : Pairs df key column ks g) {r : Row (Cell Fl)} (hr : r ∈ df.rows) :
    ∃ k ∈ ks, r key = some k ∧ r column = some (.int (g k)) := by
  obtain ⟨k, hk, heq⟩ := List.mem_map.1 (h.mem_iff.1 (List.mem_map_of_mem hr))
  obtain ⟨hkey, hcolumn⟩ := Prod.mk.inj heq
  exact ⟨k, hk, hkey.symm, hcolumn.symm⟩

theorem Pairs.exists (h : Pairs df key column ks g) {k : Cell Fl} (hk : k ∈ ks) :
    ∃ r ∈ df.rows, r key = some k ∧ r column = some (.int (g k)) := by
  obtain ⟨r, hr, heq⟩ := List.mem_map.1 (h.mem_iff.2 (List.mem_map_of_mem hk))
  obtain ⟨hkey, hcolumn⟩ := Prod.mk.inj heq
  exact ⟨r, hr, hkey, hcolumn⟩

theorem Pairs.intColumn (h : Pairs df key column ks g) : IntColumn df column := by
  intro r hr
  obtain ⟨k, -, -, hcolumn⟩ := h.mem hr
  exact ⟨g k, hcolumn⟩

theorem Pairs.congr (h : Pairs df key column ks g) {g' : Cell Fl → Int} (hg : ∀ k ∈ ks, g k = g' k) :
    Pairs df key column ks g' :=
  h.trans (.of_eq (List.map_congr_left fun k hk => by rw [hg k hk]))

end pairs

section grouped
variable {Fl : Type} [DecidableEq Fl] {Q : ObjectPandas Fl} {df source : DataFrame Fl}
  {key column : String} {ks : List (Cell Fl)} {g : Cell Fl → Int}

theorem IsGrouped.pairs (h : IsGrouped source key column (fun k => .int (g k)) df) (hne : column ≠ key) :
    Pairs df key column (source.keys key) g := by
  have hrows := h.rows.map fun r : Row (Cell Fl) => (r key, r column)
  rw [List.map_map] at hrows
  refine hrows.trans (.of_eq (List.map_congr_left fun k _ => ?_))
  simp [Dict.get?, Ne.symm hne]

theorem Pairs.sortValues (hQ : Q.Documented) (h : Pairs df key column ks g) :
    Pairs (Q.sortValues df column) key column ks g :=
  ((hQ.sortValues df column h.intColumn).2.map _).trans h

theorem Pairs.resetIndex (hQ : Q.Documented) (h : Pairs df key column ks g) (hdf : "index" ∉ df.columns)
    (hkey : key ≠ "index") (hcolumn : column ≠ "index") : Pairs (Q.resetIndex df) key column ks g := by
  have hsame := congrArg (List.map fun r : Row (Cell Fl) => (r key, r column)) (hQ.resetIndex df hdf).2
  rw [List.map_map, List.map_map] at hsame
  have hforget : (fun r : Row (Cell Fl) => (r key, r column)) ∘ (fun r : Row (Cell Fl) => r.set "index" none) =
      fun r => (r key, r column) := by
    funext r
    rw [Function.comp_apply, Row.set_ne _ _ hkey, Row.set_ne _ _ hcolumn]
  rw [hforget] at hsame
  exact (List.Perm.of_eq hsame).trans h

/-- What `nlargest` leaves of the groups. -/
theorem Pairs.nlargest (hQ : Q.Documented) (h : Pairs df key column ks g) (hks : ks.Nodup)
    (hg : Set.InjOn g ks.toFinset) (n : Nat) (v : Option (Cell Fl)) :
    v ∈ (Q.nlargest df n column).values key ↔ ∃ k ∈ top g ks.toFinset n, v = some k := by
  obtain ⟨-, rows, hperm, hsorted, htake⟩ := hQ.nlargest df n column h.intColumn
  have hvalues : (rows.map fun r => Cell.toInt (r column)).Perm (ks.map g) := by
    have hmap := ((hperm.map fun r : Row (Cell Fl) => (r key, r column)).trans h).map fun x => Cell.toInt x.2
    rw [List.map_map, List.map_map] at hmap
    exact hmap
  have htop : ∀ r ∈ rows, ∀ k ∈ ks, r column = some (.int (g k)) → (r ∈ rows.take n ↔ k ∈ top g ks.toFinset n) :=
    fun r hr k hk hcolumn => mem_take_iff hks hg hvalues hsorted hr hk (by rw [hcolumn]; rfl)
  rw [Table.mem_values, htake]
  constructor
  · rintro ⟨r, hr, rfl⟩
    have hrow := List.mem_of_mem_take hr
    obtain ⟨k, hk, hkey, hcolumn⟩ := h.mem (hperm.mem_iff.1 hrow)
    exact ⟨k, (htop r hrow k hk hcolumn).1 hr, hkey⟩
  · rintro ⟨k, hk, rfl⟩
    have hks := List.mem_toFinset.1 (mem_top.1 hk).1
    obtain ⟨r, hr, hkey, hcolumn⟩ := h.exists hks
    exact ⟨r, (htop r (hperm.mem_iff.2 hr) k hks hcolumn).2 hk, hkey⟩

end grouped

/-! ### The plot -/

section plot
variable {Fl : Type} [DecidableEq Fl] {Q : ObjectPandas Fl} {df : DataFrame Fl} {m : Fl}

theorem mem_types {k : Cell Fl} : k ∈ types df ↔ ∃ r ∈ df.rows, r "objType" = some k := by
  rw [types, List.mem_toFinset, Table.mem_keys]

theorem groupTotal_assign {key column c : String} (f : Row (Cell Fl) → Option (Cell Fl)) (hkey : key ≠ c)
    (hcolumn : column ≠ c) (k : Cell Fl) : groupTotal (df.assign c f) key column k = groupTotal df key column k := by
  rw [groupTotal, groupTotal, Table.group_assign f hkey, List.map_map]
  refine congrArg List.sum (List.map_congr_left fun r _ => ?_)
  rw [Function.comp_apply, Row.set_ne _ _ hcolumn]

omit [DecidableEq Fl] in
theorem ObjectFrame.intColumn (hdf : ObjectFrame df) : IntColumn df "objSize" := by
  intro r hr
  obtain ⟨_, _, size, _, _, -, -, hsize, -⟩ := hdf.rows r hr
  exact ⟨size, hsize⟩

/-- The frame with the time left until the last allocation for the wall time. -/
def shifted (Q : ObjectPandas Fl) (m : Fl) (df : DataFrame Fl) : DataFrame Fl :=
  df.assign "eWALLt" fun r => minusFrom Q m (r "eWALLt")

omit [DecidableEq Fl] in
theorem ObjectFrame.columns_shifted (hdf : ObjectFrame df) (Q : ObjectPandas Fl) (m : Fl) :
    (shifted Q m df).columns = df.columns :=
  if_pos (hdf.columns "eWALLt" (by decide))

omit [DecidableEq Fl] in
theorem ObjectFrame.intColumn_shifted (hdf : ObjectFrame df) (Q : ObjectPandas Fl) (m : Fl) :
    IntColumn (shifted Q m df) "objSize" := by
  intro r hr
  obtain ⟨r', hr', rfl⟩ := List.mem_map.1 hr
  rw [Row.set_ne _ _ (by decide)]
  exact hdf.intColumn r' hr'

/-- The types that `filter_objets` takes. -/
theorem topN_values (hQ : Q.Documented) (hdf : ObjectFrame df) (hinj : Set.InjOn (total df) (types df))
    (n : Nat) (v : Option (Cell Fl)) :
    v ∈ (Q.nlargest (Q.sortValues (Q.groupbySumFrame (shifted Q m df) "objType" "objSize") "objSize") n
        "objSize").values "objType" ↔ ∃ k ∈ top (total df) (types df) n, v = some k := by
  have htotal : groupTotal (shifted Q m df) "objType" "objSize" = total df := by
    funext k
    rw [shifted, groupTotal_assign _ (by decide) (by decide)]
    rfl
  have hkeys : (shifted Q m df).keys "objType" = df.keys "objType" := Table.keys_assign _ (by decide)
  have hpairs := (hQ.groupbySumFrame (shifted Q m df) "objType" "objSize" (hdf.intColumn_shifted Q m)).pairs
    (by decide)
  rw [htotal, hkeys] at hpairs
  exact (hpairs.sortValues hQ).nlargest hQ Table.nodup_keys hinj n v

theorem rows_topN {dfTopN : DataFrame Fl} {T : Finset (Cell Fl)}
    (htop : ∀ v, v ∈ dfTopN.values "objType" ↔ ∃ k ∈ T, v = some k) :
    ((shifted Q m df).filter fun r => r "objType" ∈ dfTopN.values "objType").rows =
      (df.rows.filter fun r => (r "objType").any (· ∈ T)).map fun r =>
        r.set "eWALLt" (minusFrom Q m (r "eWALLt")) := by
  show (df.rows.map _).filter _ = _
  rw [List.filter_map]
  refine congrArg (List.map _) (List.filter_congr fun r _ => ?_)
  rw [Function.comp_apply, Row.set_ne _ _ (by decide), Bool.eq_iff_iff, decide_eq_true_eq, htop, Option.any_eq_true]
  simp only [decide_eq_true_eq]
  exact exists_congr fun k => and_comm

/-- The rows that `filter_objets` leaves, but for the column `index`. -/
theorem filterObjets_ok (hQ : Q.Documented) (hdf : ObjectFrame df) (hinj : Set.InjOn (total df) (types df))
    (hm : maxOf Q.lt (floats "eWALLt" df) = .ok m) (n : Nat) :
    ∃ filtered, filterObjets Q df n = .ok filtered ∧ (∀ c ∈ df.columns, c ∈ filtered.columns) ∧
      (filtered.rows.map fun r => r.set "index" none).Perm
        ((df.rows.filter fun r => (r "objType").any (· ∈ top (total df) (types df) n)).map fun r =>
          (r.set "eWALLt" (minusFrom Q m (r "eWALLt"))).set "index" none) := by
  have htop := topN_values (m := m) hQ hdf hinj n
  obtain ⟨dfTopN, hdfTopN⟩ : ∃ dfTopN, Q.nlargest (Q.sortValues (Q.groupbySumFrame (shifted Q m df) "objType"
    "objSize") "objSize") n "objSize" = dfTopN := ⟨_, rfl⟩
  rw [hdfTopN] at htop
  obtain ⟨df2, hdf2⟩ : ∃ df2, (shifted Q m df).filter (fun r => r "objType" ∈ dfTopN.values "objType") = df2 :=
    ⟨_, rfl⟩
  have hrows : ((shifted Q m df).filter fun r => r "objType" ∈ dfTopN.values "objType").rows = _ := rows_topN htop
  rw [hdf2] at hrows
  have hcolumns : df2.columns = df.columns := by
    rw [← hdf2]
    exact hdf.columns_shifted Q m
  have hsorted := hQ.sortValues df2 "objSize" fun r hr => hdf.intColumn_shifted Q m r (by
    rw [← hdf2] at hr
    exact (List.mem_filter.1 hr).1)
  rw [hcolumns] at hsorted
  obtain ⟨hreset, hforget⟩ := hQ.resetIndex (Q.sortValues df2 "objSize") (by rw [hsorted.1]; exact hdf.fresh.1)
  refine ⟨Q.resetIndex (Q.sortValues df2 "objSize"), ?_, fun c hc => ?_, ?_⟩
  · rw [filterObjets, need_ok fun c hc => hdf.columns c (by revert c; decide)]
    show (maxOf _ _ >>= _) = _
    rw [hm]
    show (need (shifted Q m df) _ >>= _) = _
    have hneed : need (shifted Q m df) ["objType", "objSize"] = .ok () := need_ok fun c hc => by
      rw [hdf.columns_shifted Q m]
      exact hdf.columns c (by revert c; decide)
    rw [hneed, ← hdf2, ← hdfTopN]
    rfl
  · rw [hreset, hsorted.1]
    exact List.mem_cons_of_mem _ hc
  · rw [hforget]
    refine (hsorted.2.map _).trans (.of_eq ?_)
    rw [hrows, List.map_map]
    rfl

/-- The point of a record: its time, on the wall clock counted back from the last allocation, its type,
its size and the first part of its type. -/
def pointOf (Q : ObjectPandas Fl) (m : Fl) (valueX : ValueX) (r : Row (Cell Fl)) : ScatterPoint Fl where
  x := match valueX with
    | .wallTime => minusFrom Q m (r "eWALLt")
    | .cpuTime => r "eCPUt"
  y := r "objType"
  size := r "objSize"
  hue := r "Object type"

theorem makeScatterplot_ok (valueX : ValueX) (h : ∀ c ∈ ["eWALLt", "eCPUt", "objSize", "objType", "Object type"],
    c ∈ df.columns) : makeScatterplot df valueX = .ok ((df.rows.filter fun r => r "objType" ≠ some (.text "")).map
      fun r => ⟨r valueX.column, r "objType", r "objSize", r "Object type"⟩) := by
  have hcolumns : ∀ c ∈ [valueX.column, "objType", "Object size (Bytes)", "Object type"],
      c ∈ df.columns.map fun c => if c = "objSize" then "Object size (Bytes)" else c := by
    intro c hc
    have hmem : ∃ c' ∈ ["eWALLt", "eCPUt", "objSize", "objType", "Object type"],
        (if c' = "objSize" then "Object size (Bytes)" else c') = c := by
      revert c
      cases valueX <;> decide
    obtain ⟨c', hc', rfl⟩ := hmem
    exact List.mem_map_of_mem (h c' hc')
  obtain ⟨named, hnamed⟩ : ∃ named, df.filter (fun r => r "objType" ≠ some (.text "")) = named := ⟨_, rfl⟩
  have hrename := Table.rename_of_mem "Object size (Bytes)" (show "objSize" ∈ named.columns by
    rw [← hnamed]
    exact h "objSize" (by decide))
  rw [makeScatterplot, need_ok fun c hc => h c (by revert c; decide), hnamed]
  show (if ∀ c ∈ _, c ∈ (named.rename "objSize" "Object size (Bytes)").columns then _ else _) = _
  rw [hrename, if_pos (by rw [← hnamed]; exact hcolumns), ← hnamed]
  show Except.ok (((df.rows.filter _).map _).map (scatterPoint valueX)) = _
  rw [List.map_map]
  refine congrArg Except.ok (List.map_congr_left fun r _ => ?_)
  cases valueX <;> rfl

/-- What the plot gets of the frame. -/
theorem scatterplot_points (hQ : Q.Documented) (hdf : ObjectFrame df) (hinj : Set.InjOn (total df) (types df))
    (hm : maxOf Q.lt (floats "eWALLt" df) = .ok m) (n : Nat) (valueX : ValueX) :
    ∃ filtered points, filterObjets Q df n = .ok filtered ∧ makeScatterplot filtered valueX = .ok points ∧
      points.Perm ((df.rows.filter fun r =>
        (r "objType").any (· ∈ (top (total df) (types df) n).erase (.text ""))).map (pointOf Q m valueX)) := by
  obtain ⟨filtered, hok, hcolumns, hrows⟩ := filterObjets_ok hQ hdf hinj hm n
  refine ⟨filtered, _, hok, makeScatterplot_ok valueX fun c hc => hcolumns c (hdf.columns c hc), ?_⟩
  have hpoints := (hrows.filter fun r => decide (r "objType" ≠ some (.text ""))).map fun r =>
    (⟨r valueX.column, r "objType", r "objSize", r "Object type"⟩ : ScatterPoint Fl)
  rw [List.filter_map, List.filter_map, List.map_map, List.map_map, List.filter_filter] at hpoints
  refine List.Perm.trans (.of_eq ?_) (hpoints.trans (.of_eq ?_))
  · refine (congrArg (List.map _) (List.filter_congr fun r _ => ?_)).trans (List.map_congr_left fun r _ => ?_)
    · rw [Function.comp_apply, Row.set_ne _ _ (by decide)]
    · cases valueX <;> rfl
  · refine (congrArg (List.map _) (List.filter_congr fun r hr => ?_)).trans (List.map_congr_left fun r _ => ?_)
    · obtain ⟨_, _, _, type, _, -, -, -, htype, -⟩ := hdf.rows r hr
      rw [Function.comp_apply, Row.set_ne _ _ (by decide), Row.set_ne _ _ (by decide), htype]
      simp
    · cases valueX <;> rfl

end plot

/-! ### The table -/

section table
variable {Fl : Type} [DecidableEq Fl] {Q : ObjectPandas Fl} {df : DataFrame Fl}
  {left right source : DataFrame Fl} {g : Cell Fl → Int} {value : Cell Fl → Cell Fl} {key column name : String}

/-- Two frames by the same groups, merged on them. -/
theorem Pairs.merge (hQ : Q.Documented) (hl : IsGrouped source key column (fun k => .int (g k)) left)
    (hr : IsGrouped source key name value right) (hkey : column ≠ key) (hname : name ≠ key) (hne : name ≠ column) :
    (∀ c ∈ (Q.merge left right key).columns, c ∈ [key, column, name]) ∧
      Pairs (Q.merge left right key) key column (source.keys key) g := by
  obtain ⟨hcolumns, hrows⟩ := hQ.merge left right key fun c hc hc' => by
    rw [hl.columns, List.mem_cons, List.mem_singleton] at hc
    rw [hr.columns, List.mem_cons, List.mem_singleton] at hc'
    rcases hc with rfl | rfl
    · rfl
    · rcases hc' with hc' | hc'
      · exact hc'
      · exact absurd hc'.symm hne
  refine ⟨fun c hc => ?_, ?_⟩
  · have hjoin := Table.mem_columns_join.1 ((hcolumns c).1 hc)
    rw [hl.columns, hr.columns] at hjoin
    simp only [List.mem_cons, List.not_mem_nil, or_false] at hjoin ⊢
    tauto
  have hpartner : ∀ k ∈ source.keys key, right.rows.filter (fun r =>
      Dict.get? [(key, k), (column, Cell.int (g k))] key = r key) =
        (some (Dict.get? [(key, k), (name, value k)])).toList := by
    intro k hk
    refine List.perm_singleton.1 ((hr.rows.filter _).trans (.of_eq ?_))
    have hself : ∀ (c : String) (v : Cell Fl) (k : Cell Fl), Dict.get? [(key, k), (c, v)] key = some k :=
      fun c v k => by rw [Dict.get?_cons, if_pos rfl]
    have hsingle := filter_key_eq id (by rw [List.map_id]; exact Table.nodup_keys) hk
    rw [List.filter_map, List.filter_congr fun k' _ => ?_, hsingle]
    · rfl
    · rw [Function.comp_apply, hself, hself, decide_eq_decide]
      exact Option.some_inj
  have hjoin := Table.join_perm key hl.rows hpartner
  refine ((hrows.trans hjoin).map _).trans (.of_eq ?_)
  simp only [Option.map_some, List.filterMap_eq_map', List.map_map]
  refine List.map_congr_left fun k _ => ?_
  simp [hl.columns, Dict.get?, Ne.symm hkey]

/-- The objects with a type. -/
def named (df : DataFrame Fl) : DataFrame Fl := df.filter fun r => r "objType" ≠ some (.text "")

theorem ObjectFrame.intColumn_named (hdf : ObjectFrame df) : IntColumn (named df) "objSize" :=
  fun r hr => hdf.intColumn r (List.mem_filter.1 hr).1

theorem types_named : types (named df) = (types df).erase (.text "") := by
  ext k
  rw [mem_types, Finset.mem_erase, mem_types]
  simp only [named, Table.filter, List.mem_filter, decide_eq_true_eq]
  constructor
  · rintro ⟨r, ⟨hr, hne⟩, hk⟩
    exact ⟨fun he => hne (by rw [hk, he]), r, hr, hk⟩
  · rintro ⟨hne, r, hr, hk⟩
    exact ⟨r, ⟨hr, fun he => hne (Option.some.inj (hk.symm.trans he))⟩, hk⟩

theorem total_named {k : Cell Fl} (hk : k ≠ .text "") : total (named df) k = total df k := by
  have hgroup : (named df).group "objType" k = df.group "objType" k :=
    Table.group_filter (p := fun v : Option (Cell Fl) => decide (v ≠ some (.text ""))) (by simpa using hk)
  rw [total, total, groupTotal, groupTotal, hgroup]

/-- The merged frame of the table, a row for each named type. -/
theorem merged_pairs (hQ : Q.Documented) (hdf : ObjectFrame df) :
    "index" ∉ (Q.merge (Q.groupbyAggSum (named df) "objType" "objSize")
        (Q.groupbySizeFrame (named df) "objType" "count") "objType").columns ∧
      Pairs (Q.merge (Q.groupbyAggSum (named df) "objType" "objSize")
        (Q.groupbySizeFrame (named df) "objType" "count") "objType") "objType" "objSize"
        ((named df).keys "objType") (total df) := by
  obtain ⟨hcolumns, hpairs⟩ := Pairs.merge hQ (hQ.groupbyAggSum (named df) "objType" "objSize" hdf.intColumn_named)
    (hQ.groupbySizeFrame (named df) "objType" "count") (by decide) (by decide) (by decide)
  refine ⟨fun hc => absurd (hcolumns _ hc) (by decide), hpairs.congr fun k hk => ?_⟩
  have hmem : k ∈ (types df).erase (.text "") := by
    rw [← types_named]
    exact List.mem_toFinset.2 hk
  exact total_named (Finset.mem_erase.1 hmem).1

/-- What the table lists. -/
theorem table_values (hQ : Q.Documented) (hdf : ObjectFrame df) (hinj : Set.InjOn (total df) (types df))
    (n : Nat) :
    ∃ table, displayTopAllocationObjects Q df n .objSize = .ok table ∧ ∀ v, v ∈ table.values "objType" ↔
      ∃ k ∈ top (total df) ((types df).erase (.text "")) n, v = some k := by
  obtain ⟨hindex, hpairs⟩ := merged_pairs hQ hdf
  obtain ⟨merged, hmerged⟩ : ∃ merged, Q.merge (Q.groupbyAggSum (named df) "objType" "objSize")
    (Q.groupbySizeFrame (named df) "objType" "count") "objType" = merged := ⟨_, rfl⟩
  rw [hmerged] at hindex hpairs
  have hkeys : ((named df).keys "objType").toFinset = (types df).erase (.text "") := types_named
  have hindex : "index" ∉ (Q.sortValues merged "objSize").columns := by
    rw [(hQ.sortValues merged "objSize" hpairs.intColumn).1]
    exact hindex
  have htop := ((hpairs.sortValues hQ).resetIndex hQ hindex (by decide) (by decide)).nlargest hQ Table.nodup_keys
    (by rw [hkeys]; exact hinj.mono (Finset.erase_subset _ _)) n
  rw [hkeys] at htop
  refine ⟨((((Q.nlargest (Q.resetIndex (Q.sortValues merged "objSize")) n "objSize").drop "index").assign "objSize"
    fun r => (r "objSize").map fun value => .text (Q.astypeStr value)).assign "objSize"
    fun r => inBytes (r "objSize")).rename "objSize" "Object size (Bytes)", ?_, fun v => ?_⟩
  · have hneed : need (named df) ["objSize"] = .ok () :=
      need_ok fun c hc => hdf.columns c (by revert c; decide)
    rw [displayTopAllocationObjects, need_ok fun c hc => hdf.columns c (by revert c; decide)]
    show (need (named df) _ >>= _) = _
    rw [hneed, ← hmerged]
    rfl
  · rw [Table.values_rename (by decide) (by decide), Table.values_assign _ (by decide),
      Table.values_assign _ (by decide), Table.values_drop (by decide)]
    exact htop v

end table

/-! ### The rest of the table library -/

/-- The rows with the largest values of a column first. -/
def descending (column : String) (rows : List (Row (Cell Time))) : List (Row (Cell Time)) :=
  rows.insertionSort fun r r' => Cell.toInt (r' column) ≤ Cell.toInt (r column)

def groupTable (df : DataFrame Time) (key column : String) (value : Cell Time → Cell Time) : DataFrame Time where
  columns := [key, column]
  rows := (df.keys key).map fun k => Dict.get? [(key, k), (column, value k)]

/-- What `tables` is for `Pandas`. -/
def objectTables : ObjectPandas Time where
  toPandas := tables
  lt x y := x < y
  minus x y := x - y
  astypeStr
    | .text s => s
    | .int n => toString n
    | .float x => seconds x
  groupbySumFrame df key column := groupTable df key column fun k => .int (groupTotal df key column k)
  groupbyAggSum df key column := groupTable df key column fun k => .int (groupTotal df key column k)
  groupbySizeFrame df key name := groupTable df key name fun k => .int (df.group key k).length
  sortValues df column := { df with rows := descending column df.rows }
  nlargest df n column := { df with rows := (descending column df.rows).take n.toNat }
  resetIndex df := ⟨"index" :: df.columns, df.rows.zipIdx.map fun x => x.1.set "index" (some (.int x.2))⟩

theorem objectTables_documented : objectTables.Documented where
  toMerges := tables_documented.toMerges
  groupbySumFrame _ _ _ _ := ⟨rfl, .rfl⟩
  groupbyAggSum _ _ _ _ := ⟨rfl, .rfl⟩
  groupbySizeFrame _ _ _ := ⟨rfl, .rfl⟩
  sortValues _ _ _ := ⟨rfl, List.perm_insertionSort _ _⟩
  nlargest df n column _ := by
    have htotal : Std.Total fun r r' : Row (Cell Time) => Cell.toInt (r' column) ≤ Cell.toInt (r column) :=
      ⟨fun _ _ => le_total _ _⟩
    have htrans : IsTrans (Row (Cell Time)) fun r r' => Cell.toInt (r' column) ≤ Cell.toInt (r column) :=
      ⟨fun _ _ _ h h' => h'.trans h⟩
    exact ⟨rfl, descending column df.rows, List.perm_insertionSort _ _, List.pairwise_insertionSort _ _, rfl⟩
  resetIndex df _ := by
    refine ⟨rfl, ?_⟩
    show (df.rows.zipIdx.map _).map _ = _
    have hforget : (fun r : Row (Cell Time) => r.set "index" none) ∘
        (fun x : Row (Cell Time) × Nat => x.1.set "index" (some (.int x.2))) = (·.set "index" none) ∘ Prod.fst :=
      funext fun x => Row.set_set _ _ _ _
    rw [List.map_map, hforget, ← List.map_map, List.zipIdx_map_fst]

/-! ### The two together -/

section together
variable {Fl : Type} [DecidableEq Fl] {Q : ObjectPandas Fl} {df : DataFrame Fl}

/-- The plot shows the types `T`, with all their records. -/
def Plots (Q : ObjectPandas Fl) (df : DataFrame Fl) (n : Nat) (valueX : ValueX) (T : Finset (Cell Fl)) : Prop :=
  ∃ m filtered points, maxOf Q.lt (floats "eWALLt" df) = .ok m ∧ filterObjets Q df n = .ok filtered ∧
    makeScatterplot filtered valueX = .ok points ∧ (∀ y, y ∈ points.map (·.y) ↔ ∃ k ∈ T, y = some k) ∧
    points.Perm ((df.rows.filter fun r => (r "objType").any (· ∈ T)).map (pointOf Q m valueX))

omit [DecidableEq Fl] in
theorem ObjectFrame.maxOf_iff (hdf : ObjectFrame df) :
    (∃ m, maxOf Q.lt (floats "eWALLt" df) = .ok m) ↔ df.rows ≠ [] := by
  cases hrows : df.rows with
  | nil =>
    have hfloats : floats "eWALLt" df = [] := by rw [floats, Table.values, hrows]; rfl
    rw [hfloats]
    refine iff_of_false ?_ (not_not_intro rfl)
    rintro ⟨m, hm⟩
    cases hm
  | cons r rows =>
    obtain ⟨wall, _, _, _, _, hwall, -⟩ := hdf.rows r (by rw [hrows]; exact List.mem_cons_self ..)
    obtain ⟨xs, hfloats⟩ : ∃ xs, floats "eWALLt" df = wall :: xs := by
      rw [floats, Table.values, hrows, List.map_cons, hwall]
      exact ⟨_, rfl⟩
    rw [hfloats]
    exact iff_of_true ⟨_, rfl⟩ (List.cons_ne_nil r rows)

/-- The records of some types have these types. -/
theorem shown_types {T : Finset (Cell Fl)} (hT : T ⊆ types df) {m : Fl} {valueX : ValueX}
    {points : List (ScatterPoint Fl)}
    (h : points.Perm ((df.rows.filter fun r => (r "objType").any (· ∈ T)).map (pointOf Q m valueX)))
    (y : Option (Cell Fl)) : y ∈ points.map (·.y) ↔ ∃ k ∈ T, y = some k := by
  rw [(h.map _).mem_iff, List.map_map, List.mem_map]
  simp only [List.mem_filter, Option.any_eq_true, decide_eq_true_eq]
  constructor
  · rintro ⟨r, ⟨-, k, hk, hT⟩, rfl⟩
    exact ⟨k, hT, hk⟩
  · rintro ⟨k, hk, rfl⟩
    obtain ⟨r, hr, hrk⟩ := mem_types.1 (hT hk)
    exact ⟨r, ⟨hr, k, hrk, hk⟩, hrk⟩

/-- The types that the plot shows. -/
theorem plots_iff_eq (hQ : Q.Documented) (hdf : ObjectFrame df) (hinj : Set.InjOn (total df) (types df))
    (n : Nat) (valueX : ValueX) {T : Finset (Cell Fl)} : Plots Q df n valueX T ↔
      df.rows ≠ [] ∧ (top (total df) (types df) n).erase (.text "") = T := by
  have hsub : (top (total df) (types df) n).erase (.text "") ⊆ types df :=
    (Finset.erase_subset _ _).trans (Finset.filter_subset _ _)
  constructor
  · rintro ⟨m, filtered, points, hm, hfiltered, hpoints, hy, -⟩
    refine ⟨hdf.maxOf_iff.1 ⟨m, hm⟩, ?_⟩
    obtain ⟨filtered', points', hfiltered', hpoints', hperm⟩ := scatterplot_points hQ hdf hinj hm n valueX
    obtain rfl := Except.ok.inj (hfiltered.symm.trans hfiltered')
    obtain rfl := Except.ok.inj (hpoints.symm.trans hpoints')
    ext k
    have hboth := (shown_types hsub hperm (some k)).symm.trans (hy (some k))
    simpa using hboth
  · rintro ⟨hne, rfl⟩
    obtain ⟨m, hm⟩ := hdf.maxOf_iff.2 hne
    obtain ⟨filtered, points, hfiltered, hpoints, hperm⟩ := scatterplot_points hQ hdf hinj hm n valueX
    exact ⟨m, filtered, points, hm, hfiltered, hpoints, shown_types hsub hperm, hperm⟩

/-- For every frame of objects whose types have distinct sums, and every number: the table lists the
types with the largest sums, and the plot shows the same ones, with all their records, exactly when
there is a record, and either all objects have a type, or there are fewer types than asked for, or
enough of them have a larger sum than the objects without a type. -/
theorem plots_iff (hQ : Q.Documented) (hdf : ObjectFrame df) (hinj : Set.InjOn (total df) (types df))
    (n : Nat) (valueX : ValueX) :
    ∃ table T, displayTopAllocationObjects Q df n .objSize = .ok table ∧
      (∀ v, v ∈ table.values "objType" ↔ ∃ k ∈ T, v = some k) ∧
      IsTop (total df) ((types df).erase (.text "")) T n ∧
      (Plots Q df n valueX T ↔ df.rows ≠ [] ∧ (.text "" ∉ types df ∨ ((types df).erase (.text "")).card < n ∨
        n ≤ ((types df).filter fun k => total df (.text "") < total df k).card)) := by
  obtain ⟨table, hok, hvalues⟩ := table_values hQ hdf hinj n
  refine ⟨table, _, hok, hvalues, isTop_top (hinj.mono (Finset.erase_subset _ _)) n, ?_⟩
  rw [plots_iff_eq hQ hdf hinj n valueX, top_erase_eq_iff hinj]
  rfl

end together

def objectRow (type name : String) (size : Int) (wall cpu : Time) : Row (Cell Time) :=
  Dict.get? [("objSize", .int size), ("objType", .text type), ("eWALLt", .float wall), ("eCPUt", .float cpu),
    ("Object type", .text name)]

/-- The objects without a type take more than those of two types. -/
def unnamedFirst : DataFrame Time where
  columns := ["objSize", "objType", "eWALLt", "eCPUt", "Object type"]
  rows := [objectRow "" "" 100 1 1, objectRow "Shop.Cart" "Shop" 50 2 1, objectRow "Shop.Item" "Shop" 30 3 2]

theorem unnamedFirst_objectFrame : ObjectFrame unnamedFirst := by
  refine ⟨by decide, by decide, fun r hr => ?_⟩
  simp only [unnamedFirst, List.mem_cons, List.not_mem_nil, or_false] at hr
  rcases hr with rfl | rfl | rfl
  · exact ⟨_, _, _, _, _, rfl, rfl, rfl, rfl, rfl⟩
  · exact ⟨_, _, _, _, _, rfl, rfl, rfl, rfl, rfl⟩
  · exact ⟨_, _, _, _, _, rfl, rfl, rfl, rfl, rfl⟩

theorem unnamedFirst_distinct : Set.InjOn (total unnamedFirst) (types unnamedFirst) := by
  have hdistinct : ∀ a ∈ unnamedFirst.keys "objType", ∀ b ∈ unnamedFirst.keys "objType",
      total unnamedFirst a = total unnamedFirst b → a = b := by decide
  intro a ha b hb
  exact hdistinct a (List.mem_toFinset.1 ha) b (List.mem_toFinset.1 hb)

theorem plots_iff_unnamedFirst :
    ∃ table T, displayTopAllocationObjects objectTables unnamedFirst 2 .objSize = .ok table ∧
      (∀ v, v ∈ table.values "objType" ↔ ∃ k ∈ T, v = some k) ∧
      IsTop (total unnamedFirst) ((types unnamedFirst).erase (.text "")) T 2 ∧
      (Plots objectTables unnamedFirst 2 .wallTime T ↔ unnamedFirst.rows ≠ [] ∧
        (.text "" ∉ types unnamedFirst ∨ ((types unnamedFirst).erase (.text "")).card < 2 ∨
          2 ≤ ((types unnamedFirst).filter fun k => total unnamedFirst (.text "") < total unnamedFirst k).card)) :=
  plots_iff objectTables_documented unnamedFirst_objectFrame unnamedFirst_distinct 2 .wallTime

/-- The table lists both types, the plot shows one. -/
theorem type_missing :
    ObjectFrame unnamedFirst ∧ Set.InjOn (total unnamedFirst) (types unnamedFirst) ∧
      ∃ table filtered points, displayTopAllocationObjects objectTables unnamedFirst 2 .objSize = .ok table ∧
        filterObjets objectTables unnamedFirst 2 = .ok filtered ∧ makeScatterplot filtered .wallTime = .ok points ∧
        table.values "objType" = [some (.text "Shop.Cart"), some (.text "Shop.Item")] ∧
        points.map (·.y) = [some (.text "Shop.Cart")] ∧
        ¬ ∀ y, y ∈ points.map (·.y) ↔ y ∈ table.values "objType" := by
  refine ⟨unnamedFirst_objectFrame, unnamedFirst_distinct, _, _, _, rfl, rfl, rfl, by decide, by decide, fun h => ?_⟩
  exact absurd ((h (some (.text "Shop.Item"))).2 (by decide)) (by decide)

end Perun
