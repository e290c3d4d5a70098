import PerunProfiler.ObjectTypes
import PerunProfiler.Treemap

/-!
# Allocation totals by function

`agregate_objectsize_to_functions` groups the object records of all threads by the number of the call,
and the collector numbers the calls of every thread from 0. So the totals of a call count the objects
of another thread's call of the same number.
-/

namespace Perun
open Lib

section objects
variable {Fl : Type} {P : Pandas Fl} {pointer : Nat → String} {float : Time → String}
  {O : List ObjectRecord}

def ObjectRecord.dict (pointer : Nat → String) (float : Time → String) (o : ObjectRecord) : Dict String :=
  [("TID", "0x" ++ pointer o.TID), ("objId", "0x" ++ pointer o.objId), ("objSize", toString (int32 o.objSize)),
    ("objType", cStr o.objType), ("GC", toString (o.GC : Int)), ("untilGC", toString (o.untilGC : Int))] ++
    (if o.fnc ≠ -1 then [("fnc", toString o.fnc)] else []) ++
    [("eWALLt", float o.eWALLt), ("eCPUt", float o.eCPUt)]

/-- The members that the source declares `int` are. -/
def ObjectRecord.IntMembers (o : ObjectRecord) : Prop := o.GC < 2 ^ 31 ∧ o.untilGC < 2 ^ 31

def ObjectRecord.columns : List String :=
  ["TID", "objId", "objSize", "objType", "GC", "untilGC", "eWALLt", "eCPUt"]

theorem ObjectRecord.keys_dict (o : ObjectRecord) : (o.dict pointer float).map Prod.fst =
    ["TID", "objId", "objSize", "objType", "GC", "untilGC"] ++ (if o.fnc ≠ -1 then ["fnc"] else []) ++
      ["eWALLt", "eCPUt"] := by
  unfold dict
  split <;> rfl

theorem ObjectRecord.mem_keys {o : ObjectRecord} {c : String} :
    c ∈ (o.dict pointer float).map Prod.fst ↔ c ∈ columns ∨ (c = "fnc" ∧ o.fnc ≠ -1) := by
  rw [o.keys_dict, columns]
  by_cases h : o.fnc = -1
  · simp [h]
  · simp [h]
    tauto

theorem ObjectRecord.json_map (o : ObjectRecord) :
    o.json.map (expand pointer float) = dictJson (o.dict pointer float) := by
  rw [ObjectRecord.json, Json.map_obj, dictJson, ObjectRecord.dict]
  by_cases h : o.fnc = -1
  · simp [h, field, Json.map_str, expand_lit, expand_append, expand_arg]
  · simp [h, field, Json.map_str, expand_lit, expand_append, expand_arg]

theorem records_objects (O : List ObjectRecord) : records ((objectsMember O).2.map (expand pointer float)) =
    .ok (O.map (ObjectRecord.dict pointer float) ++ [[]]) := by
  refine records_section ObjectRecord.json_map (fun o => ?_) O
  rw [o.keys_dict]
  split <;> decide

/-- The columns that the frame of the objects has. -/
def objectColumns : List String := "Object type" :: "fnc" :: ObjectRecord.columns

/-- What `make_objects_df` computes in a row. -/
def objectComputed (P : Pandas Fl) (r : Row (Cell Fl)) : Row (Cell Fl) :=
  let r := inted P "objSize" (floated P "eCPUt" (floated P "eWALLt" r))
  let r := r.set "Object type" (part "." 0 (r "objType"))
  inted P "GC" (inted P "untilGC" r)

theorem objectComputed_size (r : Row (Cell Fl)) :
    objectComputed P r "objSize" = ((r "objSize").bind P.astypeInt).map .int := rfl

theorem mem_objectsFrame (hP : P.Reads float) {c : String} :
    c ∈ (P.dataFrame (O.map (ObjectRecord.dict pointer float) ++ [[]])).columns ↔
      (c ∈ ObjectRecord.columns ∧ O ≠ []) ∨ (c = "fnc" ∧ ∃ o ∈ O, o.fnc ≠ -1) := by
  rw [mem_columns_dataFrame hP]
  simp only [ObjectRecord.mem_keys]
  constructor
  · rintro ⟨o, ho, hc | ⟨rfl, hfnc⟩⟩
    · exact .inl ⟨hc, List.ne_nil_of_mem ho⟩
    · exact .inr ⟨rfl, o, ho, hfnc⟩
  · rintro (⟨hc, hO⟩ | ⟨rfl, o, ho, hfnc⟩)
    · obtain ⟨o, ho⟩ := List.exists_mem_of_ne_nil O hO
      exact ⟨o, ho, .inl hc⟩
    · exact ⟨o, ho, .inr ⟨rfl, hfnc⟩⟩

theorem mem_attributedFrame (hP : P.Reads float) (hA : ∃ o ∈ O, o.fnc ≠ -1) {c : String} :
    c ∈ (P.dataFrame (O.map (ObjectRecord.dict pointer float) ++ [[]])).columns ↔
      c ∈ "fnc" :: ObjectRecord.columns := by
  obtain ⟨o, ho, hfnc⟩ := hA
  rw [mem_objectsFrame hP, List.mem_cons]
  constructor
  · rintro (⟨hc, -⟩ | ⟨rfl, -⟩)
    · exact .inr hc
    · exact .inl rfl
  · rintro (rfl | hc)
    · exact .inr ⟨rfl, o, ho, hfnc⟩
    · exact .inl ⟨hc, List.ne_nil_of_mem ho⟩

/-- A row has every column exactly when its object is attributed; the sentinel has none. -/
theorem complete_iff (x : Option ObjectRecord) :
    (∀ c ∈ "fnc" :: ObjectRecord.columns, (sectionRow Fl (ObjectRecord.dict pointer float) x c).isSome) ↔
      ∃ o, x = some o ∧ o.fnc ≠ -1 := by
  simp only [sectionRow, Dict.isSome_get?, Dict.keys_mapValues]
  cases x with
  | none =>
    refine iff_of_false (fun h => ?_) (by simp)
    exact absurd (h "fnc" (by simp)) (by simp)
  | some x =>
    simp only [Option.elim_some, ObjectRecord.mem_keys, Option.some.injEq, exists_eq_left']
    constructor
    · intro h
      rcases h "fnc" (by simp) with hc | ⟨-, hx⟩
      · exact absurd hc (by decide)
      · exact hx
    · intro hx c hc
      rcases List.mem_cons.1 hc with rfl | hc
      · exact .inr ⟨rfl, hx⟩
      · exact .inl hc

/-- Once an object is attributed to a call, only the attributed ones are left. -/
theorem objects_dropna (hP : P.Reads float) (hA : ∃ o ∈ O, o.fnc ≠ -1) :
    (P.dropna (P.dataFrame (O.map (ObjectRecord.dict pointer float) ++ [[]]))).Lists ("fnc" :: ObjectRecord.columns)
      (O.filter (·.fnc ≠ -1)) fun o => sectionRow Fl (ObjectRecord.dict pointer float) (some o) := by
  have hpresent : (fun r : Row (Cell Fl) =>
      (P.dataFrame (O.map (ObjectRecord.dict pointer float) ++ [[]])).columns.all fun c => (r c).isSome) ∘
        sectionRow Fl (ObjectRecord.dict pointer float) = fun x => x.any fun o => o.fnc ≠ -1 := by
    funext x
    rw [Bool.eq_iff_iff, Function.comp_apply, List.all_eq_true]
    simp only [mem_attributedFrame hP hA, complete_iff, Option.any_eq_true, decide_eq_true_eq]
  rw [hP.dropna]
  refine ⟨fun c hc => (mem_attributedFrame hP hA).2 hc, .of_eq ?_⟩
  rw [Table.dropMissing, Table.filter]
  dsimp only
  rw [dataFrame_rows hP, List.filter_map, hpresent, List.filter_append, List.filter_map, List.map_append,
    List.map_map]
  exact List.append_nil _

theorem objectRow_times (o : ObjectRecord) :
    sectionRow Fl (ObjectRecord.dict pointer float) (some o) "eWALLt" = some (.text (float o.eWALLt)) ∧
      sectionRow Fl (ObjectRecord.dict pointer float) (some o) "eCPUt" = some (.text (float o.eCPUt)) := by
  rw [sectionRow, Option.elim_some, ObjectRecord.dict]
  split <;> exact ⟨rfl, rfl⟩

theorem objectRow_fnc {o : ObjectRecord} (h : o.fnc ≠ -1) :
    sectionRow Fl (ObjectRecord.dict pointer float) (some o) "fnc" = some (.text (toString o.fnc)) := by
  rw [sectionRow, Option.elim_some, ObjectRecord.dict, if_pos h]
  rfl

theorem objectRow_size (o : ObjectRecord) : sectionRow Fl (ObjectRecord.dict pointer float) (some o) "objSize" =
    some (.text (toString (int32 o.objSize))) := by
  rw [sectionRow, Option.elim_some, ObjectRecord.dict]
  split <;> rfl

/-- What is left after `dropna` comes through as it is: the rest of `make_objects_df` only computes in
the columns. -/
theorem makeObjectsDf_of_dropna (hP : P.Reads float) {data : Dict (Json String)} {cs : List String}
    {A : List ObjectRecord} (hA : ∀ o ∈ A, o.IntMembers)
    (hobjects : item data "Objects" = .ok ((objectsMember O).2.map (expand pointer float)))
    (hcs : ∀ c ∈ ObjectRecord.columns, c ∈ cs)
    (hdropna : (P.dropna (P.dataFrame (O.map (ObjectRecord.dict pointer float) ++ [[]]))).Lists cs A fun o =>
      sectionRow Fl (ObjectRecord.dict pointer float) (some o)) :
    ∃ df, makeObjectsDf P data = .ok df ∧ df.Lists ("Object type" :: cs) A fun o =>
      objectComputed P (sectionRow Fl (ObjectRecord.dict pointer float) (some o)) := by
  have hint : ∀ n : Nat, n < 2 ^ 31 → ((some (Cell.text (toString (n : Int)) : Cell Fl)).bind P.astypeInt).isSome := by
    intro n hn
    rw [Option.bind_some, hP.astypeInt_nat hn]
    rfl
  have hsize : ∀ n : Nat, ((some (Cell.text (toString (int32 n)) : Cell Fl)).bind P.astypeInt).isSome := by
    intro n
    rw [Option.bind_some, (hP.astypeInt_int32 n).1]
    rfl
  obtain ⟨df₁, h₁, hl₁⟩ := astypeFloat_lists P "eWALLt" hdropna (hcs _ (by decide)) fun o _ value hv => by
      rw [(objectRow_times o).1] at hv
      rw [← Option.some.inj hv]
      exact hP.astypeFloat o.eWALLt
  obtain ⟨df₂, h₂, hl₂⟩ := astypeFloat_lists P "eCPUt" hl₁ (hcs _ (by decide)) fun o _ value hv => by
      rw [floated, Row.set_ne _ _ (by decide), (objectRow_times o).2] at hv
      rw [← Option.some.inj hv]
      exact hP.astypeFloat o.eCPUt
  obtain ⟨df₃, h₃, hl₃⟩ := astypeInt_lists P "objSize" hl₂ (hcs _ (by decide)) fun o _ => hsize o.objSize
  have hneed : need df₃ ["objType"] = .ok () := need_column hl₃ (hcs _ (by decide))
  obtain ⟨df₅, h₅, hl₅⟩ := astypeInt_lists P "untilGC" (hl₃.assign "Object type" fun r => part "." 0 (r "objType"))
    (List.mem_cons_of_mem _ (hcs _ (by decide))) fun o ho => hint o.untilGC (hA o ho).2
  obtain ⟨df₆, h₆, hl₆⟩ := astypeInt_lists P "GC" hl₅ (List.mem_cons_of_mem _ (hcs _ (by decide))) fun o ho =>
    hint o.GC (hA o ho).1
  refine ⟨df₆, ?_, hl₆⟩
  rw [makeObjectsDf, hobjects]
  show (records _ >>= _) = _
  rw [records_objects]
  show (astypeFloat P "eWALLt" _ >>= _) = _
  rw [h₁]
  show (astypeFloat P "eCPUt" _ >>= _) = _
  rw [h₂]
  show (astypeInt P "objSize" _ >>= _) = _
  rw [h₃]
  show (need _ _ >>= _) = _
  rw [hneed]
  show (astypeInt P "untilGC" _ >>= _) = _
  rw [h₅]
  exact h₆

theorem makeObjectsDf_lists (hP : P.Reads float) {data : Dict (Json String)}
    (hobjects : item data "Objects" = .ok ((objectsMember O).2.map (expand pointer float)))
    (hA : ∃ o ∈ O, o.fnc ≠ -1) (hO : ∀ o ∈ O, o.IntMembers) :
    ∃ df, makeObjectsDf P data = .ok df ∧ df.Lists objectColumns (O.filter (·.fnc ≠ -1)) fun o =>
      objectComputed P (sectionRow Fl (ObjectRecord.dict pointer float) (some o)) :=
  makeObjectsDf_of_dropna hP (fun o ho => hO o (List.mem_filter.1 ho).1) hobjects (fun _ hc => List.mem_cons_of_mem _ hc)
    (objects_dropna hP hA)

theorem mem_columns_makeObjectsDf (hP : P.Reads float) {data : Dict (Json String)} {df : DataFrame Fl}
    (hobjects : item data "Objects" = .ok ((objectsMember O).2.map (expand pointer float)))
    (h : makeObjectsDf P data = .ok df) {c : String} : c ∈ df.columns ↔
      c ∈ (P.dataFrame (O.map (ObjectRecord.dict pointer float) ++ [[]])).columns ∨ c = "Object type" := by
  simp only [makeObjectsDf, hobjects, bind_eq_ok, Except.ok.injEq] at h
  obtain ⟨_, rfl, ds, hds, df₁, h₁, df₂, h₂, df₃, h₃, _, -, df₅, h₅, h₆⟩ := h
  obtain rfl := Except.ok.inj ((records_objects O).symm.trans hds)
  rw [columns_astypeInt h₆, columns_astypeInt h₅, Table.mem_columns_assign, columns_astypeInt h₃,
    columns_astypeFloat h₂, columns_astypeFloat h₁, hP.dropna]
  rfl

/-- A frame with a column on calls has an object attributed to one. -/
theorem makeObjectsDf_fnc (hP : P.Reads float) {data : Dict (Json String)} {df : DataFrame Fl}
    (hobjects : item data "Objects" = .ok ((objectsMember O).2.map (expand pointer float)))
    (h : makeObjectsDf P data = .ok df) (hc : "fnc" ∈ df.columns) : ∃ o ∈ O, o.fnc ≠ -1 := by
  rcases (mem_columns_makeObjectsDf hP hobjects h).1 hc with hc | hc
  · rcases (mem_objectsFrame hP).1 hc with ⟨hc, -⟩ | ⟨-, hA⟩
    · exact absurd hc (by decide)
    · exact hA
  · exact absurd hc (by decide)

end objects

/-! ### The totals -/

section totals
variable {Fl : Type} [DecidableEq Fl] {P : Pandas Fl} {float : Time → String} {df : DataFrame Fl} {cs : List String}
  {A : List ObjectRecord} {row : ObjectRecord → Row (Cell Fl)}

def sizeSum (A : List ObjectRecord) : Int := (A.map fun o => int32 o.objSize).sum

theorem group_fnc (h : df.Lists cs A row) (hfnc : ∀ o ∈ A, row o "fnc" = some (.text (toString o.fnc))) (n : Int) :
    (df.group "fnc" (.text (toString n))).Perm ((A.filter (·.fnc = n)).map row) := by
  have hgroup := h.rows.filter fun r => r "fnc" = some (.text (toString n))
  have hkey : A.filter ((fun r : Row (Cell Fl) => decide (r "fnc" = some (.text (toString n)))) ∘ row) =
      A.filter (·.fnc = n) := by
    refine List.filter_congr fun o ho => decide_eq_decide.2 ?_
    rw [hfnc o ho, Option.some.injEq, Cell.text.injEq]
    exact ⟨fun heq => Int.repr_injective heq, fun heq => by rw [heq]⟩
  rwa [List.filter_map, hkey] at hgroup

/-- The sums and the counts of a group; a number without a group gets 0. -/
theorem groupby_total (hP : P.Groups) (h : df.Lists cs A row)
    (hfnc : ∀ o ∈ A, row o "fnc" = some (.text (toString o.fnc)))
    (hsize : ∀ o ∈ A, row o "objSize" = some (.int (int32 o.objSize))) (n : Int) :
    (P.groupbySum df "fnc" "objSize" (.text (toString n))).or (some (.int 0)) =
        some (.int (sizeSum (A.filter (·.fnc = n)))) ∧
      (P.groupbySize df "fnc" (.text (toString n))).or (some (.int 0)) =
        some (.int (A.filter (·.fnc = n)).length) := by
  have hgroup := group_fnc h hfnc n
  have hint : ∀ r ∈ df.rows, ∃ n, r "objSize" = some (.int n) := fun r hr => by
    obtain ⟨o, ho, rfl⟩ := List.mem_map.1 (h.rows.mem_iff.1 hr)
    exact ⟨_, hsize o ho⟩
  have hsum : ((df.group "fnc" (.text (toString n))).map fun r => Cell.toInt (r "objSize")).sum =
      sizeSum (A.filter (·.fnc = n)) := by
    rw [(hgroup.map _).sum_eq, List.map_map, sizeSum]
    refine congrArg List.sum (List.map_congr_left fun o ho => ?_)
    rw [Function.comp_apply, hsize o (List.mem_filter.1 ho).1, Cell.toInt_int]
  have hlen : (df.group "fnc" (.text (toString n))).length = (A.filter (·.fnc = n)).length := by
    rw [hgroup.length_eq, List.length_map]
  rw [hP.groupbySum _ _ _ _ hint, hP.groupbySize, ← hsum, ← hlen]
  by_cases hnil : df.group "fnc" (.text (toString n)) = []
  · rw [if_pos hnil, if_pos hnil, hnil]
    exact ⟨rfl, rfl⟩
  · rw [if_neg hnil, if_neg hnil]
    exact ⟨rfl, rfl⟩

end totals

section agregate
variable {Fl : Type} [DecidableEq Fl] {P : Pandas Fl} {pointer : Nat → String} {float : Time → String}
  {name : FunctionID → String} {dfFunc dfObjects : DataFrame Fl} {W : List FunctionRecord} {A : List ObjectRecord}

/-- The row of a record with the totals of the objects `A`. -/
def totalled (P : Pandas Fl) (pointer : Nat → String) (float : Time → String) (name : FunctionID → String)
    (A : List ObjectRecord) (r : FunctionRecord) : Row (Cell Fl) :=
  ((computed P (namedRow Fl pointer float name r)).set "objectSizeSum"
    (some (.int (sizeSum (A.filter (·.fnc = (r.nOr : Int))))))).set "count"
      (some (.int (A.filter (·.fnc = (r.nOr : Int))).length))

omit [DecidableEq Fl] in
theorem totalled_thread (hp : Function.Injective pointer) (r : FunctionRecord) (tid : ThreadID) :
    totalled P pointer float name A r "TID" = some (.text ("0x" ++ pointer tid)) ↔ r.TID = tid := by
  show computed P (namedRow Fl pointer float name r) "TID" = some (.text ("0x" ++ pointer tid)) ↔ _
  exact computed_thread hp r tid

omit [DecidableEq Fl] in
theorem objectComputed_fnc {o : ObjectRecord} (h : o.fnc ≠ -1) :
    objectComputed P (sectionRow Fl (ObjectRecord.dict pointer float) (some o)) "fnc" = some (.text (toString o.fnc)) :=
  objectRow_fnc h

omit [DecidableEq Fl] in
theorem objectComputed_objSize (hP : P.Reads float) (o : ObjectRecord) :
    objectComputed P (sectionRow Fl (ObjectRecord.dict pointer float) (some o)) "objSize" =
      some (.int (int32 o.objSize)) := by
  rw [objectComputed_size, objectRow_size, Option.bind_some, (hP.astypeInt_int32 _).1, Option.map_some]

omit [DecidableEq Fl] in
/-- What the objects attributed to a call are grouped from. -/
theorem attributed_lists (hP : P.Reads float)
    (hobj : dfObjects.Lists objectColumns A fun o =>
      objectComputed P (sectionRow Fl (ObjectRecord.dict pointer float) (some o)))
    (hA : ∀ o ∈ A, o.fnc ≠ -1) :
    ∃ df, astypeInt P "objSize" (dfObjects.filter fun r => (r "fnc").isSome) = .ok df ∧
      df.Lists objectColumns A fun o =>
        inted P "objSize" (objectComputed P (sectionRow Fl (ObjectRecord.dict pointer float) (some o))) := by
  have hnotnull := hobj.filter fun r => (r "fnc").isSome
  rw [List.filter_eq_self.2 fun o ho => by rw [objectComputed_fnc (hA o ho)]; rfl] at hnotnull
  refine astypeInt_lists P "objSize" hnotnull (by decide) fun o ho => ?_
  rw [objectComputed_objSize hP, Option.bind_some, (hP.astypeInt_int32 _).2]
  rfl

/-- The totals of their groups. -/
theorem attributed_totals (hP : P.Documented float)
    (hobj : dfObjects.Lists objectColumns A fun o =>
      objectComputed P (sectionRow Fl (ObjectRecord.dict pointer float) (some o)))
    (hA : ∀ o ∈ A, o.fnc ≠ -1) :
    ∃ df, astypeInt P "objSize" (dfObjects.filter fun r => (r "fnc").isSome) = .ok df ∧ ∀ n : Int,
      (P.groupbySum df "fnc" "objSize" (.text (toString n))).or (some (.int 0)) =
          some (.int (sizeSum (A.filter (·.fnc = n)))) ∧
        (P.groupbySize df "fnc" (.text (toString n))).or (some (.int 0)) =
          some (.int (A.filter (·.fnc = n)).length) := by
  obtain ⟨df, hdf, hlists⟩ := attributed_lists hP.toReads hobj hA
  refine ⟨df, hdf, groupby_total hP.toGroups hlists (fun o ho => ?_) fun o ho => ?_⟩
  · rw [inted, Row.set_ne _ _ (by decide), objectComputed_fnc (hA o ho)]
  · rw [inted, Row.set_self, objectComputed_objSize hP.toReads, Option.bind_some, (hP.astypeInt_int32 _).2,
      Option.map_some]

/-- The rows of a thread get the totals of the objects of all threads. -/
theorem agregate_lists (hP : P.Documented float) (hp : Function.Injective pointer)
    (hfunc : dfFunc.Lists functionColumns W fun r => computed P (namedRow Fl pointer float name r))
    (hobj : dfObjects.Lists objectColumns A fun o =>
      objectComputed P (sectionRow Fl (ObjectRecord.dict pointer float) (some o)))
    (hA : ∀ o ∈ A, o.fnc ≠ -1) (tid : ThreadID) :
    ∃ result, agregateObjectsizeToFunctions P dfFunc dfObjects (some ("0x" ++ pointer tid)) = .ok result ∧
      result.Lists functionColumns (W.filter (·.TID = tid)) (totalled P pointer float name A) := by
  obtain ⟨df, hdf, htotal⟩ := attributed_totals hP hobj hA
  have hmapped := (hfunc.assign "objectSizeSum" fun r => (r "nOr").bind (P.groupbySum df "fnc" "objSize")).assign
    "count" fun r => (r "nOr").bind (P.groupbySize df "fnc")
  have hassigned := (hmapped.assign "objectSizeSum" fun r => (r "objectSizeSum").or (some (.int 0))).assign "count"
    fun r => (r "count").or (some (.int 0))
  have hrows : Table.Lists _ _ W (totalled P pointer float name A) := hassigned.congr fun r _ => by
    show ((((computed P (namedRow Fl pointer float name r)).set "objectSizeSum" _).set "count" _).set "objectSizeSum"
      ((P.groupbySum df "fnc" "objSize" (.text (toString (r.nOr : Int)))).or (some (.int 0)))).set "count"
      ((P.groupbySize df "fnc" (.text (toString (r.nOr : Int)))).or (some (.int 0))) = _
    rw [(htotal r.nOr).1, (htotal r.nOr).2, Row.set_comm _ (by decide), Row.set_set, Row.set_comm _ (by decide), Row.set_set]
    rfl
  have hthread : ∀ r, decide (totalled P pointer float name A r "TID" = some (.text ("0x" ++ pointer tid))) =
      decide (r.TID = tid) := fun r => decide_eq_decide.2 (totalled_thread hp r tid)
  have hresult := hrows.filter fun r => r "TID" = some (.text ("0x" ++ pointer tid))
  simp only [hthread] at hresult
  refine ⟨_, ?_, hresult.mono fun c hc => ?_⟩
  · rw [agregateObjectsizeToFunctions, need_column hobj (by decide)]
    show (astypeInt P "objSize" _ >>= _) = _
    rw [hdf]
    show (need dfFunc ["nOr"] >>= _) = _
    rw [need_column hfunc (by decide)]
    show (need dfFunc ["TID"] >>= _) = _
    rw [need_column hfunc (by decide)]
    rfl
  · iterate 4 refine List.mem_cons_of_mem _ ?_
    exact hc

/-- The thread of `r` gets one row of `r`, with the totals of the objects that this thread allocated
in that call. -/
def TotalsRight (P : Pandas Fl) (pointer : Nat → String) (float : Time → String) (data : Dict (Json String))
    (O : List ObjectRecord) (r : FunctionRecord) : Prop :=
  ∃ dfFunc dfObjects result row, makeFunctionDf P data = .ok dfFunc ∧ makeObjectsDf P data = .ok dfObjects ∧
    agregateObjectsizeToFunctions P dfFunc dfObjects (some ("0x" ++ pointer r.TID)) = .ok result ∧
    result.rows.filter (fun row => row "nOr" = some (.text (toString (r.nOr : Int)))) = [row] ∧
    (∀ c ∈ ["fID", "TID", "rFn", "nOr"], row c = (Dict.get? (r.dict pointer float) c).map .text) ∧
    row "objectSizeSum" = some (.int (sizeSum (O.filter fun o => o.TID = r.TID ∧ o.fnc = (r.nOr : Int)))) ∧
    row "count" = some (.int (O.filter fun o => o.TID = r.TID ∧ o.fnc = (r.nOr : Int)).length)

omit [DecidableEq Fl] in
theorem totalled_columns (r : FunctionRecord) : ∀ c ∈ ["fID", "TID", "rFn", "nOr"],
    totalled P pointer float name A r c = (Dict.get? (r.dict pointer float) c).map .text := by
  simp only [List.forall_mem_cons, List.not_mem_nil, false_imp_iff, implies_true, and_true]
  exact ⟨rfl, rfl, rfl, rfl⟩

/-- The row of `r` in what `agregate_objectsize_to_functions` returns. -/
theorem filter_result {cs : List String} {result : DataFrame Fl} {r : FunctionRecord}
    (h : result.Lists cs (W.filter (·.TID = r.TID)) (totalled P pointer float name A)) (hr : r ∈ W)
    (hnd : ((W.filter (·.TID = r.TID)).map (·.nOr)).Nodup) :
    result.rows.filter (fun row => row "nOr" = some (.text (toString (r.nOr : Int)))) =
      [totalled P pointer float name A r] := by
  have hrow := h.rows.filter fun row => row "nOr" = some (.text (toString (r.nOr : Int)))
  have hkey : (W.filter (·.TID = r.TID)).filter ((fun row : Row (Cell Fl) =>
      decide (row "nOr" = some (.text (toString (r.nOr : Int))))) ∘ totalled P pointer float name A) =
        (W.filter (·.TID = r.TID)).filter (fun q => r.nOr = q.nOr) := by
    refine List.filter_congr fun q _ => decide_eq_decide.2 ?_
    show some (Cell.text (toString (q.nOr : Int))) = some (.text (toString (r.nOr : Int))) ↔ _
    rw [Option.some.injEq, Cell.text.injEq, @eq_comm _ r.nOr]
    exact number_injective.eq_iff
  rw [List.filter_map, hkey, filter_key_eq (·.nOr) hnd (List.mem_filter.2 ⟨hr, decide_eq_true rfl⟩)] at hrow
  exact List.perm_singleton.1 hrow

theorem filter_attributed (O : List ObjectRecord) (n : Nat) :
    (O.filter (·.fnc ≠ -1)).filter (·.fnc = (n : Int)) = O.filter (·.fnc = (n : Int)) := by
  rw [List.filter_filter]
  refine List.filter_congr fun o _ => ?_
  rw [← Bool.decide_and, decide_eq_decide]
  omega

theorem totalsRight_iff (hP : P.Documented float) (hp : Function.Injective pointer) {data : Dict (Json String)}
    {O : List ObjectRecord} (hfunc : makeFunctionDf P data = .ok dfFunc)
    (hlists : dfFunc.Lists functionColumns W fun r => computed P (namedRow Fl pointer float name r))
    (hobjects : item data "Objects" = .ok ((objectsMember O).2.map (expand pointer float)))
    (hO : ∀ o ∈ O, o.IntMembers) {r : FunctionRecord} (hr : r ∈ W) (hnd : ((W.filter (·.TID = r.TID)).map (·.nOr)).Nodup) :
    TotalsRight P pointer float data O r ↔
      (∃ o ∈ O, o.fnc ≠ -1) ∧ ∀ o ∈ O, o.fnc = (r.nOr : Int) → o.TID = r.TID := by
  have hsplit : O.filter (fun o => o.TID = r.TID ∧ o.fnc = (r.nOr : Int)) =
      (O.filter (·.fnc = (r.nOr : Int))).filter (·.TID = r.TID) := by
    rw [List.filter_filter]
    exact List.filter_congr fun o _ => Bool.decide_and _ _
  have hsame : (∀ o ∈ O, o.fnc = (r.nOr : Int) → o.TID = r.TID) ↔
      ((O.filter (·.fnc = (r.nOr : Int))).filter (·.TID = r.TID)).length =
        (O.filter (·.fnc = (r.nOr : Int))).length := by
    rw [List.length_filter_eq_length_iff]
    simp only [List.mem_filter, decide_eq_true_eq, and_imp]
  have hattributed : ∀ o ∈ O.filter (·.fnc ≠ -1), o.fnc ≠ -1 := fun o ho => of_decide_eq_true (List.mem_filter.1 ho).2
  constructor
  · rintro ⟨df, dfObjects, result, row, hdf, hobj, hres, hrow, -, -, hcount⟩
    obtain rfl := Except.ok.inj (hfunc.symm.trans hdf)
    have hA : ∃ o ∈ O, o.fnc ≠ -1 := by
      rw [agregateObjectsizeToFunctions, bind_eq_ok] at hres
      obtain ⟨_, hneed, -⟩ := hres
      exact makeObjectsDf_fnc hP.toReads hobjects hobj (need_mem hneed "fnc" (List.mem_singleton_self _))
    obtain ⟨dfObjects', hobj', hobjLists⟩ := makeObjectsDf_lists hP.toReads hobjects hA hO
    obtain rfl := Except.ok.inj (hobj.symm.trans hobj')
    obtain ⟨result', hres', hresLists⟩ := agregate_lists hP hp hlists hobjLists hattributed r.TID
    obtain rfl := Except.ok.inj (hres.symm.trans hres')
    rw [filter_result hresLists hr hnd, List.singleton_inj] at hrow
    subst hrow
    refine ⟨hA, hsame.2 ?_⟩
    have hall : totalled P pointer float name (O.filter (·.fnc ≠ -1)) r "count" =
        some (.int (O.filter (·.fnc = (r.nOr : Int))).length) := by
      rw [totalled, Row.set_self, filter_attributed]
    rw [hall, hsplit, Option.some.injEq, Cell.int.injEq] at hcount
    omega
  · rintro ⟨hA, hT⟩
    have heq : O.filter (fun o => o.TID = r.TID ∧ o.fnc = (r.nOr : Int)) = O.filter (·.fnc = (r.nOr : Int)) := by
      rw [hsplit]
      exact List.filter_eq_self.2 (List.length_filter_eq_length_iff.1 (hsame.1 hT))
    obtain ⟨dfObjects, hobj, hobjLists⟩ := makeObjectsDf_lists hP.toReads hobjects hA hO
    obtain ⟨result, hres, hresLists⟩ := agregate_lists hP hp hlists hobjLists hattributed r.TID
    have hrow := filter_result hresLists hr hnd
    refine ⟨dfFunc, dfObjects, result, _, hfunc, hobj, hres, hrow, totalled_columns r, ?_, ?_⟩
    · rw [heq, totalled, Row.set_ne _ _ (by decide), Row.set_self, filter_attributed]
    · rw [heq, totalled, Row.set_self, filter_attributed]

theorem Reachable.written_gc {s : CoreProfiler} (hs : Reachable s) (hi : s.IntMembers) {records : List ObjectRecord}
    {objects : Heap ObjectClass} (ho : objectsSection s = .ok (records, objects)) : ∀ o ∈ records, o.IntMembers := by
  obtain ⟨records', objects', ho', hwritten⟩ := hs.tracked.written
  obtain ⟨rfl, -⟩ := Prod.mk.inj (Except.ok.inj (ho.symm.trans ho'))
  intro o hmem
  obtain ⟨p, -, ⟨object, hobject, hrecord⟩, -⟩ := forall₂_mem_left hwritten.flip hwritten.flip hmem
  have hgc := hi.gcNumber p object hobject
  rcases hrecord with rfl | rfl
  · exact hgc
  · unfold ObjectClass.survive
    split
    · exact ⟨hgc.1, hi.next⟩
    · exact hgc

theorem Reachable.totalsRight_iff (hP : P.Documented float) (hp : Function.Injective pointer)
    (hne : ∀ a, pointer a ≠ "") {s : CoreProfiler} (hs : Reachable s) (hi : s.IntMembers) {now : Clock}
    {events : List FunctionEvent} {functions : Heap FunctionClass}
    (hf : functionsSection s.functions.size now s = .ok (events, functions)) {records : List ObjectRecord}
    {objects : Heap ObjectClass} (ho : objectsSection s = .ok (records, objects)) {c : Config} {gcs : List GcEvent}
    {os : Process} {r : FunctionRecord} (hr : r ∈ writtenRecords events) :
    TotalsRight P pointer float
        (parseJson pointer float (document c gcs (writtenRecords events) records s.names os now)) records r ↔
      (∃ o ∈ records, o.fnc ≠ -1) ∧ ∀ o ∈ records, o.fnc = (r.nOr : Int) → o.TID = r.TID := by
  obtain ⟨dfFunc, hfunc, hlists⟩ := hs.makeFunctionDf hP.toLoads hp hne hi hf (List.ne_nil_of_mem hr)
  exact Perun.totalsRight_iff hP hp hfunc hlists (item_document rfl) (hs.written_gc hi ho) hr (hs.listing hf hr rfl).nodup

/-- After every run, the totals of a call are right exactly when some object is attributed to a call
and every object attributed to this number is one of its thread. -/
theorem totals_right_iff (hP : P.Documented float) (hp : Function.Injective pointer) (hne : ∀ a, pointer a ≠ "")
    {c : Config} {es : List Callback} {s : CoreProfiler} (h : run step c.start es = .ok s) (hi : s.IntMembers)
    (os : Process) (now : Clock) :
    ∃ events functions records objects s' ms,
      functionsSection s.functions.size now s = .ok (events, functions) ∧ objectsSection s = .ok (records, objects) ∧
      shutdown os now s = .ok s' ∧ s'.log.flatten = (Json.obj ms).toks ∧
      ms = document c (gcEvents c.start es) (writtenRecords events) records s.names os now ∧
      ∀ r ∈ writtenRecords events, TotalsRight P pointer float (parseJson pointer float ms) records r ↔
        (∃ o ∈ records, o.fnc ≠ -1) ∧ ∀ o ∈ records, o.fnc = (r.nOr : Int) → o.TID = r.TID := by
  obtain ⟨events, functions, records, objects, s', hf, ho, hok, hlog⟩ := shutdown_profile h os now
  exact ⟨events, functions, records, objects, s', _, hf, ho, hok, hlog, rfl,
    fun r hr => Reachable.totalsRight_iff hP hp hne ⟨c, es, h⟩ hi hf ho hr⟩

end agregate

/-- An object is allocated in the first call of the second thread. -/
def allocateInSecond : List Callback :=
  [.trace 7, .enterStub 7 1 ⟨1, 1⟩, .enterStub 7 2 ⟨2, 2⟩, .objectAllocated 100 5 (some 24) 2 ⟨3, 3⟩]

theorem totals_right_iff_second :
    ∃ s, run step Config.plain.start allocateInSecond = .ok s ∧
      ∃ events functions records objects s' ms,
        functionsSection s.functions.size ⟨9, 9⟩ s = .ok (events, functions) ∧
        objectsSection s = .ok (records, objects) ∧ shutdown ⟨1, 1⟩ ⟨9, 9⟩ s = .ok s' ∧
        s'.log.flatten = (Json.obj ms).toks ∧
        ms = document .plain (gcEvents Config.plain.start allocateInSecond) (writtenRecords events) records s.names
          ⟨1, 1⟩ ⟨9, 9⟩ ∧
        ∀ r ∈ writtenRecords events,
          TotalsRight tables (fun a => "0x" ++ a.repr) seconds (parseJson (fun a => "0x" ++ a.repr) seconds ms)
              records r ↔
            (∃ o ∈ records, o.fnc ≠ -1) ∧ ∀ o ∈ records, o.fnc = (r.nOr : Int) → o.TID = r.TID :=
  ⟨_, rfl, totals_right_iff tables_documented printed_injective printed_ne
    (show run step Config.plain.start allocateInSecond = .ok _ from rfl) (by decide) ⟨1, 1⟩ ⟨9, 9⟩⟩

/-- The first call of the first thread is given the object of the second thread. -/
theorem second_thread_counted :
    ∃ s, run step Config.plain.start allocateInSecond = .ok s ∧
      ∃ events functions records objects s' ms,
        functionsSection s.functions.size ⟨9, 9⟩ s = .ok (events, functions) ∧
        objectsSection s = .ok (records, objects) ∧ shutdown ⟨1, 1⟩ ⟨9, 9⟩ s = .ok s' ∧
        s'.log.flatten = (Json.obj ms).toks ∧
        ms = document .plain (gcEvents Config.plain.start allocateInSecond) (writtenRecords events) records s.names
          ⟨1, 1⟩ ⟨9, 9⟩ ∧
        ∃ r ∈ writtenRecords events, r.TID = 1 ∧ r.nOr = 0 ∧ records.filter (·.TID = 1) = [] ∧
          ¬ TotalsRight tables (fun a => "0x" ++ a.repr) seconds (parseJson (fun a => "0x" ++ a.repr) seconds ms)
            records r := by
  obtain ⟨s, hs⟩ : ∃ s, run step Config.plain.start allocateInSecond = .ok s := ⟨_, rfl⟩
  obtain ⟨events, functions, records, objects, s', hf, ho, hok, hlog⟩ := shutdown_profile hs ⟨1, 1⟩ ⟨9, 9⟩
  refine ⟨s, hs, events, functions, records, objects, s', _, hf, ho, hok, hlog, rfl, ?_⟩
  obtain rfl : _ = s := Except.ok.inj hs
  obtain ⟨hrecords, -⟩ : [⟨2, 100, 24, "", 1, 1, 0, 3, 3⟩] = records ∧ _ = objects := Prod.mk.inj (Except.ok.inj ho)
  have hr : ⟨7, 1, 1, 9, 1, 9, 0, none, 0⟩ ∈ writtenRecords events := by
    obtain ⟨rfl, -⟩ : _ = events ∧ _ = functions := Prod.mk.inj (Except.ok.inj hf)
    decide
  refine ⟨_, hr, rfl, rfl, by rw [← hrecords]; rfl, fun ht => ?_⟩
  have hright := (Reachable.totalsRight_iff tables_documented printed_injective printed_ne
    ⟨.plain, allocateInSecond, hs⟩ (by decide) hf ho hr).1 ht
  rw [← hrecords] at hright
  exact absurd (hright.2 _ (List.mem_singleton_self _) rfl) (by decide)

end Perun
