import PerunProfiler.Mapped
import PerunProfiler.Visualization

/-!
# The frames of a written profile

`makeFunctionDf` gives a row for every record in the functions section, with its name, and none for
the sentinel.
-/

namespace Perun
open Lib

/-! ### Reading the sections -/

section read
variable {pointer : Nat → String} {float : Time → String}

theorem expand_arg (a : Arg) : expand pointer float [.arg a] = match a with
    | .d n => toString n
    | .p a => pointer a
    | .f t => float t
    | .s text => cStr text := by
  cases a <;> simp [expand, String.join]

/-- What `json.load` makes of a record. -/
def FunctionRecord.dict (pointer : Nat → String) (float : Time → String) (r : FunctionRecord) : Dict String :=
  [("fID", pointer r.fID), ("TID", "0x" ++ pointer r.TID), ("eWALLt", float r.eWALLt), ("lWALLt", float r.lWALLt),
    ("eCPUt", float r.eCPUt), ("lCPUt", float r.lCPUt), ("depth", toString (r.depth : Int)),
    ("rFn", r.rFn.elim "" fun n => toString (n : Int)), ("nOr", toString (r.nOr : Int))]

def FunctionRecord.columns : List String :=
  ["fID", "TID", "eWALLt", "lWALLt", "eCPUt", "lCPUt", "depth", "rFn", "nOr"]

theorem FunctionRecord.keys_dict (r : FunctionRecord) : (r.dict pointer float).map Prod.fst = columns := rfl

/-- A dictionary of texts as a value of the document. -/
def dictJson (d : Dict String) : Json String := .obj (d.map fun e => (e.1, .str e.2))

theorem FunctionRecord.json_map (r : FunctionRecord) :
    r.json.map (expand pointer float) = dictJson (r.dict pointer float) := by
  rw [FunctionRecord.json, Json.map_obj, dictJson, FunctionRecord.dict]
  simp only [field, List.map_cons, List.map_nil, Json.map_str, expand_lit, expand_append, expand_arg]
  cases r.rFn <;> simp [expand, String.join]

theorem texts_dictJson {d : Dict String} (h : (d.map Prod.fst).Nodup) : texts (dictJson d) = .ok d := by
  have hmap : ∀ d : Dict String, (d.map fun e => (e.1, Json.str e.2)).mapM
      (fun m => (text m.2).map fun value => (m.1, value)) = .ok d := by
    intro d
    induction d with
    | nil => rfl
    | cons e d ih =>
      rw [List.map_cons, List.mapM_cons, ih]
      rfl
  rw [dictJson, texts, hmap]
  exact congrArg Except.ok (Dict.ofMembers_eq h)

theorem records_arr {ds : List (Dict String)} (h : ∀ d ∈ ds, (d.map Prod.fst).Nodup) :
    records (.arr (ds.map dictJson)) = .ok ds := by
  rw [records]
  induction ds with
  | nil => rfl
  | cons d ds ih =>
    rw [List.map_cons, List.mapM_cons, texts_dictJson (h d (by simp)), ih fun d hd => h d (List.mem_cons_of_mem _ hd)]
    rfl

/-- The dictionaries of a section, the sentinel at the end. -/
theorem records_section {α : Type} {json : α → Json Str} {dict : α → Dict String}
    (hjson : ∀ x, (json x).map (expand pointer float) = dictJson (dict x)) (hnd : ∀ x, ((dict x).map Prod.fst).Nodup)
    (L : List α) :
    records ((Json.arr (L.map json ++ [.obj []])).map (expand pointer float)) = .ok (L.map dict ++ [[]]) := by
  have harr : (Json.arr (L.map json ++ [.obj []])).map (expand pointer float) =
      .arr ((L.map dict ++ [[]]).map dictJson) := by
    rw [Json.map_arr, List.map_append, List.map_append, List.map_map, List.map_map]
    congr 2
    exact List.map_congr_left fun x _ => hjson x
  rw [harr, records_arr]
  intro d hd
  rcases List.mem_append.1 hd with hd | hd
  · obtain ⟨x, -, rfl⟩ := List.mem_map.1 hd
    exact hnd x
  · rw [List.mem_singleton.1 hd]
    exact .nil

theorem records_functions (functions : List FunctionRecord) :
    records ((functionsMember functions).2.map (expand pointer float)) =
      .ok (functions.map (FunctionRecord.dict pointer float) ++ [[]]) :=
  records_section FunctionRecord.json_map (fun r => by rw [r.keys_dict]; decide) functions

/-- The dictionary of the names section. -/
def namesDict (pointer : Nat → String) (names : List FunctionInfo) : Dict String :=
  names.map (fun i => (pointer i.funcId, cStr i.name)) ++ [("", "")]

theorem nodup_namesDict {names : List FunctionInfo} (hp : Function.Injective pointer) (hne : ∀ a, pointer a ≠ "")
    (h : (names.map (·.funcId)).Nodup) : ((namesDict pointer names).map Prod.fst).Nodup := by
  rw [namesDict, List.map_append, List.map_map, List.nodup_append]
  refine ⟨?_, List.nodup_singleton _, fun key hkey key' hkey' => ?_⟩
  · rw [show (Prod.fst ∘ fun i : FunctionInfo => (pointer i.funcId, cStr i.name)) = pointer ∘ (·.funcId) from rfl,
      ← List.map_map]
    exact h.map hp
  · obtain ⟨i, -, rfl⟩ := List.mem_map.1 hkey
    rw [List.mem_singleton.1 hkey']
    exact hne i.funcId

theorem texts_names {names : List FunctionInfo} (hp : Function.Injective pointer) (hne : ∀ a, pointer a ≠ "")
    (h : (names.map (·.funcId)).Nodup) :
    texts ((namesMember names).2.map (expand pointer float)) = .ok (namesDict pointer names) := by
  have hjson : (namesMember names).2.map (expand pointer float) = dictJson (namesDict pointer names) := by
    rw [namesMember, Json.map_obj, dictJson, namesDict, List.map_append, List.map_append, List.map_map, List.map_map]
    congr 2
  rw [hjson, texts_dictJson (nodup_namesDict hp hne h)]

section items
variable {c : Config} {gcs : List GcEvent} {functions : List FunctionRecord} {objects : List ObjectRecord}
  {names : List FunctionInfo} {os : Process} {now : Clock}

/-- The sections are found under their keys, whatever the events are called. -/
theorem item_document {key : String} {value : Json Str}
    (h : Dict.get? [("ProfilerShutdown", (shutdownMember os now).2), ("functionNames", (namesMember names).2),
      ("Objects", (objectsMember objects).2), ("functions", (functionsMember functions).2)] key = some value) :
    item (parseJson pointer float (document c gcs functions objects names os now)) key =
      .ok (value.map (expand pointer float)) := by
  have hlast : (([functionsMember functions, objectsMember objects, namesMember names, shutdownMember os now].map
      fun m => (expand pointer float m.1, m.2.map (expand pointer float))).reverse : Dict (Json String)) =
      Dict.mapValues (Json.map (expand pointer float)) [("ProfilerShutdown", (shutdownMember os now).2),
        ("functionNames", (namesMember names).2), ("Objects", (objectsMember objects).2),
        ("functions", (functionsMember functions).2)] := by
    simp [Dict.mapValues, functionsMember, objectsMember, namesMember, shutdownMember, expand_lit]
  rw [item, parseJson, Dict.get?_ofMembers, document, List.map_append, List.reverse_append, hlast, Dict.get?_append,
    Dict.get?_mapValues, h]
  rfl

end items
end read

/-! ### Columns of numbers -/

section columns
variable {Fl ι : Type} {P : Pandas Fl} {df : DataFrame Fl} {L : List ι} {row : ι → Row (Cell Fl)}
  {cs : List String} {column : String}

def floated (P : Pandas Fl) (column : String) (r : Row (Cell Fl)) : Row (Cell Fl) :=
  r.set column ((r column).bind fun value => (P.astypeFloat value).map .float)

def inted (P : Pandas Fl) (column : String) (r : Row (Cell Fl)) : Row (Cell Fl) :=
  r.set column (((r column).bind P.astypeInt).map .int)

theorem Pandas.Reads.astypeInt_nat {float : Time → String} (hP : P.Reads float) {n : Nat} (h : n < 2 ^ 31) :
    P.astypeInt (.text (toString (n : Int))) = some (n : Int) :=
  (hP.astypeInt n (by omega) (by omega)).1

theorem Pandas.Reads.astypeInt_int32 {float : Time → String} (hP : P.Reads float) (n : Int) :
    P.astypeInt (.text (toString (int32 n))) = some (int32 n) ∧ P.astypeInt (.int (int32 n)) = some (int32 n) := by
  have hbounds := int32_bounds n
  exact hP.astypeInt _ (by omega) (by omega)

theorem need_ok (h : ∀ c ∈ cs, c ∈ df.columns) : need df cs = .ok () := by
  rw [need, List.find?_eq_none.2]
  intro c hc
  simpa using h c hc

theorem need_mem (h : need df cs = .ok ()) : ∀ c ∈ cs, c ∈ df.columns := by
  unfold need at h
  split at h
  · cases h
  · next hnone =>
    intro c hc
    simpa using List.find?_eq_none.1 hnone c hc

theorem need_column (h : df.Lists cs L row) (hc : column ∈ cs) : need df [column] = .ok () := by
  refine need_ok fun c hcs => ?_
  rw [List.mem_singleton.1 hcs]
  exact h.columns column hc

theorem astypeFloat_lists (P : Pandas Fl) (column : String) (h : df.Lists cs L row) (hc : column ∈ cs)
    (hv : ∀ i ∈ L, ∀ value, row i column = some value → (P.astypeFloat value).isSome) :
    ∃ df', astypeFloat P column df = .ok df' ∧ df'.Lists cs L fun i => floated P column (row i) := by
  have hall : (df.rows.all fun r => (r column).all fun value => (P.astypeFloat value).isSome) = true := by
    rw [h.all, List.all_eq_true]
    intro i hi
    cases hr : row i column with
    | none => rfl
    | some value => exact hv i hi value hr
  have hassign := h.assign column fun r => (r column).bind fun value => (P.astypeFloat value).map .float
  refine ⟨_, ?_, hassign.mono fun c hcs => List.mem_cons_of_mem _ hcs⟩
  rw [astypeFloat, need_column h hc]
  exact if_pos hall

theorem astypeInt_lists (P : Pandas Fl) (column : String) (h : df.Lists cs L row) (hc : column ∈ cs)
    (hv : ∀ i ∈ L, ((row i column).bind P.astypeInt).isSome) :
    ∃ df', astypeInt P column df = .ok df' ∧ df'.Lists cs L fun i => inted P column (row i) := by
  have hall : (df.rows.all fun r => ((r column).bind P.astypeInt).isSome) = true := by
    rw [h.all, List.all_eq_true]
    exact hv
  have hassign := h.assign column fun r => ((r column).bind P.astypeInt).map .int
  refine ⟨_, ?_, hassign.mono fun c hcs => List.mem_cons_of_mem _ hcs⟩
  rw [astypeInt, need_column h hc]
  exact if_pos hall

/-- Converting a column keeps the columns. -/
theorem columns_astypeFloat {df' : DataFrame Fl} (h : astypeFloat P column df = .ok df') :
    df'.columns = df.columns := by
  rw [astypeFloat, bind_eq_ok] at h
  obtain ⟨_, hneed, h⟩ := h
  split at h
  · cases h
    exact if_pos (need_mem hneed column (List.mem_singleton_self column))
  · cases h

theorem columns_astypeInt {df' : DataFrame Fl} (h : astypeInt P column df = .ok df') :
    df'.columns = df.columns := by
  rw [astypeInt, bind_eq_ok] at h
  obtain ⟨_, hneed, h⟩ := h
  split at h
  · cases h
    exact if_pos (need_mem hneed column (List.mem_singleton_self column))
  · cases h

end columns

/-! ### The merge -/

section merge
variable {Fl : Type} [DecidableEq Fl] {P : Pandas Fl} {pointer : Nat → String} {float : Time → String}
  {W : List FunctionRecord} {names : List FunctionInfo} {name : FunctionID → String}

/-- A record with its name. -/
def namedRow (Fl : Type) (pointer : Nat → String) (float : Time → String) (name : FunctionID → String)
    (r : FunctionRecord) : Row (Cell Fl) :=
  fun c => (Dict.get? (r.dict pointer float ++ [("fName", name r.fID)]) c).map .text

omit [DecidableEq Fl] in
theorem namedRow_isSome {r : FunctionRecord} {c : String} (hc : c ∈ "fName" :: FunctionRecord.columns) :
    (namedRow Fl pointer float name r c).isSome := by
  rw [namedRow, Option.isSome_map, Dict.isSome_get?, List.map_append, r.keys_dict, List.mem_append]
  exact (List.mem_cons.1 hc).symm.imp id fun h => List.mem_singleton.2 h

/-- A row of a section, the sentinel's as well. -/
def sectionRow (Fl : Type) {α : Type} (dict : α → Dict String) (o : Option α) : Row (Cell Fl) :=
  Dict.get? (Dict.mapValues .text (o.elim [] dict))

omit [DecidableEq Fl] in
theorem dataFrame_rows {α : Type} (hP : P.Reads float) (dict : α → Dict String) (L : List α) :
    (P.dataFrame (L.map dict ++ [[]])).rows = (L.map some ++ [none]).map (sectionRow Fl dict) := by
  rw [hP.dataFrame]
  simp only [Table.ofDicts, List.map_append, List.map_map, List.map_cons, List.map_nil]
  rfl

omit [DecidableEq Fl] in
theorem mem_columns_dataFrame {α : Type} (hP : P.Reads float) {dict : α → Dict String} {L : List α}
    {c : String} : c ∈ (P.dataFrame (L.map dict ++ [[]])).columns ↔ ∃ x ∈ L, c ∈ (dict x).map Prod.fst := by
  rw [hP.dataFrame, Table.mem_columns_ofDicts]
  constructor
  · rintro ⟨d', hd', hc⟩
    obtain ⟨d, hd, rfl⟩ := List.mem_map.1 hd'
    rw [show (d.map fun e => (e.1, Cell.text e.2)) = Dict.mapValues Cell.text d from rfl, Dict.keys_mapValues] at hc
    rcases List.mem_append.1 hd with hd | hd
    · obtain ⟨x, hx, rfl⟩ := List.mem_map.1 hd
      exact ⟨x, hx, hc⟩
    · rw [List.mem_singleton.1 hd] at hc
      cases hc
  · rintro ⟨x, hx, hc⟩
    refine ⟨_, List.mem_map_of_mem (List.mem_append_left _ (List.mem_map_of_mem hx)), ?_⟩
    show c ∈ (Dict.mapValues Cell.text (dict x)).map Prod.fst
    rwa [Dict.keys_mapValues]

omit [DecidableEq Fl] in
theorem mem_functionsFrame (hP : P.Reads float) (hW : W ≠ []) {c : String} :
    c ∈ (P.dataFrame (W.map (FunctionRecord.dict pointer float) ++ [[]])).columns ↔ c ∈ FunctionRecord.columns := by
  rw [mem_columns_dataFrame hP]
  constructor
  · rintro ⟨r, -, hc⟩
    rwa [r.keys_dict] at hc
  · intro hc
    obtain ⟨r, hr⟩ := List.exists_mem_of_ne_nil W hW
    exact ⟨r, hr, by rwa [r.keys_dict]⟩

/-- The rows of the names that a record meets. -/
theorem filter_names (hp : Function.Injective pointer) (hne : ∀ a, pointer a ≠ "")
    (hnd : (names.map (·.funcId)).Nodup) {i : FunctionInfo} (hi : i ∈ names) :
    (namesDict pointer names).filter (fun e => pointer i.funcId = e.1) = [(pointer i.funcId, cStr i.name)] :=
  filter_key_eq Prod.fst (nodup_namesDict hp hne hnd)
    (List.mem_append_left _ (List.mem_map.2 ⟨i, hi, rfl⟩))

/-- The row of a name. -/
def nameRow (Fl : Type) (e : String × String) : Row (Cell Fl) := Dict.get? [("fID", .text e.1), ("fName", .text e.2)]

/-- Every record meets its name, the sentinel meets none. -/
theorem join_names (hp : Function.Injective pointer) (hne : ∀ a, pointer a ≠ "") (hnd : (names.map (·.funcId)).Nodup)
    (hname : ∀ r ∈ W, ∃ i ∈ names, i.funcId = r.fID ∧ cStr i.name = name r.fID) :
    ∀ o ∈ W.map some ++ [none], ((namesDict pointer names).map (nameRow Fl)).filter
        (fun r => sectionRow Fl (FunctionRecord.dict pointer float) o "fID" = r "fID") =
      (o.map fun r => nameRow Fl (pointer r.fID, name r.fID)).toList := by
  intro o ho
  rw [List.filter_map]
  rcases List.mem_append.1 ho with ho | ho
  · obtain ⟨r, hr, rfl⟩ := List.mem_map.1 ho
    obtain ⟨i, hi, hid, hiname⟩ := hname r hr
    have hkey : (namesDict pointer names).filter
        ((fun x => decide (sectionRow Fl (FunctionRecord.dict pointer float) (some r) "fID" = x "fID")) ∘ nameRow Fl) =
        (namesDict pointer names).filter (fun e => pointer i.funcId = e.1) := by
      refine List.filter_congr fun e _ => ?_
      rw [hid]
      show decide (some (Cell.text (pointer r.fID)) = some (Cell.text e.1)) = _
      simp
    rw [hkey, filter_names hp hne hnd hi, hid, hiname]
    rfl
  · obtain rfl := List.mem_singleton.1 ho
    rw [List.filter_eq_nil_iff.2]
    · rfl
    · intro e _
      show ¬ decide ((none : Option (Cell Fl)) = some (.text e.1)) = true
      simp

omit [DecidableEq Fl] in
theorem namedRow_eq (r : FunctionRecord) (c : String) : namedRow Fl pointer float name r c =
    if c ∈ FunctionRecord.columns then sectionRow Fl (FunctionRecord.dict pointer float) (some r) c
    else nameRow Fl (pointer r.fID, name r.fID) c := by
  rw [namedRow, Dict.get?_append, sectionRow, Option.elim_some, Dict.get?_mapValues]
  have hkey : ((r.dict pointer float).get? c).isSome ↔ c ∈ FunctionRecord.columns := by
    rw [Dict.isSome_get?, r.keys_dict]
  by_cases hc : c ∈ FunctionRecord.columns
  · rw [if_pos hc, Option.or_of_isSome (hkey.2 hc)]
  · have hid : "fID" ≠ c := fun h => hc (h ▸ by decide)
    rw [if_neg hc, Dict.get?_eq_none.2 (by rwa [r.keys_dict]), Option.none_or, Dict.get?_cons]
    show _ = Dict.get? (("fID", Cell.text (pointer r.fID)) :: [("fName", Cell.text (name r.fID))]) c
    rw [Dict.get?_cons, if_neg hid, Dict.get?_cons]
    split <;> rfl

/-- The join with the names has their column besides those of the records. -/
theorem merge_names (hP : P.Loads float) (hW : W ≠ []) (names : List FunctionInfo) :
    (∀ c, c ∈ (P.merge (P.dataFrame (W.map (FunctionRecord.dict pointer float) ++ [[]]))
        (P.fromDict (namesDict pointer names) "fName" "fID") "fID").columns ↔ c ∈ "fName" :: FunctionRecord.columns) ∧
      (P.merge (P.dataFrame (W.map (FunctionRecord.dict pointer float) ++ [[]]))
          (P.fromDict (namesDict pointer names) "fName" "fID") "fID").rows.Perm
        (Table.join "fID" (P.dataFrame (W.map (FunctionRecord.dict pointer float) ++ [[]]))
          (P.fromDict (namesDict pointer names) "fName" "fID")).rows := by
  obtain ⟨hright, -⟩ := hP.fromDict (namesDict pointer names) "fName" "fID"
  have hshared : ∀ c ∈ (P.dataFrame (W.map (FunctionRecord.dict pointer float) ++ [[]])).columns,
      c ∈ (P.fromDict (namesDict pointer names) "fName" "fID").columns → c = "fID" := by
    intro c hl hr
    rw [mem_functionsFrame hP.toReads hW] at hl
    rw [hright] at hr
    rcases List.mem_cons.1 hr with rfl | hr
    · rfl
    · rw [List.mem_singleton.1 hr] at hl
      exact absurd hl (by decide)
  obtain ⟨hcolumns, hrows⟩ := hP.merge _ _ "fID" hshared
  refine ⟨fun c => ?_, hrows⟩
  rw [hcolumns, Table.mem_columns_join, mem_functionsFrame hP.toReads hW, hright]
  constructor
  · rintro (hc | hc)
    · exact List.mem_cons_of_mem _ hc
    · rcases List.mem_cons.1 hc with rfl | hc
      · decide
      · rw [List.mem_singleton.1 hc]
        exact List.mem_cons_self
  · intro hc
    rcases List.mem_cons.1 hc with rfl | hc
    · exact .inr (by decide)
    · exact .inl hc

theorem merge_lists (hP : P.Loads float) (hp : Function.Injective pointer) (hne : ∀ a, pointer a ≠ "")
    (hnd : (names.map (·.funcId)).Nodup) (hW : W ≠ [])
    (hname : ∀ r ∈ W, ∃ i ∈ names, i.funcId = r.fID ∧ cStr i.name = name r.fID) :
    (P.dropna (P.merge (P.dataFrame (W.map (FunctionRecord.dict pointer float) ++ [[]]))
      (P.fromDict (namesDict pointer names) "fName" "fID") "fID")).Lists ("fName" :: FunctionRecord.columns) W
      (namedRow Fl pointer float name) := by
  obtain ⟨-, hrightRows⟩ := hP.fromDict (namesDict pointer names) "fName" "fID"
  obtain ⟨hcolumns, hmerge⟩ := merge_names hP hW names
  have hrow : ∀ r : FunctionRecord, (fun c =>
      if c ∈ (P.dataFrame (W.map (FunctionRecord.dict pointer float) ++ [[]])).columns then
        sectionRow Fl (FunctionRecord.dict pointer float) (some r) c
      else nameRow Fl (pointer r.fID, name r.fID) c) = namedRow Fl pointer float name r := by
    intro r
    funext c
    simp only [mem_functionsFrame hP.toReads hW]
    exact (namedRow_eq r c).symm
  have hjoin := Table.join_rows "fID" (dataFrame_rows hP.toReads (FunctionRecord.dict pointer float) W)
    (by rw [hrightRows]; exact join_names hp hne hnd hname)
  rw [List.filterMap_append, List.filterMap_map] at hjoin
  simp only [Function.comp_def, Option.map_some, Option.map_none, List.filterMap_cons, List.filterMap_nil,
    List.append_nil, hrow] at hjoin
  rw [List.filterMap_eq_map'] at hjoin
  rw [hjoin] at hmerge
  rw [hP.dropna, Table.dropMissing_eq]
  · exact ⟨fun c hc => (hcolumns c).2 hc, hmerge⟩
  · intro r hr c hc
    obtain ⟨r, -, rfl⟩ := List.mem_map.1 (hmerge.mem_iff.1 hr)
    exact namedRow_isSome ((hcolumns c).1 hc)

/-! ### The frame of the functions -/

/-- What `make_function_df` computes in a row. -/
def computed (P : Pandas Fl) (r : Row (Cell Fl)) : Row (Cell Fl) :=
  let r := floated P "lWALLt" (floated P "eWALLt" (floated P "eCPUt" (floated P "lCPUt" r)))
  let r := r.set "cpuTime" (millis P (r "lCPUt") (r "eCPUt"))
  let r := r.set "wallTime" (millis P (r "lWALLt") (r "eWALLt"))
  let r := r.set "class" (part "::" 0 (r "fName"))
  let r := r.set "function" (part "::" 1 (r "fName"))
  inted P "depth" r

/-- The columns that the frame of the functions has. -/
def functionColumns : List String :=
  "function" :: "class" :: "wallTime" :: "cpuTime" :: "fName" :: FunctionRecord.columns

/-- A profile with a call is read into a row for every record. -/
theorem makeFunctionDf_lists (hP : P.Loads float) (hp : Function.Injective pointer) (hne : ∀ a, pointer a ≠ "")
    (hnd : (names.map (·.funcId)).Nodup) (hW : W ≠ [])
    (hdepth : ∀ r ∈ W, r.depth < 2 ^ 31)
    (hname : ∀ r ∈ W, ∃ i ∈ names, i.funcId = r.fID ∧ cStr i.name = name r.fID) {data : Dict (Json String)}
    (hfunctions : item data "functions" = .ok ((functionsMember W).2.map (expand pointer float)))
    (hnames : item data "functionNames" = .ok ((namesMember names).2.map (expand pointer float))) :
    ∃ df, makeFunctionDf P data = .ok df ∧
      df.Lists functionColumns W fun r => computed P (namedRow Fl pointer float name r) := by
  have hmerge := merge_lists hP hp hne hnd hW hname
  have hneed : need (P.dataFrame (W.map (FunctionRecord.dict pointer float) ++ [[]])) ["fID"] = .ok () :=
    need_ok fun c hc => (mem_functionsFrame hP.toReads hW).2 (by rw [List.mem_singleton.1 hc]; decide)
  have hfloat : ∀ (time : FunctionRecord → Time) (r : FunctionRecord) (value : Cell Fl),
      some (Cell.text (float (time r))) = some value → (P.astypeFloat value).isSome := fun time r value hv => by
    rw [← Option.some.inj hv]
    exact hP.astypeFloat (time r)
  obtain ⟨df₁, h₁, hl₁⟩ := astypeFloat_lists P "lCPUt" hmerge (by decide) fun r _ => hfloat (·.lCPUt) r
  obtain ⟨df₂, h₂, hl₂⟩ := astypeFloat_lists P "eCPUt" hl₁ (by decide) fun r _ => hfloat (·.eCPUt) r
  obtain ⟨df₃, h₃, hl₃⟩ := astypeFloat_lists P "eWALLt" hl₂ (by decide) fun r _ => hfloat (·.eWALLt) r
  obtain ⟨df₄, h₄, hl₄⟩ := astypeFloat_lists P "lWALLt" hl₃ (by decide) fun r _ => hfloat (·.lWALLt) r
  have hl₅ := (((hl₄.assign "cpuTime" fun r => millis P (r "lCPUt") (r "eCPUt")).assign "wallTime"
    fun r => millis P (r "lWALLt") (r "eWALLt")).assign "class" fun r => part "::" 0 (r "fName")).assign "function"
    fun r => part "::" 1 (r "fName")
  obtain ⟨df₆, h₆, hl₆⟩ := astypeInt_lists P "depth" hl₅ (by decide) fun r hr => by
    show (P.astypeInt (.text (toString (r.depth : Int)))).isSome
    rw [hP.astypeInt_nat (hdepth r hr)]
    rfl
  refine ⟨df₆, ?_, hl₆⟩
  rw [makeFunctionDf, hfunctions, hnames]
  show (records _ >>= _) = _
  rw [records_functions]
  show (texts _ >>= _) = _
  rw [texts_names hp hne hnd]
  show (need _ _ >>= _) = _
  rw [hneed]
  show (astypeFloat P "lCPUt" _ >>= _) = _
  rw [h₁]
  show (astypeFloat P "eCPUt" _ >>= _) = _
  rw [h₂]
  show (astypeFloat P "eWALLt" _ >>= _) = _
  rw [h₃]
  show (astypeFloat P "lWALLt" _ >>= _) = _
  rw [h₄]
  exact h₆

end merge

end Perun
