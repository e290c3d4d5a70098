import PerunProfiler.Aggregation

/-!
# Object records lost on loading

`make_objects_df` calls `dropna` to be rid of the sentinel. The records of objects that were allocated
outside a traced call lack `fnc`, so they go too as soon as one record has it.
-/

namespace Perun
open Lib

section kept
variable {Fl : Type} {P : Pandas Fl} {pointer : Nat → String} {float : Time → String}
  {O : List ObjectRecord}

/-- What `make_objects_df` reads of a record, in the order of `ObjectRecord.columns`. -/
def ObjectRecord.cells (P : Pandas Fl) (pointer : Nat → String) (float : Time → String) (o : ObjectRecord) :
    List (Option (Cell Fl)) :=
  [some (.text ("0x" ++ pointer o.TID)), some (.text ("0x" ++ pointer o.objId)), some (.int (int32 o.objSize)),
    some (.text (cStr o.objType)), some (.int o.GC), some (.int o.untilGC),
    (P.astypeFloat (.text (float o.eWALLt))).map .float, (P.astypeFloat (.text (float o.eCPUt))).map .float]

/-- The frame has one row for every record and none besides. -/
def KeepsRecords (P : Pandas Fl) (pointer : Nat → String) (float : Time → String) (data : Dict (Json String))
    (O : List ObjectRecord) : Prop :=
  ∃ df, makeObjectsDf P data = .ok df ∧
    (df.rows.map fun r => ObjectRecord.columns.map r).Perm (O.map (ObjectRecord.cells P pointer float))

theorem objectComputed_cells (hP : P.Reads float) {o : ObjectRecord} (ho : o.IntMembers) :
    ObjectRecord.columns.map (objectComputed P (sectionRow Fl (ObjectRecord.dict pointer float) (some o))) =
      o.cells P pointer float := by
  have hint : ∀ n : Nat, n < 2 ^ 31 →
      (P.astypeInt (.text (toString (n : Int)))).map Cell.int = some (.int n : Cell Fl) := by
    intro n hn
    rw [hP.astypeInt_nat hn]
    rfl
  have hsize : (P.astypeInt (.text (toString (int32 o.objSize)))).map Cell.int =
      some (.int (int32 o.objSize) : Cell Fl) := by
    rw [(hP.astypeInt_int32 _).1, Option.map_some]
  rw [ObjectRecord.cells, ← hsize, ← hint o.GC ho.1, ← hint o.untilGC ho.2]
  rw [sectionRow, Option.elim_some, ObjectRecord.dict]
  -- whether `fnc` is there or not, the other members are found
  split <;> rfl

theorem mem_unattributedFrame (hP : P.Reads float) (hO : O ≠ []) (hnone : ∀ o ∈ O, o.fnc = -1) {c : String} :
    c ∈ (P.dataFrame (O.map (ObjectRecord.dict pointer float) ++ [[]])).columns ↔ c ∈ ObjectRecord.columns := by
  rw [mem_objectsFrame hP]
  constructor
  · rintro (⟨hc, -⟩ | ⟨-, o, ho, hfnc⟩)
    · exact hc
    · exact absurd (hnone o ho) hfnc
  · exact fun hc => .inl ⟨hc, hO⟩

/-- As long as no object is attributed to a call, only the sentinel goes. -/
theorem unattributed_dropna (hP : P.Reads float) (hO : O ≠ []) (hnone : ∀ o ∈ O, o.fnc = -1) :
    (P.dropna (P.dataFrame (O.map (ObjectRecord.dict pointer float) ++ [[]]))).Lists ObjectRecord.columns O
      fun o => sectionRow Fl (ObjectRecord.dict pointer float) (some o) := by
  have hpresent : (fun r : Row (Cell Fl) =>
      (P.dataFrame (O.map (ObjectRecord.dict pointer float) ++ [[]])).columns.all fun c => (r c).isSome) ∘
        sectionRow Fl (ObjectRecord.dict pointer float) = Option.isSome := by
    funext x
    rw [Bool.eq_iff_iff, Function.comp_apply, List.all_eq_true]
    simp only [mem_unattributedFrame hP hO hnone, sectionRow, Dict.isSome_get?, Dict.keys_mapValues]
    cases x with
    | none => exact iff_of_false (fun h => absurd (h "TID" (by decide)) (by simp)) (by simp)
    | some o => exact iff_of_true (fun c hc => ObjectRecord.mem_keys.2 (.inl hc)) rfl
  rw [hP.dropna]
  refine ⟨fun c hc => (mem_unattributedFrame hP hO hnone).2 hc, .of_eq ?_⟩
  have hself : O.filter (Option.isSome ∘ some) = O := List.filter_eq_self.2 fun _ _ => rfl
  rw [Table.dropMissing, Table.filter]
  dsimp only
  rw [dataFrame_rows hP, List.filter_map, hpresent, List.filter_append, List.filter_map, List.map_append,
    List.map_map, hself]
  exact List.append_nil _

theorem need_missing {df : DataFrame Fl} {column : String} (h : column ∉ df.columns) :
    need df [column] = .error (.keyError column) := by
  rw [need, List.find?_cons_of_pos (by simpa using h)]

/-- Without a record there is no column to read. -/
theorem makeObjectsDf_nil (hP : P.Reads float) {data : Dict (Json String)}
    (hobjects : item data "Objects" = .ok ((objectsMember []).2.map (expand pointer float))) :
    makeObjectsDf P data = .error (.keyError "eWALLt") := by
  have hmissing : "eWALLt" ∉ (P.dropna (P.dataFrame [[]])).columns := by
    rw [hP.dropna]
    intro hc
    have hc : "eWALLt" ∈ (P.dataFrame ([].map (ObjectRecord.dict pointer float) ++ [[]])).columns := hc
    rcases (mem_objectsFrame hP).1 hc with ⟨-, hne⟩ | ⟨hfnc, -⟩
    · exact hne rfl
    · exact absurd hfnc (by decide)
  have hrecords : records ((objectsMember []).2.map (expand pointer float)) = .ok [[]] := records_objects []
  generalize (objectsMember []).2.map (expand pointer float) = objects at hobjects hrecords
  rw [makeObjectsDf, hobjects]
  show (records objects >>= _) = _
  rw [hrecords]
  show (astypeFloat P "eWALLt" (P.dropna (P.dataFrame [[]])) >>= _) = _
  rw [astypeFloat, need_missing hmissing]
  rfl

/-- Every record is kept exactly when there is one and all or none of them are attributed to a call. -/
theorem keepsRecords_iff (hP : P.Reads float) (hints : ∀ o ∈ O, o.IntMembers) {data : Dict (Json String)}
    (hobjects : item data "Objects" = .ok ((objectsMember O).2.map (expand pointer float))) :
    KeepsRecords P pointer float data O ↔ O ≠ [] ∧ ((∀ o ∈ O, o.fnc ≠ -1) ∨ ∀ o ∈ O, o.fnc = -1) := by
  have hcells : ∀ {cs : List String} {A : List ObjectRecord} {df : DataFrame Fl}, (∀ o ∈ A, o.IntMembers) →
      (df.Lists cs A fun o => objectComputed P (sectionRow Fl (ObjectRecord.dict pointer float) (some o))) →
      (df.rows.map fun r => ObjectRecord.columns.map r).Perm (A.map (ObjectRecord.cells P pointer float)) := by
    intro cs A df hA h
    have hrows := h.rows.map fun r : Row (Cell Fl) => ObjectRecord.columns.map r
    rw [List.map_map] at hrows
    exact hrows.trans (.of_eq (List.map_congr_left fun o ho => objectComputed_cells hP (hA o ho)))
  constructor
  · rintro ⟨df, hdf, hperm⟩
    refine ⟨?_, ?_⟩
    · rintro rfl
      rw [makeObjectsDf_nil hP hobjects] at hdf
      cases hdf
    · by_cases hnone : ∀ o ∈ O, o.fnc = -1
      · exact .inr hnone
      · obtain ⟨o, ho, hfnc⟩ : ∃ o ∈ O, o.fnc ≠ -1 := by simpa only [not_forall, exists_prop] using hnone
        obtain ⟨df', hdf', hlists⟩ := makeObjectsDf_lists hP hobjects ⟨o, ho, hfnc⟩ hints
        obtain rfl := Except.ok.inj (hdf.symm.trans hdf')
        -- only the attributed records have a row
        have hlen := (hperm.symm.trans (hcells (fun o ho => hints o (List.mem_filter.1 ho).1) hlists)).length_eq
        rw [List.length_map, List.length_map, eq_comm, List.length_filter_eq_length_iff] at hlen
        exact .inl fun o ho => by simpa using hlen o ho
  · rintro ⟨hO, hall | hnone⟩
    · obtain ⟨o, ho⟩ := List.exists_mem_of_ne_nil O hO
      obtain ⟨df, hdf, hlists⟩ := makeObjectsDf_lists hP hobjects ⟨o, ho, hall o ho⟩ hints
      rw [List.filter_eq_self.2 fun o ho => by simpa using hall o ho] at hlists
      exact ⟨df, hdf, hcells hints hlists⟩
    · obtain ⟨df, hdf, hlists⟩ := makeObjectsDf_of_dropna hP hints hobjects (fun _ hc => hc)
        (unattributed_dropna hP hO hnone)
      exact ⟨df, hdf, hcells hints hlists⟩

/-- After every run, the frame of the objects has a row for each record exactly when there are records
and all or none of the objects were allocated in a traced call. -/
theorem records_kept_iff (hP : P.Reads float) {c : Config} {es : List Callback} {s : CoreProfiler}
    (h : run step c.start es = .ok s) (hi : s.IntMembers) (os : Process) (now : Clock) :
    ∃ events functions records objects s' ms,
      functionsSection s.functions.size now s = .ok (events, functions) ∧ objectsSection s = .ok (records, objects) ∧
      shutdown os now s = .ok s' ∧ s'.log.flatten = (Json.obj ms).toks ∧
      ms = document c (gcEvents c.start es) (writtenRecords events) records s.names os now ∧
      (KeepsRecords P pointer float (parseJson pointer float ms) records ↔
        records ≠ [] ∧ ((∀ o ∈ records, o.fnc ≠ -1) ∨ ∀ o ∈ records, o.fnc = -1)) := by
  obtain ⟨events, functions, records, objects, s', hf, ho, hok, hlog⟩ := shutdown_profile h os now
  exact ⟨events, functions, records, objects, s', _, hf, ho, hok, hlog, rfl, 
    keepsRecords_iff hP (Reachable.written_gc ⟨c, es, h⟩ hi ho) (item_document rfl)⟩

end kept

/-- One object is allocated in a traced call, one on a thread without any. -/
def allocateOutside : List Callback :=
  [.trace 7, .enterStub 7 1 ⟨1, 1⟩, .objectAllocated 100 5 (some 24) 1 ⟨2, 2⟩, .objectAllocated 200 5 (some 32) 2 ⟨3, 3⟩]

theorem records_kept_iff_outside :
    ∃ s, run step Config.plain.start allocateOutside = .ok s ∧
      ∃ events functions records objects s' ms,
        functionsSection s.functions.size ⟨9, 9⟩ s = .ok (events, functions) ∧
        objectsSection s = .ok (records, objects) ∧ shutdown ⟨1, 1⟩ ⟨9, 9⟩ s = .ok s' ∧
        s'.log.flatten = (Json.obj ms).toks ∧
        ms = document .plain (gcEvents Config.plain.start allocateOutside) (writtenRecords events) records s.names
          ⟨1, 1⟩ ⟨9, 9⟩ ∧
        (KeepsRecords tables (fun a => "0x" ++ a.repr) seconds (parseJson (fun a => "0x" ++ a.repr) seconds ms)
            records ↔
          records ≠ [] ∧ ((∀ o ∈ records, o.fnc ≠ -1) ∨ ∀ o ∈ records, o.fnc = -1)) :=
  ⟨_, rfl, records_kept_iff tables_documented.toReads (show run step Config.plain.start allocateOutside = .ok _ from rfl)
    (by decide) ⟨1, 1⟩ ⟨9, 9⟩⟩

/-- The second object has no row; without the first it would have one. -/
theorem outside_dropped :
    ∃ s, run step Config.plain.start allocateOutside = .ok s ∧
      ∃ events functions a b objects s' ms,
        functionsSection s.functions.size ⟨9, 9⟩ s = .ok (events, functions) ∧
        objectsSection s = .ok ([a, b], objects) ∧ shutdown ⟨1, 1⟩ ⟨9, 9⟩ s = .ok s' ∧
        s'.log.flatten = (Json.obj ms).toks ∧
        ms = document .plain (gcEvents Config.plain.start allocateOutside) (writtenRecords events) [a, b] s.names
          ⟨1, 1⟩ ⟨9, 9⟩ ∧
        ¬ KeepsRecords tables (fun a => "0x" ++ a.repr) seconds (parseJson (fun a => "0x" ++ a.repr) seconds ms)
          [a, b] ∧
        KeepsRecords tables (fun a => "0x" ++ a.repr) seconds (parseJson (fun a => "0x" ++ a.repr) seconds
          (document .plain [] (writtenRecords events) [b] s.names ⟨1, 1⟩ ⟨9, 9⟩)) [b] := by
  obtain ⟨s, hs⟩ : ∃ s, run step Config.plain.start allocateOutside = .ok s := ⟨_, rfl⟩
  obtain ⟨events, functions, records, objects, s', hf, ho, hok, hlog⟩ := shutdown_profile hs ⟨1, 1⟩ ⟨9, 9⟩
  obtain rfl : _ = s := Except.ok.inj hs
  obtain ⟨rfl, -⟩ : [⟨1, 100, 24, "", 1, 1, 0, 2, 2⟩, ⟨2, 200, 32, "", 1, 1, -1, 3, 3⟩] = records ∧ _ = objects :=
    Prod.mk.inj (Except.ok.inj ho)
  have hints := Reachable.written_gc ⟨.plain, allocateOutside, hs⟩ (by decide) ho
  refine ⟨_, hs, events, functions, _, _, objects, s', _, hf, ho, hok, hlog, rfl, fun hkept => ?_, ?_⟩
  · rcases ((keepsRecords_iff tables_documented.toReads hints (item_document rfl)).1 hkept).2 with hall | hnone
    · exact hall _ (List.mem_cons_of_mem _ (List.mem_cons_self ..)) rfl
    · exact absurd (hnone _ (List.mem_cons_self ..)) (by decide)
  · refine (keepsRecords_iff tables_documented.toReads (fun o ho => hints o (List.mem_cons_of_mem _ ho))
      (item_document rfl)).2 ⟨by simp, .inr fun o ho => ?_⟩
    rw [List.mem_singleton.1 ho]

end Perun
