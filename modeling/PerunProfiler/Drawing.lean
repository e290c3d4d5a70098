import PerunProfiler.Executions
import PerunProfiler.Reading

/-!
# The treemap of an execution

`show_treemap_func` draws of a thread the calls that it executed, down to the depth asked for: the rows
it passes on, read back by their ids and parents, are the tree of the calls.
-/

namespace Perun
open Lib

section picture
variable {Fl : Type} {P : Pandas Fl} {pointer : Nat → String} {float : Time → String} {name : FunctionID → String}

/-- The id of the row that a row is drawn in. The root names the empty text. -/
def TreemapRow.above [DecidableEq Fl] (row : TreemapRow Fl) : Option (Option (Cell Fl)) :=
  if row.parent = some (.text "") then none else some row.parent

/-- What is shown of a row. -/
def TreemapRow.shown (row : TreemapRow Fl) : Option (Cell Fl) × List (Option (Cell Fl)) := (row.label, row.customdata)

/-- What is shown of a call: its name, its class and function, its CPU time and its wall time. -/
def Span.shown (P : Pandas Fl) (float : Time → String) (name : FunctionID → String) (x : Span) :
    Option (Cell Fl) × List (Option (Cell Fl)) :=
  (some (.text (name x.fID)),
    [part "::" 0 (some (.text (name x.fID))), part "::" 1 (some (.text (name x.fID))),
      millis P ((P.astypeFloat (.text (float x.left.cpu))).map .float)
        ((P.astypeFloat (.text (float x.entered.cpu))).map .float),
      millis P ((P.astypeFloat (.text (float x.left.wall))).map .float)
        ((P.astypeFloat (.text (float x.entered.wall))).map .float)])

/-- The tree that rows draw. -/
def treeOf [DecidableEq Fl] (rows : List (TreemapRow Fl)) : List (Rose (TreemapRow Fl)) :=
  Rose.rebuild TreemapRow.id TreemapRow.above rows (rows.length + 1) none

variable [DecidableEq Fl]

theorem drawn_above (r : FunctionRecord) :
    (r.drawn P float name).above = r.rFn.map fun n : Nat => some (Cell.text (toString (n : Int))) := by
  unfold TreemapRow.above
  simp only [drawn_parent_eq_empty]
  have hparent : (r.drawn P float name).parent = some (.text (r.rFn.elim "" fun n => toString (n : Int))) := rfl
  rw [hparent]
  cases r.rFn <;> rfl

theorem treeOf_drawn {T : Rose FunctionRecord} (h : Rose.Linked (·.nOr) (·.rFn) none T)
    (hnd : (T.preorder.map (·.nOr)).Nodup) :
    treeOf (T.preorder.map (FunctionRecord.drawn P float name)) = [T.map (FunctionRecord.drawn P float name)] := by
  have hlinked := h.map (fun r => (rfl : (r.drawn P float name).id = some (Cell.text (toString (r.nOr : Int)))))
    (fun r => drawn_above r)
  rw [treeOf, ← Rose.preorder_map]
  refine hlinked.rebuild_eq ?_ (Nat.lt_succ_self _)
  have hids : (T.map (FunctionRecord.drawn P float name)).preorder.map TreemapRow.id =
      (T.preorder.map (·.nOr)).map fun n : Nat => some (Cell.text (toString (n : Int))) := by
    rw [Rose.preorder_map, List.map_map, List.map_map]
    rfl
  rw [hids]
  refine hnd.map fun m n hmn => number_injective ?_
  rwa [Option.some.injEq, Cell.text.injEq] at hmn

/-- The records of a thread down to a depth draw the upper part of their tree. -/
theorem drawn_cut {R : List FunctionRecord} {T : Rose FunctionRecord} (hL : Rose.Listing (·.nOr) (·.rFn) (·.depth) R)
    (hT : T.preorder = R) (h : Rose.Linked (·.nOr) (·.rFn) none T) (n : Nat) :
    treeOf ((R.filter (·.depth ≤ n)).map (FunctionRecord.drawn P float name)) =
      [(T.cut n).map (FunctionRecord.drawn P float name)] := by
  have hlevel := h.leveled hL fun b hb => hT ▸ hb
  have hroot : T.root.depth = 0 := by
    have hmem : T.root ∈ R := by
      rw [← hT]
      cases T
      simp
    rcases hL.parents T.root hmem with ⟨-, h0⟩ | ⟨q, -, hpar, -⟩
    · exact h0
    · rw [h.par_root] at hpar
      cases hpar
  have hpre := hlevel.preorder_cut n
  simp only [hroot, Nat.zero_add, hT] at hpre
  rw [← hpre]
  refine treeOf_drawn (h.cut n) ?_
  rw [hpre]
  exact hL.nodup.sublist (List.filter_sublist.map _)

end picture

theorem recorded_ne_nil {F : List (Rose Call)} (h : F.flatMap (Rose.splice Call.hooked) ≠ []) (now : Clock) :
    recorded now F ≠ [] := by
  unfold recorded
  cases hF : F.flatMap (Rose.splice Call.hooked) with
  | nil => exact absurd hF h
  | cons T rest =>
    obtain ⟨x, cs⟩ := T
    simp [Spine.hang]

section run
variable {c : Config} {es : List Callback} {s : CoreProfiler} {t : ThreadID} {F : List (Rose Call)}

/-- What is written of a thread that executes `F` lists a tree, which shows `F`. -/
theorem run_listing (h : run step c.start es = .ok s) (hcalls : callsOf t es = callbacks t F)
    (htraced : EntersTraced c.start es t) (hF : F.flatMap (Rose.splice Call.hooked) ≠ []) {now : Clock}
    {events : List FunctionEvent} {functions : Heap FunctionClass}
    (hf : functionsSection s.functions.size now s = .ok (events, functions)) :
    ∃ T, T.preorder = (writtenRecords events).filter (·.TID = t) ∧ Rose.Linked (·.nOr) (·.rFn) none T ∧
      [T.map FunctionRecord.span] = recorded now F := by
  obtain ⟨κ, hκ⟩ := Reachable.callRecords ⟨c, es, h⟩
  obtain ⟨events', functions', hok, hread⟩ := run_execution h hcalls htraced now
  obtain ⟨rfl, -⟩ := Prod.mk.inj (Except.ok.inj (hf.symm.trans hok))
  obtain ⟨events', functions', hok', -, hfilter⟩ := hκ.written now (Nat.le_refl _)
  obtain ⟨rfl, -⟩ := Prod.mk.inj (Except.ok.inj (hf.symm.trans hok'))
  rw [hfilter, callForest_finished hκ] at hread
  have hne : κ t ≠ [] := by
    intro hnil
    rw [hnil] at hread
    exact recorded_ne_nil hF now hread.symm
  obtain ⟨T, htrees, hpre, hlinked, -⟩ := hκ.tree now hne
  rw [htrees] at hread
  exact ⟨T, by rw [hfilter, hpre], hlinked, hread⟩

variable {Fl : Type} [DecidableEq Fl] {P : Pandas Fl} {pointer : Nat → String} {float : Time → String}

/-- From the calls of a thread to its treemap: in whatever order the rows come, they draw the calls that
are hooked down to the depth asked for, with the later outermost calls below the first one. -/
theorem run_treemap (e : Encoding) (hP : P.Loads float) (hprint : Prints pointer float)
    (hp : Function.Injective pointer) (hne : ∀ a, pointer a ≠ "") (h : run step c.start es = .ok s)
    (hcalls : callsOf t es = callbacks t F) (htraced : EntersTraced c.start es t)
    (hF : F.flatMap (Rose.splice Call.hooked) ≠ []) (hi : s.IntMembers) (hn : s.PlainNames) (os : Process) (now : Clock) :
    ∃ s' data, shutdown os now s = .ok s' ∧ loadJson e (fileBytes pointer float s'.log.flatten) = some data ∧
      ∀ maxDepth : Nat, ∃ df rows arranged, makeFunctionDf P data = .ok df ∧
        showTreemapFunc df maxDepth ("0x" ++ pointer t) = .ok rows ∧ arranged.Perm rows ∧
        (treeOf arranged).map (Rose.map TreemapRow.shown) =
          (recorded now F).map fun T => (T.cut maxDepth).map (Span.shown P float s.nameOf) := by
  have hr : Reachable s := ⟨c, es, h⟩
  obtain ⟨events, functions, records, objects, s', hf, -, hok, hload⟩ := shutdown_loaded hprint h hn os now
  refine ⟨s', _, hok, hload e, fun maxDepth => ?_⟩
  obtain ⟨T, hpre, hlinked, hspan⟩ := run_listing h hcalls htraced hF hf
  obtain ⟨r, hrw⟩ : ∃ r, r ∈ (writtenRecords events).filter (·.TID = t) := by
    rw [← hpre]
    exact ⟨T.root, by cases T; simp⟩
  obtain ⟨hrw, htid⟩ := List.mem_filter.1 hrw
  obtain ⟨df, hdf, hlists⟩ := hr.makeFunctionDf hP hp hne hi hf (List.ne_nil_of_mem hrw)
  obtain ⟨rows, hrows, hperm⟩ := showTreemapFunc_lists hP.toReads hp hlists (hr.written_depth hi hf) t maxDepth
  simp only [Nat.cast_le] at hperm
  refine ⟨df, rows, _, hdf, hrows, hperm.symm, ?_⟩
  rw [drawn_cut (hr.listing hf hrw (of_decide_eq_true htid)) hpre hlinked, ← hspan, List.map_singleton, List.map_singleton,
    Rose.cut_map, Rose.map_map, Rose.map_map]
  rfl

end run

theorem run_treemap_nestedTwice :
    ∃ s, run step Config.plain.start nestedTwiceRun = .ok s ∧
      ∃ s' data, shutdown ⟨1, 1⟩ ⟨10, 10⟩ s = .ok s' ∧
        loadJson .utf8 (fileBytes (fun a => "0x" ++ a.repr) seconds s'.log.flatten) = some data ∧
        ∀ maxDepth : Nat, ∃ df rows arranged, makeFunctionDf tables data = .ok df ∧
          showTreemapFunc df maxDepth ("0x" ++ ("0x" ++ Nat.repr 1)) = .ok rows ∧ arranged.Perm rows ∧
          (treeOf arranged).map (Rose.map TreemapRow.shown) =
            (recorded ⟨10, 10⟩ nestedTwice).map fun T => (T.cut maxDepth).map (Span.shown tables seconds s.nameOf) :=
  ⟨_, rfl, run_treemap .utf8 tables_documented.toLoads prints_printed printed_injective printed_ne
    (show run step Config.plain.start nestedTwiceRun = .ok _ from rfl) (by decide) (by decide)
    (by simp [nestedTwice, Call.hooked]) (by decide) (by decide) ⟨1, 1⟩ ⟨10, 10⟩⟩

end Perun
