import PerunProfiler.ThreadCalls

/-!
# The table of names

`m_functionMap` only grows, and a call is recorded only while its function has an entry that is not
null. So every call that is written has its name in the names section, which has each number once.
-/

namespace Perun
open Lib

/-- Every entry is kept under its own number, and every recorded call has one. -/
structure Named (s : CoreProfiler) : Prop where
  keys : ∀ (f : FunctionID) (info : FunctionInfo), s.functionMap[f]? = some (some info) → info.funcId = f
  calls : ∀ (p : Ptr) (function : FunctionClass), s.functions.get? p = some function →
    ∃ info, s.functionMap[function.funcId]? = some (some info)

/-- The names `Shutdown` writes. -/
def CoreProfiler.names (s : CoreProfiler) : List FunctionInfo := s.functionMap.toList.filterMap Prod.snd

section step
variable {s s' : CoreProfiler} {e : Callback} {f : FunctionID} {t : ThreadID} {now : Clock}

/-- A new entry does not touch the entries that are there. -/
theorem Named.insertIfNew {entry : Option FunctionInfo} (h : Named s)
    (hentry : ∀ info, entry = some info → info.funcId = f) :
    Named { s with functionMap := s.functionMap.insertIfNew f entry } := by
  have hget : ∀ g : FunctionID, (s.functionMap.insertIfNew f entry)[g]? =
      if f = g ∧ f ∉ s.functionMap then some entry else s.functionMap[g]? := by
    intro g
    rw [Std.ExtTreeMap.getElem?_insertIfNew]
    simp
  refine ⟨fun g info hg => ?_, fun p function hp => ?_⟩
  · rw [hget] at hg
    split at hg
    · next hf => exact (hentry info (Option.some.inj hg)).trans hf.1
    · exact h.keys g info hg
  · obtain ⟨info, hinfo⟩ := h.calls p function hp
    refine ⟨info, ?_⟩
    rw [hget, if_neg, hinfo]
    rintro ⟨rfl, hno⟩
    exact hno (Std.ExtTreeMap.mem_iff_isSome_getElem?.2 (by rw [hinfo]; rfl))

theorem Named.enter (h : Named s) (hs : Perun.enter f t now s = .ok s') : Named s' := by
  rcases enter_cases hs with ⟨-, rfl⟩ | ⟨-, info, hinfo, hcases⟩
  · exact h.insertIfNew (by simp)
  · have hf : s.functionMap[f]? = some (some info) := by
      rw [Std.ExtTreeMap.getD_eq_getD_getElem?] at hinfo
      cases hm : s.functionMap[f]? with
      | none => rw [hm] at hinfo; cases hinfo
      | some entry => rw [hm] at hinfo; rw [show entry = some info from hinfo]
    rcases hcases with ⟨-, rfl⟩ | ⟨prev, prevFunction, -, hprev, rfl⟩
    · refine ⟨h.keys, fun p function hp => ?_⟩
      rw [show (enterTop (newFunction f info t now) t s).functions.get? p = _ from Heap.get?_alloc] at hp
      split at hp
      · rw [← Option.some.inj hp]
        exact ⟨info, hf⟩
      · exact h.calls p function hp
    · refine ⟨h.keys, fun p function hp => ?_⟩
      rw [get?_enterBelow _ _ _ hprev] at hp
      split at hp
      · rw [← Option.some.inj hp]
        exact h.calls prev prevFunction hprev
      · split at hp
        · rw [← Option.some.inj hp]
          exact ⟨info, hf⟩
        · exact h.calls p function hp

theorem Named.leaveActive (h : Named s) (hs : Perun.leaveActive t now s = .ok s') : Named s' := by
  rcases leaveActive_cases hs with ⟨-, rfl⟩ | ⟨first, active, function, -, hact, rfl⟩
  · exact h
  · refine ⟨h.keys, fun p g hp => ?_⟩
    simp only [Heap.get?_set hact] at hp
    split at hp
    · rw [← Option.some.inj hp]
      exact h.calls active function hact
    · exact h.calls p g hp

theorem Named.congr (h : Named s) (hm : s'.functionMap = s.functionMap) (hf : s'.functions = s.functions) :
    Named s' :=
  ⟨by rw [hm]; exact h.keys, by rw [hm, hf]; exact h.calls⟩

theorem Named.step (ha : s.Alive) (h : Named s) (hs : Perun.step s e = .ok s') : Named s' := by
  rcases step_move ha hs with ⟨f, t, now, -, henter⟩ | ⟨t, now, -, hleave⟩ | ⟨hm, hf, -⟩
  · exact h.enter henter
  · exact h.leaveActive hleave
  · cases e with
    | mapper2 f m =>
      rcases mapper2_cases hs with rfl | rfl
      · exact h
      · refine h.insertIfNew fun info hinfo => ?_
        rw [← Option.some.inj hinfo]
    | classLoadFinished c i p => rcases classLoadFinished_cases hs with rfl | rfl <;> exact h.congr rfl rfl
    | enterStub f t now | leaveStub f t now | tailcallStub f t now | exceptionUnwindFunctionEnter f t now =>
      obtain rfl : f = 0 := by simpa [Callback.move] using hm
      cases hs
      exact h
    | exceptionUnwindFunctionLeave t now => simp [Callback.move] at hm
    | objectAllocated o c z t now =>
      rcases objectAllocated_cases hs with ⟨-, rfl⟩ | ⟨z, -, rfl⟩
      · exact h.congr rfl rfl
      · exact h.congr rfl rfl
    | movedReferences | survivingReferences | garbageCollectionStarted | garbageCollectionFinished =>
      have hsame := step_besidesObjects rfl hs
      exact h.congr (congrArg CoreProfiler.functionMap hsame :) (congrArg CoreProfiler.functions hsame :)

end step

theorem Reachable.named {s : CoreProfiler} (h : Reachable s) : Named s := by
  have hinv := h.inv (P := fun s => s.Alive ∧ Named s)
    (fun c => ⟨(Reachable.start c).alive, ⟨fun f info hf => ?_, fun p function hp => ?_⟩⟩)
    fun s e s' ⟨ha, hn⟩ hs => ⟨ha.step hs, hn.step ha hs⟩
  · exact hinv.2
  · rw [show c.start.functionMap = ∅ from rfl, Std.ExtTreeMap.getElem?_empty] at hf
    cases hf
  · cases hp

section names
variable {s : CoreProfiler}

theorem CoreProfiler.mem_names {info : FunctionInfo} :
    info ∈ s.names ↔ ∃ f : FunctionID, s.functionMap[f]? = some (some info) := by
  simp only [names, List.mem_filterMap, Prod.exists, Std.ExtTreeMap.mem_toList_iff_getElem?_eq_some]
  exact exists_congr fun f => ⟨fun ⟨b, hb, hi⟩ => by rw [hb, hi], fun h => ⟨_, h, rfl⟩⟩

theorem Named.nodup (h : Named s) : (s.names.map (·.funcId)).Nodup := by
  have hkeys : s.names.map (·.funcId) = (s.functionMap.toList.filter fun e => e.2.isSome).map Prod.fst := by
    rw [CoreProfiler.names, List.map_filterMap, ← List.filterMap_eq_filter, List.map_filterMap]
    refine List.filterMap_congr fun e he => ?_
    obtain ⟨f, _ | info⟩ := e
    · rfl
    · have hf := h.keys f info (Std.ExtTreeMap.mem_toList_iff_getElem?_eq_some.1 he)
      simp [hf, Option.guard]
  rw [hkeys]
  exact s.functionMap.nodup_keys.sublist (List.filter_sublist.map _)

/-- The name `Shutdown` writes for a number. -/
def CoreProfiler.nameOf (s : CoreProfiler) (f : FunctionID) : String :=
  cStr (((s.functionMap.getD f none).map (·.name)).getD "")

theorem Named.nameOf (h : Named s) {info : FunctionInfo} (hi : info ∈ s.names) :
    s.nameOf info.funcId = cStr info.name := by
  obtain ⟨f, hf⟩ := CoreProfiler.mem_names.1 hi
  obtain rfl := h.keys f info hf
  rw [CoreProfiler.nameOf, Std.ExtTreeMap.getD_eq_getD_getElem?, hf]
  rfl

section written
variable {fuel : Nat} {now : Clock} {events : List FunctionEvent} {functions : Heap FunctionClass}

/-- What is written is the record of a call. -/
theorem Reachable.written_call (h : Reachable s) (hf : s.functions.size ≤ fuel)
    (hs : functionsSection fuel now s = .ok (events, functions)) :
    ∀ r ∈ writtenRecords events, ∃ p function, s.functions.get? p = some function ∧ r.fID = function.funcId ∧
      r.depth = function.depth := by
  obtain ⟨σ, hσ⟩ := h.spines
  obtain ⟨functions', hok⟩ := functionsSection_ok now hσ hf
  obtain ⟨rfl, -⟩ := Prod.mk.inj (Except.ok.inj (hs.symm.trans hok))
  intro r hr
  rw [writtenRecords, List.filterMap_flatMap] at hr
  obtain ⟨tid, -, hr⟩ := List.mem_flatMap.1 hr
  rw [← writtenRecords, writtenRecords_threadEvents] at hr
  obtain ⟨p, hp, rfl⟩ := List.mem_map.1 hr
  obtain ⟨function, hfunction, -⟩ := (hσ tid).mem_preorder.1 hp
  obtain ⟨hid, -, hdepth, -⟩ := recordOf_fields (closed_skel s now) hfunction
  exact ⟨p, function, hfunction, hid, hdepth⟩

/-- Every call that is written has a name. -/
theorem Reachable.written_named (h : Reachable s) (hf : s.functions.size ≤ fuel)
    (hs : functionsSection fuel now s = .ok (events, functions)) :
    ∀ r ∈ writtenRecords events, ∃ info ∈ s.names, info.funcId = r.fID ∧ cStr info.name = s.nameOf r.fID := by
  intro r hr
  obtain ⟨p, function, hfunction, hfID, -⟩ := h.written_call hf hs r hr
  obtain ⟨info, hinfo⟩ := h.named.calls p function hfunction
  have hmem : info ∈ s.names := CoreProfiler.mem_names.2 ⟨_, hinfo⟩
  have hid : info.funcId = r.fID := by rw [h.named.keys _ info hinfo, hfID]
  exact ⟨info, hmem, hid, by rw [← hid, h.named.nameOf hmem]⟩

end written

end names

end Perun
