import PerunProfiler.Document
import PerunProfiler.Lib.Interleave

/-!
# Collections during `Shutdown`

`Shutdown` holds the lock of the profiler for its whole dump, but the callbacks about a collection
write before they take it, and the lock of the logger covers one message. So the dump is one of two
writers of the log. The document is whole exactly when the other one writes between sections only.
-/

namespace Perun
open Lib
open Json (listed listed_append depth_toks depth_member depth_listed topStrs_toks topStrs_member
  topStrs_member_below topStrs_listed topMember)
open Tok (depth topStrs topStrs_append nest)

/-- The log when `Shutdown` begins to write; its last message is left out. -/
def dump (log : List Message) (functions : List FunctionRecord) (objects : List ObjectRecord)
    (names : List FunctionInfo) : Writer Message :=
  ⟨log, [], shutdownSections functions objects names⟩

def dumpStep (w : Writer Message) (e : Write GcEvent) : Except Unit (Writer Message) :=
  w.step GcEvent.message e

/-- The collection events written during the dump, and whether no section is under way then. -/
def collections (w : Writer Message) (ws : List (Write GcEvent)) : List (Bool × GcEvent) :=
  w.others GcEvent.message ws

/-- The log is the text of an object with the collection events `gcs` at the top. -/
def WellFormed (log : List Message) (gcs : List GcEvent) : Prop :=
  ∃ ms, log.flatten = (Json.obj ms).toks ∧ (gcs.map GcEvent.member).Sublist ms

/-- Without collections the dump is what `Shutdown` writes. -/
theorem dump_alone {s : CoreProfiler} {os : Process} {now : Clock} {events : List FunctionEvent}
    {functions : Heap FunctionClass} {records : List ObjectRecord} {objects : Heap ObjectClass}
    (hf : functionsSection s.functions.size now s = .ok (events, functions))
    (ho : objectsSection s = .ok (records, objects)) :
    ∃ s' n w, shutdown os now s = .ok s' ∧
      run dumpStep (dump s.log (writtenRecords events) records (s.functionMap.toList.filterMap Prod.snd))
        (List.replicate n .next) = .ok w ∧
      w.current = [] ∧ w.later = [] ∧ s'.log = w.log ++ [shutdownMessage os now] := by
  obtain ⟨s', hok, hlog⟩ := shutdown_log os hf ho
  refine ⟨s', _, _, hok, Writer.run_next s.log ?_, rfl, rfl, hlog⟩
  simp [shutdownSections_eq]

/-! ### Nesting -/

def isGcKey (key : Str) : Bool := (lit "GC").isPrefixOf key

def gcKeys (text : Message) : List Str := (topStrs 0 text).filter isGcKey

/-- The rest of a section: messages at depth two, the last of which closes it. -/
def Closes (ms : List Message) : Prop :=
  ∃ body foot, ms = body ++ [foot] ∧ (∀ m ∈ body, depth 2 m = 2 ∧ topStrs 2 m = []) ∧
    depth 2 foot = 1 ∧ topStrs 2 foot = []

/-- A section: a message that opens it and the rest. -/
def Opens (ms : List Message) : Prop :=
  ∃ head rest, ms = head :: rest ∧ depth 1 head = 2 ∧ (topStrs 1 head).filter isGcKey = [] ∧ Closes rest

theorem shutdownSections_opens (functions : List FunctionRecord) (objects : List ObjectRecord)
    (names : List FunctionInfo) : ∀ S ∈ shutdownSections functions objects names, Opens S := by
  have hfoot : depth 2 arrayFoot = 1 ∧ topStrs 2 arrayFoot = [] := ⟨rfl, rfl⟩
  have hvalue : ∀ j : Json Str, depth 2 (j.toks ++ [.comma]) = 2 ∧ topStrs 2 (j.toks ++ [.comma]) = [] := by
    intro j
    simp [nest, topStrs_append, topStrs_toks, topStrs]
  have hmember : ∀ m : Str × Json Str, depth 2 (Json.member m ++ [.comma]) = 2 ∧
      topStrs 2 (Json.member m ++ [.comma]) = [] := by
    intro m
    simp [nest, topStrs_append, topStrs_member_below, topStrs]
  rw [shutdownSections_eq]
  intro S hS
  simp only [List.mem_cons, List.not_mem_nil, or_false] at hS
  rcases hS with rfl | rfl | rfl
  · refine ⟨_, _, rfl, rfl, rfl, _, _, rfl, fun m hm => ?_, hfoot⟩
    obtain ⟨r, -, rfl⟩ := List.mem_map.1 hm
    rw [r.message_eq]
    exact hvalue r.json
  · refine ⟨_, _, rfl, rfl, rfl, _, _, rfl, fun m hm => ?_, hfoot⟩
    obtain ⟨r, -, rfl⟩ := List.mem_map.1 hm
    rw [r.message_eq]
    exact hvalue r.json
  · refine ⟨_, _, rfl, rfl, rfl, _, _, rfl, fun m hm => ?_, rfl, rfl⟩
    obtain ⟨i, -, rfl⟩ := List.mem_map.1 hm
    rw [i.message_eq]
    exact hmember i.member

/-- The depth of the text tells whether a section is under way. -/
structure Nested (w : Writer Message) : Prop where
  depth : depth 0 w.log.flatten = if w.current = [] then 1 else 2
  current : w.current ≠ [] → Closes w.current
  later : ∀ S ∈ w.later, Opens S

section nested
variable {w w' : Writer Message} {g : GcEvent}

theorem gcKeys_snoc (log : List Message) (m : Message) : gcKeys (log ++ [m]).flatten =
    gcKeys log.flatten ++ (topStrs (depth 0 log.flatten) m).filter isGcKey := by
  unfold gcKeys
  rw [List.flatten_append, List.flatten_singleton, topStrs_append, List.filter_append]

theorem depth_snoc (log : List Message) (m : Message) :
    depth 0 (log ++ [m]).flatten = depth (depth 0 log.flatten) m := by
  rw [List.flatten_append, List.flatten_singleton, Tok.depth_append]

theorem Nested.next (h : Nested w) (hs : dumpStep w .next = .ok w') :
    Nested w' ∧ gcKeys w'.log.flatten = gcKeys w.log.flatten := by
  have hdepth := h.depth
  obtain ⟨m, hlog, ⟨hc, hl⟩ | ⟨hc, hl⟩⟩ := Writer.step_next hs
  · obtain ⟨body, foot, hbody, hin, hfoot⟩ := h.current (by simp [hc])
    rw [if_neg (by simp [hc])] at hdepth
    rw [hlog, gcKeys_snoc, hdepth]
    cases body with
    | nil =>
      rw [hc, List.nil_append, List.cons.injEq] at hbody
      obtain ⟨rfl, hnil⟩ := hbody
      refine ⟨⟨?_, fun hne => absurd hnil hne, hl ▸ h.later⟩, by rw [hfoot.2]; exact List.append_nil _⟩
      rw [hlog, depth_snoc, hdepth, hfoot.1, if_pos hnil]
    | cons b body =>
      rw [hc, List.cons_append, List.cons.injEq] at hbody
      obtain ⟨rfl, hrest⟩ := hbody
      have hm := hin m (by simp)
      refine ⟨⟨?_, fun _ => ⟨body, foot, hrest, fun m hm => hin m (List.mem_cons_of_mem _ hm), hfoot⟩,
        hl ▸ h.later⟩, by rw [hm.2]; exact List.append_nil _⟩
      rw [hlog, depth_snoc, hdepth, hm.1, if_neg (by simp [hrest])]
  · obtain ⟨head, rest, hS, hopen, hkey, hcloses⟩ := h.later (m :: w'.current) (by simp [hl])
    rw [List.cons.injEq] at hS
    obtain ⟨rfl, rfl⟩ := hS
    rw [if_pos hc] at hdepth
    have hne : w'.current ≠ [] := by
      obtain ⟨body, foot, hbody, -⟩ := hcloses
      simp [hbody]
    refine ⟨⟨?_, fun _ => hcloses, fun S hS => h.later S (by rw [hl]; exact List.mem_cons_of_mem _ hS)⟩, ?_⟩
    · rw [hlog, depth_snoc, hdepth, hopen, if_neg hne]
    · rw [hlog, gcKeys_snoc, hdepth, hkey, List.append_nil]

theorem GcEvent.isGcKey (g : GcEvent) : Perun.isGcKey g.member.1 = true := by
  cases g <;> rfl

theorem GcEvent.topMember (g : GcEvent) : Json.topMember g.member = [g.member.1] := by
  cases g <;> rfl

theorem Nested.other (h : Nested w) (hs : dumpStep w (.other g) = .ok w') :
    Nested w' ∧ gcKeys w'.log.flatten =
      gcKeys w.log.flatten ++ if w.current = [] then [g.member.1] else [] := by
  cases hs
  have hdepth := h.depth
  have hmessage : ∀ d, Tok.depth d g.message = d := by
    intro d
    simp [g.message_eq, nest]
  refine ⟨⟨?_, h.current, h.later⟩, ?_⟩
  · rw [depth_snoc, hmessage]
    exact hdepth
  · rw [gcKeys_snoc, hdepth, g.message_eq, topStrs_append]
    split
    · simp [topStrs_member, g.topMember, g.isGcKey, topStrs]
    · simp [topStrs_member_below, topStrs]

end nested

section run
variable {c : Config} {es : List Callback} {s : CoreProfiler} {ws : List (Write GcEvent)} {w : Writer Message}
  (functions : List FunctionRecord) (objects : List ObjectRecord) (names : List FunctionInfo)

theorem gcKeys_start (h : run step c.start es = .ok s) : depth 0 s.log.flatten = 1 ∧
    gcKeys s.log.flatten = (gcEvents c.start es).map fun g => g.member.1 := by
  rw [run_text h]
  refine ⟨by simp [nest], ?_⟩
  unfold gcKeys
  have htop : ((gcEvents c.start es).map GcEvent.member).flatMap topMember =
      (gcEvents c.start es).map fun g => g.member.1 := by
    rw [List.flatMap_map, List.map_eq_flatMap]
    exact List.flatMap_congr fun g _ => g.topMember
  have hkeys : ((gcEvents c.start es).map fun g => g.member.1).filter isGcKey =
      (gcEvents c.start es).map fun g => g.member.1 := by
    refine List.filter_eq_self.2 fun key hkey => ?_
    obtain ⟨g, -, rfl⟩ := List.mem_map.1 hkey
    exact g.isGcKey
  have hbrace : ∀ ts : Message, topStrs 0 (.lbrace :: ts) = topStrs 1 ts := fun _ => rfl
  rw [hbrace, topStrs_listed, List.flatMap_cons, htop, List.filter_append, hkeys]
  rfl

/-- The collection events at the top of the text are those before the dump and those written between
sections. -/
theorem run_gcKeys (h : run step c.start es = .ok s)
    (hr : run dumpStep (dump s.log functions objects names) ws = .ok w) :
    Nested w ∧ (gcKeys w.log.flatten).length = (gcEvents c.start es).length +
      ((collections (dump s.log functions objects names) ws).filter (·.1)).length := by
  refine run_inv_outputs Writer.output (P := fun bs w => Nested w ∧ (gcKeys w.log.flatten).length =
    (gcEvents c.start es).length + (bs.filter fun x : Bool × GcEvent => x.1).length) ?_ ?_ hr
  · obtain ⟨hdepth, hkeys⟩ := gcKeys_start h
    exact ⟨⟨hdepth, fun hne => absurd rfl hne, shutdownSections_opens functions objects names⟩,
      by simp [dump, hkeys]⟩
  · rintro bs w e w' ⟨hn, hlen⟩ hs
    cases e with
    | next =>
      obtain ⟨hn', hkeys⟩ := hn.next hs
      exact ⟨hn', by simp [Writer.output, hkeys, hlen]⟩
    | other g =>
      obtain ⟨hn', hkeys⟩ := hn.other hs
      refine ⟨hn', ?_⟩
      rw [hkeys, List.length_append, hlen]
      by_cases hc : w.current = []
      · simp [Writer.output, hc, Nat.add_assoc]
      · simp [Writer.output, hc]

/-! ### The document -/

theorem blocks_text {blocks : List (List Message ⊕ GcEvent)}
    (hS : ∀ S ∈ blocks.filterMap Sum.getLeft?, ∃ m, S.flatten = Json.member m ++ [.comma]) :
    ∃ ms, (blocks.flatMap (Writer.block GcEvent.message)).flatten = listed ms ∧
      ((blocks.filterMap Sum.getRight?).map GcEvent.member).Sublist ms := by
  induction blocks with
  | nil => exact ⟨[], rfl, .slnil⟩
  | cons b blocks ih =>
    cases b with
    | inl S =>
      rw [List.filterMap_cons_some (f := Sum.getLeft?) (b := S) rfl] at hS
      obtain ⟨m, hm⟩ := hS S (by simp)
      obtain ⟨ms, htext, hsub⟩ := ih fun S' hS' => hS S' (List.mem_cons_of_mem _ hS')
      refine ⟨m :: ms, ?_, ?_⟩
      · rw [List.flatMap_cons, List.flatten_append, htext, Writer.block, hm]
        rfl
      · rw [List.filterMap_cons_none rfl]
        exact hsub.cons m
    | inr g =>
      rw [List.filterMap_cons_none rfl] at hS
      obtain ⟨ms, htext, hsub⟩ := ih hS
      refine ⟨g.member :: ms, ?_, ?_⟩
      · rw [List.flatMap_cons, List.flatten_append, htext, Writer.block, List.flatten_singleton, g.message_eq]
        rfl
      · rw [List.filterMap_cons_some (f := Sum.getRight?) (b := g) rfl, List.map_cons]
        exact hsub.cons_cons g.member

/-- For every interleaving of the dump with collection events, the text up to the last message of
`Shutdown` is an object with all events at the top exactly when every event of the dump is written while
no section is under way. -/
theorem dump_wellFormed_iff (h : run step c.start es = .ok s) (os : Process) (now : Clock)
    (hr : run dumpStep (dump s.log functions objects names) ws = .ok w) (hc : w.current = []) (hl : w.later = []) :
    WellFormed (w.log ++ [shutdownMessage os now])
        (gcEvents c.start es ++ (collections (dump s.log functions objects names) ws).map Prod.snd) ↔
      ∀ x ∈ collections (dump s.log functions objects names) ws, x.1 = true := by
  obtain ⟨bs, hbs⟩ : ∃ bs, collections (dump s.log functions objects names) ws = bs := ⟨_, rfl⟩
  rw [hbs]
  constructor
  · rintro ⟨ms, htext, hsub⟩
    obtain ⟨hn, hlen⟩ := run_gcKeys functions objects names h hr
    rw [hbs] at hlen
    have hdepth := hn.depth
    rw [if_pos hc] at hdepth
    -- the last message adds no key, so every event must have been at the top before it
    have hlast : gcKeys (w.log ++ [shutdownMessage os now]).flatten = gcKeys w.log.flatten := by
      rw [gcKeys_snoc, hdepth, shutdownMessage_eq, topStrs_append, topStrs_member]
      exact List.append_nil _
    have hkeys := ((hsub.map Prod.fst).trans (Json.key_sublist_topStrs ms)).filter isGcKey
    rw [← htext, List.map_map, List.filter_eq_self.2] at hkeys
    · have hle := hkeys.length_le
      rw [← gcKeys, hlast, hlen, List.length_map, List.length_append, List.length_map] at hle
      have hfilter := List.length_filter_le (fun x : Bool × GcEvent => x.1) bs
      have hall : (bs.filter fun x => x.1).length = bs.length := by omega
      exact List.length_filter_eq_length_iff.1 hall
    · intro key hkey
      obtain ⟨g, -, rfl⟩ := List.mem_map.1 hkey
      exact g.isGcKey
  · intro hall
    obtain ⟨blocks, hlog, hleft, hright⟩ := Writer.serial hr ⟨hc, hl⟩ (by rwa [← hbs] at hall)
    have hsections : ∀ S ∈ blocks.filterMap Sum.getLeft?, ∃ m, S.flatten = Json.member m ++ [.comma] := by
      intro S hS
      rw [hleft] at hS
      have hm := List.mem_map_of_mem (f := List.flatten) hS
      rw [sections_text] at hm
      obtain ⟨m, -, hm⟩ := List.mem_map.1 hm
      exact ⟨m, hm.symm⟩
    obtain ⟨ms, htext, hsub⟩ := blocks_text hsections
    refine ⟨initializeMember c.os c.now :: (gcEvents c.start es).map GcEvent.member ++ ms ++ [shutdownMember os now],
      ?_, ?_⟩
    · rw [hlog, List.flatten_append, List.flatten_append, run_text h, htext, List.flatten_singleton,
        shutdownMessage_eq, Json.toks_obj_append, listed_append]
      simp only [List.cons_append, List.append_assoc]
    · have hevents : blocks.filterMap Sum.getRight? = bs.map Prod.snd := hright.trans (congrArg _ hbs)
      rw [← hevents, List.map_append]
      exact (((List.Sublist.refl _).cons _).append hsub).trans (List.sublist_append_left _ _)

end run

/-- The start of a collection, on another thread than `Shutdown`. -/
def collectionStarts : GcEvent := .started 2 7 ⟨true, false, false⟩ ⟨5, 5⟩

theorem dump_wellFormed_iff_before :
    ∃ w, run dumpStep (dump Config.plain.start.log [] [] [])
        (.other collectionStarts :: List.replicate 6 .next) = .ok w ∧
      w.current = [] ∧ w.later = [] ∧
      (WellFormed (w.log ++ [shutdownMessage ⟨1, 1⟩ ⟨9, 9⟩])
          (gcEvents Config.plain.start [] ++ (collections (dump Config.plain.start.log [] [] [])
            (.other collectionStarts :: List.replicate 6 .next)).map Prod.snd) ↔
        ∀ x ∈ collections (dump Config.plain.start.log [] [] [])
          (.other collectionStarts :: List.replicate 6 .next), x.1 = true) :=
  ⟨_, rfl, rfl, rfl, dump_wellFormed_iff [] [] [] (show run step Config.plain.start [] = .ok _ from rfl)
    ⟨1, 1⟩ ⟨9, 9⟩ rfl rfl rfl⟩

/-- A collection starts right after `Shutdown` has opened the functions. -/
theorem dump_broken :
    ∃ w, run dumpStep (dump Config.plain.start.log [] [] [])
        (.next :: .other collectionStarts :: List.replicate 5 .next) = .ok w ∧
      w.current = [] ∧ w.later = [] ∧
      ¬ WellFormed (w.log ++ [shutdownMessage ⟨1, 1⟩ ⟨9, 9⟩])
        (gcEvents Config.plain.start [] ++ (collections (dump Config.plain.start.log [] [] [])
          (.next :: .other collectionStarts :: List.replicate 5 .next)).map Prod.snd) := by
  refine ⟨_, rfl, rfl, rfl, ?_⟩
  rintro ⟨ms, htext, hsub⟩
  have hkeys := (hsub.map Prod.fst).trans (Json.key_sublist_topStrs ms)
  rw [← htext] at hkeys
  have hkey : collectionStarts.member.1 ∈ _ := hkeys.subset (List.mem_singleton.2 rfl)
  revert hkey
  decide

end Perun
