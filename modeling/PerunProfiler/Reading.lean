import PerunProfiler.Lib.Reader
import PerunProfiler.Names
import PerunProfiler.ObjectTypes
import PerunProfiler.Treemap

/-!
# Reading the file

`parse_json` decodes the file and reads it as JSON. The names of functions and types are the only texts
in it that the profiled program chooses: if they are read as they are written, the profile is what
`Shutdown` has written, whatever the encoding.
-/

namespace Perun
open Lib

/-- The bytes of the file; the white space between the tokens is left out. -/
def fileBytes (pointer : Nat → String) (float : Time → String) (log : Message) : List UInt8 :=
  (log.flatMap fun t => (t.map (expand pointer float)).chars).map fun c => c.toNat.toUInt8

/-- `parse_json`, `open` decoding the file as `e`. -/
def loadJson (e : Encoding) (file : List UInt8) : Option (Dict (Json String)) :=
  match (e.decode file).bind Json.read with
  | some (.obj ms) => some (Dict.ofMembers ms)
  | _ => none

/-! ### The bytes of one message -/

section bytes
variable {pointer : Nat → String} {float : Time → String} {s : String}

/-- A `std::string`: every character is a byte. -/
def Narrow (s : String) : Prop := ∀ c ∈ s.toList, c.toNat < 256

theorem narrow_unicodeToAnsi (str : WString) : Narrow (unicodeToAnsi str) := by
  intro c hc
  rw [unicodeToAnsi, String.toList_ofList] at hc
  obtain ⟨u, -, rfl⟩ := List.mem_map.1 hc
  have hlt : u.toNat % 256 < 256 := Nat.mod_lt _ (by decide)
  have hvalid : (u.toNat % 256).isValidChar := .inl (by omega)
  rw [Char.ofNat, dif_pos hvalid]
  exact hlt

theorem Narrow.append {s' : String} (h : Narrow s) (h' : Narrow s') : Narrow (s ++ s') := by
  intro c hc
  rw [String.toList_append] at hc
  rcases List.mem_append.1 hc with hc | hc
  · exact h c hc
  · exact h' c hc

theorem narrow_getTypeName (typeDefProps : Option WString) : Narrow (getTypeName typeDefProps) := by
  cases typeDefProps with
  | none => exact nofun
  | some name => exact narrow_unicodeToAnsi name

theorem narrow_getMethodName (m : FunctionMetadata) : Narrow (getMethodName m) := by
  have hcolons : Narrow "::" := List.forall_iff_forall_mem.1 (by decide)
  have hparens : Narrow "()" := List.forall_iff_forall_mem.1 (by decide)
  unfold getMethodName
  split
  · split
    · exact (((narrow_getTypeName _).append hcolons).append (narrow_unicodeToAnsi _)).append hparens
    · exact nofun
  · exact nofun

/-- The characters before the first zero are the bytes before it. -/
theorem bytes_cStr (h : Narrow s) : bytes (cStr s) = cString s := by
  have hzero : ∀ c ∈ s.toList, (c.toNat.toUInt8 = 0 ↔ c = '\x00') := by
    intro c hc
    have hlt := h c hc
    rw [← UInt8.toNat_inj, ← Char.toNat_inj, Nat.toUInt8, UInt8.toNat_ofNat']
    show c.toNat % 256 = 0 ↔ c.toNat = 0
    omega
  rw [cString, bytes, bytes, cStr, String.toList_ofList]
  generalize s.toList = cs at hzero
  induction cs with
  | nil => rfl
  | cons c cs ih =>
    have hrest := ih fun c' hc' => hzero c' (List.mem_cons_of_mem _ hc')
    by_cases hc : c = '\x00'
    · have hbyte := (hzero c List.mem_cons_self).2 hc
      rw [List.map_cons, List.takeWhile_cons_of_neg (by simpa using hc), List.takeWhile_cons_of_neg (by simpa using hbyte)]
      rfl
    · have hbyte : c.toNat.toUInt8 ≠ 0 := fun h0 => hc ((hzero c List.mem_cons_self).1 h0)
      rw [List.map_cons, List.takeWhile_cons_of_pos (by simpa using hc), List.takeWhile_cons_of_pos (by simpa using hbyte),
        List.map_cons, hrest]

theorem fileBytes_append (log log' : Message) :
    fileBytes pointer float (log ++ log') = fileBytes pointer float log ++ fileBytes pointer float log' := by
  rw [fileBytes, List.flatMap_append, List.map_append]
  rfl

theorem fileBytes_str (x : Str) : fileBytes pointer float [.str x] =
    0x22 :: (bytes (expand pointer float x) ++ [0x22]) := by
  rw [fileBytes, List.flatMap_singleton, Tok.map, Tok.chars, List.map_cons, List.map_append]
  rfl

/-- `FunctionInfo::Serialize` writes its message, with a blank before the name. -/
theorem FunctionInfo.bytes_message {i : FunctionInfo} {m : FunctionMetadata} (hname : i.name = getMethodName m) :
    i.bytes pointer =
      fileBytes pointer float (i.message.take 2) ++ 0x20 :: fileBytes pointer float (i.message.drop 2) := by
  have h : Narrow i.name := hname ▸ narrow_getMethodName m
  have hkey : i.message.take 2 = [Tok.str [Piece.arg (.p i.funcId)]] ++ [Tok.colon] := rfl
  have hvalue : i.message.drop 2 = [Tok.str [Piece.arg (.s i.name)]] ++ [Tok.comma] := rfl
  rw [hkey, hvalue, fileBytes_append, fileBytes_append, fileBytes_str, fileBytes_str, expand_arg, expand_arg, bytes_cStr h]
  show (0x22 : UInt8) :: (Perun.bytes (pointer i.funcId) ++ 0x22 :: 0x3A :: 0x20 :: 0x22 :: (cString i.name ++ [0x22, 0x2C])) = _
  simp [fileBytes, Tok.map, Tok.chars]

/-- The message of an object has the member for its type. -/
theorem ObjectRecord.objTypeBytes_message {r : ObjectRecord} {name : Option WString}
    (htype : r.objType = getTypeName name) :
    ∃ before after, fileBytes pointer float r.message = before ++ objTypeBytes r.objType ++ after := by
  have h : Narrow r.objType := htype ▸ narrow_getTypeName name
  obtain ⟨first, rest, hjson⟩ : ∃ first rest, r.json =
      .obj (first ++ field "objType" [.arg (.s r.objType)] :: rest ++ [field "eCPUt" [.arg (.f r.eCPUt)]]) := by
    unfold ObjectRecord.json
    split
    · exact ⟨[_, _, _], [_, _, _, _], rfl⟩
    · exact ⟨[_, _, _], [_, _, _], rfl⟩
  have hmember : fileBytes pointer float (Json.member (field "objType" [.arg (.s r.objType)]) ++ [Tok.comma]) =
      objTypeBytes r.objType := by
    have htoks : Json.member (field "objType" [.arg (.s r.objType)]) ++ [Tok.comma] =
        [Tok.str (lit "objType")] ++ ([Tok.colon] ++ ([Tok.str [Piece.arg (.s r.objType)]] ++ [Tok.comma])) := by
      simp only [field, Json.member_eq, Json.toks, List.cons_append, List.nil_append]
    rw [htoks, fileBytes_append, fileBytes_append, fileBytes_append, fileBytes_str, fileBytes_str, expand_lit, expand_arg,
      bytes_cStr h]
    simp only [List.cons_append, List.append_assoc]
    rfl
  have hlisted : Json.listed (field "objType" [.arg (.s r.objType)] :: rest) =
      Json.member (field "objType" [.arg (.s r.objType)]) ++ [Tok.comma] ++ Json.listed rest := rfl
  rw [r.message_eq, hjson, Json.toks_obj_append, Json.listed_append, hlisted]
  refine ⟨fileBytes pointer float (.lbrace :: Json.listed first), fileBytes pointer float (Json.listed rest ++
    Json.member (field "eCPUt" [.arg (.f r.eCPUt)]) ++ [Tok.rbrace] ++ [Tok.comma]), ?_⟩
  rw [← hmember, ← fileBytes_append, ← fileBytes_append]
  simp only [List.append_assoc, List.cons_append]

end bytes

/-! ### Texts that are read as they are written -/

/-- Printable ASCII, without quotation marks and backslashes. -/
def PlainText (s : String) : Prop := ∀ c ∈ s.toList, Plain c ∧ c.toNat < 128

instance : DecidablePred PlainText := fun s =>
  decidable_of_iff (s.toList.Forall fun c => Plain c ∧ c.toNat < 128) List.forall_iff_forall_mem

/-- What `%p` and `%f` print. -/
structure Prints (pointer : Nat → String) (float : Time → String) : Prop where
  pointer : ∀ a, PlainText (pointer a)
  float : ∀ t, PlainText (float t)

/-- A piece of a quoted string prints such a text. -/
def Piece.Plain : Piece → Prop
  | .lit c => Lib.Plain c ∧ c.toNat < 128
  | .arg (.s text) => PlainText text
  | .arg _ => True

/-- The quoted strings of a value are made of such pieces. -/
def AllPlain (j : Json Str) : Prop := ∀ s, Tok.str s ∈ j.toks → ∀ x ∈ s, x.Plain

section plain
variable {pointer : Nat → String} {float : Time → String} {s : String}

theorem PlainText.append {s' : String} (h : PlainText s) (h' : PlainText s') : PlainText (s ++ s') := by
  intro c hc
  rw [String.toList_append] at hc
  rcases List.mem_append.1 hc with hc | hc
  · exact h c hc
  · exact h' c hc

theorem PlainText.cStr (h : PlainText s) : PlainText (cStr s) := by
  intro c hc
  rw [Perun.cStr, String.toList_ofList] at hc
  exact h c ((List.takeWhile_prefix _).subset hc)

theorem plainText_int (n : Int) : PlainText (toString n) := by
  cases n with
  | ofNat m => exact repr_plain m
  | negSucc m =>
    have hminus : PlainText "-" := by decide
    show PlainText ("-" ++ (m + 1).repr)
    exact hminus.append (repr_plain (m + 1))

theorem Piece.Plain.expand (hprint : Prints pointer float) {x : Piece} (h : x.Plain) :
    PlainText (expand pointer float [x]) := by
  cases x with
  | lit c =>
    intro c' hc'
    rw [Perun.expand, List.map_singleton, String.toList_join] at hc'
    obtain rfl : c' = c := by simpa using hc'
    exact h
  | arg a =>
    rw [expand_arg]
    cases a with
    | d n => exact plainText_int n
    | p a => exact hprint.pointer a
    | f t => exact hprint.float t
    | s text => exact PlainText.cStr h

theorem plainText_expand (hprint : Prints pointer float) {x : Str} (h : ∀ y ∈ x, y.Plain) :
    PlainText (expand pointer float x) := by
  induction x with
  | nil => exact nofun
  | cons y x ih =>
    rw [← List.singleton_append, expand_append]
    exact ((h y List.mem_cons_self).expand hprint).append (ih fun z hz => h z (List.mem_cons_of_mem _ hz))

theorem plain_lit {key : String} (h : PlainText key) : ∀ x ∈ lit key, x.Plain := by
  intro x hx
  obtain ⟨c, hc, rfl⟩ := List.mem_map.1 hx
  exact h c hc

theorem allPlain_str {x : Str} : AllPlain (.str x) ↔ ∀ y ∈ x, y.Plain := by
  simp [AllPlain, Json.toks]

theorem allPlain_arr {xs : List (Json Str)} : AllPlain (.arr xs) ↔ ∀ x ∈ xs, AllPlain x := by
  have helems : ∀ (xs : List (Json Str)) (s : Str), Tok.str s ∈ Json.elems xs ↔ ∃ x ∈ xs, Tok.str s ∈ x.toks := by
    intro xs s
    induction xs with
    | nil => simp [Json.elems]
    | cons x xs ih => simp [Json.elems, ih]
  have htoks : ∀ s : Str, Tok.str s ∈ (Json.arr xs).toks ↔ ∃ x ∈ xs, Tok.str s ∈ x.toks := by
    intro s
    cases xs with
    | nil => simp [Json.toks]
    | cons x xs => simp [Json.toks, helems]
  simp only [AllPlain, htoks]
  constructor
  · intro h x hx s hs
    exact h s ⟨x, hx, hs⟩
  · rintro h s ⟨x, hx, hs⟩
    exact h x hx s hs

theorem allPlain_obj {ms : List (Str × Json Str)} :
    AllPlain (.obj ms) ↔ ∀ m ∈ ms, (∀ x ∈ m.1, x.Plain) ∧ AllPlain m.2 := by
  have hmember : ∀ (m : Str × Json Str) (s : Str), Tok.str s ∈ Json.member m ↔ s = m.1 ∨ Tok.str s ∈ m.2.toks := by
    intro m s
    simp [Json.member_eq]
  have hmembers : ∀ (ms : List (Str × Json Str)) (s : Str), Tok.str s ∈ Json.members ms ↔
      ∃ m ∈ ms, s = m.1 ∨ Tok.str s ∈ m.2.toks := by
    intro ms s
    induction ms with
    | nil => simp [Json.members]
    | cons m ms ih => simp only [Json.members, List.mem_cons, List.mem_append, hmember, ih, reduceCtorEq, false_or,
        exists_eq_or_imp]
  have htoks : ∀ s : Str, Tok.str s ∈ (Json.obj ms).toks ↔ ∃ m ∈ ms, s = m.1 ∨ Tok.str s ∈ m.2.toks := by
    intro s
    cases ms with
    | nil => simp [Json.toks]
    | cons m ms => simp only [Json.toks, List.mem_cons, List.mem_append, hmember, hmembers, reduceCtorEq, false_or,
        exists_eq_or_imp]
  simp only [AllPlain, htoks]
  constructor
  · intro h m hm
    exact ⟨h m.1 ⟨m, hm, .inl rfl⟩, fun s hs => h s ⟨m, hm, .inr hs⟩⟩
  · rintro h s ⟨m, hm, rfl | hs⟩
    · exact (h m hm).1
    · exact (h m hm).2 s hs

/-- Such a document is read as it was written. -/
theorem loadJson_toks (e : Encoding) (hprint : Prints pointer float) {ms : List (Str × Json Str)}
    (h : AllPlain (.obj ms)) :
    loadJson e (fileBytes pointer float (Json.obj ms).toks) = some (parseJson pointer float ms) := by
  have htoks : ∀ t ∈ ((Json.obj ms).map (expand pointer float)).toks, t.Unescaped ∧ ∀ c ∈ t.chars, c.toNat < 128 := by
    intro t ht
    rw [Json.toks_map] at ht
    obtain ⟨u, hu, rfl⟩ := List.mem_map.1 ht
    cases u with
    | str s =>
      have hplain := plainText_expand hprint (h s hu)
      refine ⟨fun s' hs' c hc => ?_, fun c hc => ?_⟩
      · obtain rfl : expand pointer float s = s' := Tok.str.inj hs'
        exact (hplain c hc).1
      · rcases List.mem_cons.1 hc with rfl | hc
        · decide
        · rcases List.mem_append.1 hc with hc | hc
          · exact (hplain c hc).2
          · obtain rfl : c = '"' := List.mem_singleton.1 hc
            decide
    | _ =>
      refine ⟨nofun, fun c hc => ?_⟩
      obtain rfl := List.mem_singleton.1 hc
      decide
  have hbytes : fileBytes pointer float (Json.obj ms).toks =
      (((Json.obj ms).map (expand pointer float)).toks.flatMap Tok.chars).map fun c => c.toNat.toUInt8 := by
    rw [fileBytes, Json.toks_map, List.flatMap_map]
  have hdecode : e.decode (fileBytes pointer float (Json.obj ms).toks) =
      some (((Json.obj ms).map (expand pointer float)).toks.flatMap Tok.chars) := by
    rw [hbytes, ← List.append_nil (List.map _ _), decode_ascii fun c hc => ?_]
    · simp [Encoding.decode, Encoding.decodeFrom]
    · obtain ⟨t, ht, hc⟩ := List.mem_flatMap.1 hc
      exact (htoks t ht).2 c hc
  rw [loadJson, hdecode, Option.bind_some, Json.read_chars fun t ht => (htoks t ht).1, Json.map_obj]
  rfl

end plain

/-! ### The profile of a run -/

section document
variable {c : Config} {gcs : List GcEvent} {functions : List FunctionRecord} {objects : List ObjectRecord}
  {names : List FunctionInfo} {os : Process} {now : Clock}

theorem plain_field {key : String} {value : Str} (hkey : PlainText key) (hvalue : ∀ x ∈ value, x.Plain) :
    (∀ x ∈ (field key value).1, x.Plain) ∧ AllPlain (field key value).2 :=
  ⟨plain_lit hkey, allPlain_str.2 hvalue⟩

theorem plain_arg {a : Arg} (h : (Piece.arg a).Plain) : ∀ x ∈ [Piece.arg a], x.Plain := by
  intro x hx
  rwa [List.mem_singleton.1 hx]

theorem plain_prefixed {key : String} {a : Arg} (hkey : PlainText key) (h : (Piece.arg a).Plain) :
    ∀ x ∈ lit key ++ [Piece.arg a], x.Plain := by
  intro x hx
  rcases List.mem_append.1 hx with hx | hx
  · exact plain_lit hkey x hx
  · exact plain_arg h x hx

theorem FunctionRecord.allPlain (r : FunctionRecord) : AllPlain r.json := by
  unfold FunctionRecord.json
  simp only [allPlain_obj, List.forall_mem_cons, List.not_mem_nil, false_imp_iff, implies_true, and_true]
  refine ⟨plain_field (by decide) (plain_arg trivial), plain_field (by decide) (plain_prefixed (by decide) trivial),
    plain_field (by decide) (plain_arg trivial), plain_field (by decide) (plain_arg trivial),
    plain_field (by decide) (plain_arg trivial), plain_field (by decide) (plain_arg trivial),
    plain_field (by decide) (plain_arg trivial), plain_field (by decide) ?_, plain_field (by decide) (plain_arg trivial)⟩
  cases r.rFn with
  | none => exact nofun
  | some n => exact plain_arg trivial

theorem ObjectRecord.allPlain {r : ObjectRecord} (h : PlainText r.objType) : AllPlain r.json := by
  unfold ObjectRecord.json
  have hfnc : ∀ m ∈ (if r.fnc ≠ -1 then [field "fnc" [.arg (.d r.fnc)]] else []),
      (∀ x ∈ m.1, x.Plain) ∧ AllPlain m.2 := by
    intro m hm
    split at hm
    · rw [List.mem_singleton.1 hm]
      exact plain_field (by decide) (plain_arg trivial)
    · cases hm
  simp only [allPlain_obj, List.forall_mem_append, List.forall_mem_cons, List.not_mem_nil, false_imp_iff, implies_true,
    and_true]
  exact ⟨⟨⟨plain_field (by decide) (plain_prefixed (by decide) trivial),
    plain_field (by decide) (plain_prefixed (by decide) trivial), plain_field (by decide) (plain_arg trivial),
    plain_field (by decide) (plain_arg h), plain_field (by decide) (plain_arg trivial),
    plain_field (by decide) (plain_arg trivial)⟩, hfnc⟩, plain_field (by decide) (plain_arg trivial),
    plain_field (by decide) (plain_arg trivial)⟩

theorem plainText_yesNo (collected : Bool) : PlainText (yesNo collected) := by
  cases collected <;> decide

theorem GcEvent.plain (g : GcEvent) : (∀ x ∈ g.member.1, x.Plain) ∧ AllPlain g.member.2 := by
  cases g with
  | started n t g now =>
    refine ⟨plain_prefixed (by decide) trivial, ?_⟩
    simp only [member, allPlain_obj, List.forall_mem_cons, List.not_mem_nil, false_imp_iff, implies_true, and_true]
    exact ⟨plain_field (by decide) (plain_prefixed (by decide) trivial),
      plain_field (by decide) (plain_prefixed (by decide) (plainText_yesNo _)),
      plain_field (by decide) (plain_prefixed (by decide) (plainText_yesNo _)),
      plain_field (by decide) (plain_prefixed (by decide) (plainText_yesNo _)),
      plain_field (by decide) (plain_arg trivial), plain_field (by decide) (plain_arg trivial)⟩
  | finished n t now =>
    refine ⟨plain_prefixed (by decide) trivial, ?_⟩
    simp only [member, allPlain_obj, List.forall_mem_cons, List.not_mem_nil, false_imp_iff, implies_true, and_true]
    exact ⟨plain_field (by decide) (plain_prefixed (by decide) trivial), plain_field (by decide) (plain_arg trivial),
      plain_field (by decide) (plain_arg trivial)⟩

/-- `Initialize` and `Shutdown` write the same member, but for its name. -/
theorem plain_process {key act : String} (hkey : PlainText key) (hact : PlainText act) {m : Str × Json Str}
    (hm : m = (lit key, .obj [field "act" (lit act), field "PID" [.arg (.d os.pid)], field "TID" [.arg (.d os.tid)],
      field "eWALLt" [.arg (.f now.wall)], field "eCPUt" [.arg (.f now.cpu)]])) :
    (∀ x ∈ m.1, x.Plain) ∧ AllPlain m.2 := by
  subst hm
  refine ⟨plain_lit hkey, ?_⟩
  simp only [allPlain_obj, List.forall_mem_cons, List.not_mem_nil, false_imp_iff, implies_true, and_true]
  exact ⟨plain_field (by decide) (plain_lit hact), plain_field (by decide) (plain_arg trivial),
    plain_field (by decide) (plain_arg trivial), plain_field (by decide) (plain_arg trivial),
    plain_field (by decide) (plain_arg trivial)⟩

/-- The array of a section ends with the sentinel. -/
theorem plain_section {xs : List (Json Str)} (h : ∀ x ∈ xs, AllPlain x) : AllPlain (.arr (xs ++ [.obj []])) := by
  rw [allPlain_arr]
  intro x hx
  rcases List.mem_append.1 hx with hx | hx
  · exact h x hx
  · rw [List.mem_singleton.1 hx]
    exact allPlain_obj.2 nofun

theorem document_allPlain (hobjects : ∀ o ∈ objects, PlainText o.objType) (hnames : ∀ i ∈ names, PlainText i.name) :
    AllPlain (.obj (document c gcs functions objects names os now)) := by
  rw [allPlain_obj, document]
  intro m hm
  rcases List.mem_append.1 hm with hm | hm
  · rcases List.mem_cons.1 hm with rfl | hm
    · exact plain_process (by decide) (by decide) rfl
    · obtain ⟨g, -, rfl⟩ := List.mem_map.1 hm
      exact g.plain
  · simp only [List.mem_cons, List.not_mem_nil, or_false] at hm
    rcases hm with rfl | rfl | rfl | rfl
    · refine ⟨plain_lit (by decide), plain_section fun x hx => ?_⟩
      obtain ⟨r, -, rfl⟩ := List.mem_map.1 hx
      exact r.allPlain
    · refine ⟨plain_lit (by decide), plain_section fun x hx => ?_⟩
      obtain ⟨o, ho, rfl⟩ := List.mem_map.1 hx
      exact ObjectRecord.allPlain (hobjects o ho)
    · refine ⟨plain_lit (by decide), allPlain_obj.2 fun m hm => ?_⟩
      rcases List.mem_append.1 hm with hm | hm
      · obtain ⟨i, hi, rfl⟩ := List.mem_map.1 hm
        exact ⟨plain_arg trivial, allPlain_str.2 (plain_arg (hnames i hi))⟩
      · rw [List.mem_singleton.1 hm]
        refine plain_field (by decide) fun x hx => ?_
        cases hx
    · exact plain_process (by decide) (by decide) rfl

end document

/-- The names of the functions and of the types of the objects are read as they are written. -/
structure CoreProfiler.PlainNames (s : CoreProfiler) : Prop where
  functions : ∀ i ∈ s.names, PlainText i.name
  types : ∀ (p : Ptr) (object : ObjectClass), s.objects.get? p = some object → PlainText object.typeName

instance (s : CoreProfiler) : Decidable s.PlainNames :=
  decidable_of_iff ((∀ i ∈ s.names, PlainText i.name) ∧ ∀ (p : Ptr) (object : ObjectClass),
      s.objects.get? p = some object → PlainText object.typeName)
    ⟨fun ⟨hfunctions, htypes⟩ => ⟨hfunctions, htypes⟩, fun h => ⟨h.functions, h.types⟩⟩

/-- The file that is complete after `Shutdown` is read as the document it has written. -/
theorem shutdown_loaded {pointer : Nat → String} {float : Time → String} (hprint : Prints pointer float)
    {c : Config} {es : List Callback} {s : CoreProfiler} (h : run step c.start es = .ok s) (hn : s.PlainNames)
    (os : Process) (now : Clock) :
    ∃ events functions records objects s', functionsSection s.functions.size now s = .ok (events, functions) ∧
      objectsSection s = .ok (records, objects) ∧ shutdown os now s = .ok s' ∧
      ∀ e : Encoding, loadJson e (fileBytes pointer float s'.log.flatten) = some (parseJson pointer float
        (document c (gcEvents c.start es) (writtenRecords events) records s.names os now)) := by
  obtain ⟨events, functions, records, objects, s', hf, ho, hok, hlog⟩ := shutdown_profile h os now
  refine ⟨events, functions, records, objects, s', hf, ho, hok, fun e => ?_⟩
  rw [hlog]
  refine loadJson_toks e hprint (document_allPlain (fun o hmem => ?_) hn.functions)
  obtain ⟨records', objects', ho', hwritten⟩ := (Reachable.tracked ⟨c, es, h⟩).written
  obtain ⟨rfl, -⟩ := Prod.mk.inj (Except.ok.inj (ho.symm.trans ho'))
  obtain ⟨p, -, hp, -⟩ := forall₂_mem_left hwritten.flip hwritten.flip hmem
  obtain ⟨object, hobject, htype⟩ := WrittenOf.objType (hp : WrittenOf s p o)
  rw [htype]
  exact hn.types p object hobject

theorem prints_printed : Prints (fun a => "0x" ++ a.repr) seconds where
  pointer a := by
    have hx : PlainText "0x" := by decide
    exact hx.append (repr_plain a)
  float t := by
    have hzeros : PlainText ".000000" := by decide
    exact (plainText_int t.num).append hzeros

end Perun
