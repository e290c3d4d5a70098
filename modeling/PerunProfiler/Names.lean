import Mathlib.Data.List.TakeWhile
import PerunProfiler.Visualization

/-!
# Names in the file

`OS::UnicodeToAnsi` narrows every UTF-16 unit of a name to a byte, `%s` prints the bytes up to a zero
one between quotation marks, and `main.py` decodes the file, reads the string and splits it at the
first `::`. A name comes back only if nothing on that way makes it shorter.
-/

namespace Perun
open Lib

/-! ### Writing -/

/-- What is left of a unit in a `std::string`. -/
def lowByte (u : UInt16) : UInt8 := (u.toNat % 256).toUInt8

/-- The bytes of a `std::string`. -/
def bytes (s : String) : List UInt8 := s.toList.map fun c => c.toNat.toUInt8

/-- `c_str()`, as `%s` prints it. -/
def cString (s : String) : List UInt8 := (bytes s).takeWhile (· ≠ 0)

/-- `sprintf` in bytes: a conversion takes the next argument. -/
def sprintfBytes : Bool → List Char → List (List UInt8) → List UInt8
  | _, [], _ => []
  | true, _ :: cs, args => args.headD [] ++ sprintfBytes false cs args.tail
  | false, c :: cs, args =>
    if c = '%' then sprintfBytes true cs args else c.toNat.toUInt8 :: sprintfBytes false cs args

/-- `FunctionInfo::Serialize` -/
def FunctionInfo.bytes (pointer : Nat → String) (i : FunctionInfo) : List UInt8 :=
  sprintfBytes false "\"%p\": \"%s\",".toList [Perun.bytes (pointer i.funcId), cString i.name]

/-- The member for the type in `ObjectClass::Serialize`. -/
def objTypeBytes (typeName : String) : List UInt8 :=
  sprintfBytes false "\"objType\":\"%s\",".toList [cString typeName]

/-! ### Reading -/

def space (cs : List Char) : List Char := cs.dropWhile fun c => c = ' ' ∨ c = '\n' ∨ c = '\t' ∨ c = '\r'

def expect (c : Char) (cs : List Char) : Option (List Char) := if cs.head? = some c then some cs.tail else none

/-- The key and the value of a text that is one member and a comma. -/
def readMember (cs : List Char) : Option (String × String) := do
  let (key, cs) ← scanFrom 0 (← expect '"' cs)
  let cs ← expect ':' (space cs)
  let (value, cs) ← scanFrom 0 (← expect '"' (space cs))
  if cs = [','] then some (String.ofList key, String.ofList value) else none

/-- What `json.load` makes of the bytes of a member, `open` decoding the file as `e`. -/
def readBytes (e : Encoding) (bs : List UInt8) : Option (String × String) := (e.decode bs).bind readMember

/-- The name of the method of a type comes back as the two columns. -/
def NameKept (e : Encoding) (pointer : Nat → String) (f : FunctionID) (typeName methodName : WString) : Prop :=
  ∃ value className function,
    readBytes e (FunctionInfo.bytes pointer ⟨getMethodName ⟨true, none, some typeName, some methodName⟩, f⟩) =
      some (pointer f, value) ∧
    (part "::" 0 (some (.text value)) : Option (Cell Time)) = some (.text className) ∧
    (part "::" 1 (some (.text value)) : Option (Cell Time)) = some (.text function) ∧
    utf16 className.toList = typeName ∧ utf16 function.toList = methodName ++ utf16 "()".toList

/-- The name of the type of an object comes back. -/
def TypeKept (e : Encoding) (typeName : WString) : Prop :=
  ∃ value, readBytes e (objTypeBytes (getTypeName (some typeName))) = some ("objType", value) ∧
    utf16 value.toList = typeName

/-! ### The condition -/

/-- The encoding reads what is left of a unit as the character of that unit. -/
def ReadsAs (e : Encoding) (u : UInt16) (c : Char) : Prop := e.next (lowByte u) [] = some (c, 0) ∧ units c = [u]

def Reads (e : Encoding) (u : UInt16) : Prop := ∃ c, ReadsAs e u c

/-- A unit that stands for itself inside a JSON string. -/
def Printable (u : UInt16) : Prop := u ≠ 0x22 ∧ u ≠ 0x5C ∧ 0x20 ≤ u

instance : DecidablePred Printable := fun u => inferInstanceAs (Decidable (u ≠ 0x22 ∧ u ≠ 0x5C ∧ 0x20 ≤ u))

/-- `value` is what is read between the quotation marks where the units `N` were written. -/
def Written (e : Encoding) (N : WString) (value : List Char) : Prop :=
  ∃ t, e.decode ((N.map lowByte).takeWhile (· ≠ 0)) = some t ∧ scanFrom 0 (t ++ ['"', ',']) = some (value, [','])

section written
variable {e : Encoding} {N : WString} {value : List Char}

theorem Written.length_le (h : Written e N value) : (utf16 value).length ≤ N.length := by
  obtain ⟨t, ht, hscan⟩ := h
  obtain ⟨used, hused, hle, -⟩ := scanFrom_length hscan
  obtain rfl : t = used := List.append_cancel_right hused
  have hdecode := (Encoding.decode_length ht).1
  have htake := (List.takeWhile_prefix (p := fun b : UInt8 => b ≠ 0) (l := N.map lowByte)).length_le
  rw [List.length_map] at htake
  omega

theorem lowByte_zero {u : UInt16} (h : Reads e u) (h0 : lowByte u = 0) : u = 0 := by
  obtain ⟨c, hc, hu⟩ := h
  rw [h0, e.ascii 0 [] (by decide)] at hc
  obtain ⟨rfl, -⟩ := Prod.mk.inj (Option.some.inj hc)
  exact (List.singleton_inj.1 hu).symm

theorem plain_iff_printable {u : UInt16} {c : Char} (h : Lib.units c = [u]) : Plain c ↔ Printable u := by
  have hc := toNat_of_units h
  have hquote : c = '"' ↔ u = 0x22 := by
    rw [← Char.toNat_inj, ← UInt16.toNat_inj, hc]
    rfl
  have hback : c = '\\' ↔ u = 0x5C := by
    rw [← Char.toNat_inj, ← UInt16.toNat_inj, hc]
    rfl
  have hlow : c < ' ' ↔ ¬ 0x20 ≤ u := by
    rw [Char.lt_def, UInt32.lt_iff_toNat_lt, UInt16.le_iff_toNat_le, Nat.not_le]
    show c.toNat < 32 ↔ u.toNat < 32
    rw [hc]
  rw [Plain, Printable, Ne, hquote, Ne, hback, hlow, not_not]

/-- What comes back as it was written is read unit by unit. -/
theorem Written.units (h : Written e N value) (heq : utf16 value = N) : ∀ u ∈ N, Reads e u ∧ Printable u := by
  subst heq
  obtain ⟨t, ht, hscan⟩ := h
  obtain ⟨used, hused, hle, hsame⟩ := scanFrom_length hscan
  obtain rfl : t = used := List.append_cancel_right hused
  obtain ⟨hdecode, hbytes⟩ := Encoding.decode_length ht
  have htake : _ <+: (utf16 value).map lowByte := List.takeWhile_prefix (· ≠ 0)
  have hlen := htake.length_le
  rw [List.length_map] at hlen
  obtain ⟨rfl, hplain⟩ := hsame (by omega)
  have hall := hbytes (by omega)
  rw [htake.eq_of_length (by rw [List.length_map]; omega)] at hall
  have hcount := hall.length_eq
  rw [List.length_map] at hcount
  intro u hu
  have hunits := forall₂_utf16 rfl hcount.symm
  obtain ⟨c, hc, hnext, hunit⟩ := forall₂_mem_left (List.forall₂_map_left_iff.1 hall) hunits hu
  exact ⟨⟨c, hnext, hunit⟩, (plain_iff_printable hunit).1 (hplain c hc)⟩

/-- Units that stand for themselves come back as they were written. -/
theorem written_of (hvalue : List.Forall₂ (ReadsAs e) N value) (h : ∀ u ∈ N, Printable u) : Written e N value := by
  have hbytes : (N.map lowByte).takeWhile (· ≠ 0) = N.map lowByte := by
    rw [List.takeWhile_eq_self_iff]
    intro b hb
    obtain ⟨u, hu, rfl⟩ := List.mem_map.1 hb
    obtain ⟨c, -, hc, -⟩ := forall₂_mem_left hvalue hvalue hu
    refine decide_eq_true fun h0 => ?_
    have hzero := lowByte_zero ⟨c, hc⟩ h0
    exact absurd (h u hu).2.2 (by rw [hzero]; decide)
  refine ⟨value, ?_, scanFrom_plain (fun c hc => ?_) _⟩
  · rw [hbytes]
    exact Encoding.decode_forall₂ (List.forall₂_map_left_iff.2 (hvalue.imp fun u c huc => huc.1))
  · obtain ⟨u, hu, ⟨-, hunit⟩, -⟩ := forall₂_mem_left hvalue.flip hvalue.flip hc
    exact (plain_iff_printable hunit).2 (h u hu)

theorem utf16_of (hvalue : List.Forall₂ (ReadsAs e) N value) : utf16 value = N := by
  induction hvalue with
  | nil => rfl
  | cons huc _ ih => rw [utf16_cons, huc.2, ih, List.singleton_append]

/-- ASCII units stand for themselves. -/
theorem forall₂_ascii (e : Encoding) (cs : List Char) (h : ∀ c ∈ cs, c.toNat < 128) :
    List.Forall₂ (ReadsAs e) (utf16 cs) cs := by
  induction cs with
  | nil => exact .nil
  | cons c cs ih =>
    have hc := h c List.mem_cons_self
    rw [utf16_cons, units_of_lt (by omega)]
    refine .cons ⟨?_, units_of_lt (by omega)⟩ (ih fun c hcs => h c (List.mem_cons_of_mem _ hcs))
    have hbyte : (lowByte c.toNat.toUInt16).toNat = c.toNat := by
      simp only [lowByte, Nat.toUInt16, Nat.toUInt8, UInt8.toNat_ofNat', UInt16.toNat_ofNat']
      omega
    have hlt : lowByte c.toNat.toUInt16 < 128 := by
      show (lowByte c.toNat.toUInt16).toNat < 128
      omega
    rw [e.ascii _ _ hlt, hbyte, Char.ofNat_toNat]

end written

/-! ### Members -/

section members
variable {e : Encoding} {N : WString}

theorem bytes_append (s s' : String) : bytes (s ++ s') = bytes s ++ bytes s' := by
  rw [bytes, String.toList_append, List.map_append]
  rfl

theorem bytes_unicodeToAnsi (str : WString) : bytes (unicodeToAnsi str) = str.map lowByte := by
  rw [bytes, unicodeToAnsi, String.toList_ofList, List.map_map]
  refine List.map_congr_left fun u _ => ?_
  have hlt : u.toNat % 256 < 256 := Nat.mod_lt _ (by decide)
  have hvalid : (u.toNat % 256).isValidChar := .inl (by omega)
  rw [Function.comp_apply, lowByte, Char.ofNat, dif_pos hvalid]
  rfl

/-- ASCII characters are read as they were written. -/
theorem decode_ascii {cs : List Char} (h : ∀ c ∈ cs, c.toNat < 128) (y : List UInt8) :
    e.decode (cs.map (fun c => c.toNat.toUInt8) ++ y) = (e.decode y).map (cs ++ ·) := by
  induction cs with
  | nil => simp
  | cons c cs ih =>
    have hc := h c List.mem_cons_self
    have hbyte : c.toNat.toUInt8.toNat = c.toNat := Nat.mod_eq_of_lt (by omega)
    have hlt : c.toNat.toUInt8 < 128 := by
      show c.toNat.toUInt8.toNat < 128
      rw [hbyte]
      exact hc
    rw [List.map_cons, List.cons_append, ← List.nil_append (_ :: _), Encoding.decode_append hlt,
      ih fun c hcs => h c (List.mem_cons_of_mem _ hcs), hbyte, Char.ofNat_toNat]
    show ((e.decode y).map _).map _ = _
    rw [Option.map_map]
    rfl

/-- A member is read up to the value, then the value between its quotation marks. -/
theorem readMember_eq {key gap : List Char} (hkey : ∀ c ∈ key, Plain c) (hgap : gap = [] ∨ gap = [' '])
    (x : List Char) : readMember ('"' :: (key ++ '"' :: ':' :: (gap ++ '"' :: x))) =
      (scanFrom 0 x).bind fun y => if y.2 = [','] then some (String.ofList key, String.ofList y.1) else none := by
  have hspace : space (gap ++ '"' :: x) = '"' :: x := by
    rcases hgap with rfl | rfl <;> rfl
  have hfirst : (scanFrom 0 (key ++ '"' :: ':' :: (gap ++ '"' :: x))) = some (key, ':' :: (gap ++ '"' :: x)) :=
    scanFrom_plain hkey _
  rw [readMember]
  show (scanFrom 0 (key ++ '"' :: ':' :: (gap ++ '"' :: x)) >>= _) = _
  rw [hfirst]
  show ((expect '"' (space (gap ++ '"' :: x))).bind fun cs => (scanFrom 0 cs).bind fun y =>
    if y.2 = [','] then some (String.ofList key, String.ofList y.1) else none) = _
  rw [hspace]
  rfl

theorem ascii_member {key gap : List Char} (hkey : ∀ c ∈ key, Plain c ∧ c.toNat < 128)
    (hgap : gap = [] ∨ gap = [' ']) : ∀ c ∈ '"' :: (key ++ '"' :: ':' :: (gap ++ ['"'])), c.toNat < 128 := by
  intro c hc
  simp only [List.mem_cons, List.mem_append, List.not_mem_nil, or_false] at hc
  rcases hc with rfl | hc | rfl | rfl | hc | rfl
  · decide
  · exact (hkey c hc).2
  · decide
  · decide
  · rcases hgap with rfl | rfl
    · cases hc
    · rw [List.mem_singleton.1 hc]
      decide
  · decide

/-- The value of a member is decoded and read on its own. -/
theorem readBytes_eq {key gap : List Char} (hkey : ∀ c ∈ key, Plain c ∧ c.toNat < 128)
    (hgap : gap = [] ∨ gap = [' ']) (value : List UInt8) :
    readBytes e (('"' :: (key ++ '"' :: ':' :: (gap ++ ['"']))).map (fun c => c.toNat.toUInt8) ++
        (value ++ [0x22, 0x2C])) =
      (e.decode value).bind fun t => (scanFrom 0 (t ++ ['"', ','])).bind fun y =>
        if y.2 = [','] then some (String.ofList key, String.ofList y.1) else none := by
  have hend : e.decode [0x2C] = some [','] := by
    rw [Encoding.decode, Encoding.decodeFrom_cons, e.ascii _ _ (by decide)]
    rfl
  have hread : ∀ t : List Char, readMember ('"' :: (key ++ '"' :: ':' :: (gap ++ ['"'])) ++ (t ++ ['"', ','])) =
      (scanFrom 0 (t ++ ['"', ','])).bind fun y =>
        if y.2 = [','] then some (String.ofList key, String.ofList y.1) else none := by
    intro t
    rw [← readMember_eq (fun c hc => (hkey c hc).1) hgap]
    simp
  rw [readBytes, decode_ascii (ascii_member hkey hgap), Encoding.decode_append (by decide), hend, Option.map_bind,
    Option.bind_assoc]
  exact Option.bind_congr fun t _ => hread t

/-- What is read of the bytes of a member. -/
theorem readBytes_iff {key gap : List Char} (hkey : ∀ c ∈ key, Plain c ∧ c.toNat < 128)
    (hgap : gap = [] ∨ gap = [' ']) {k v : String} :
    readBytes e (('"' :: (key ++ '"' :: ':' :: (gap ++ ['"']))).map (fun c => c.toNat.toUInt8) ++
        ((N.map lowByte).takeWhile (· ≠ 0) ++ [0x22, 0x2C])) = some (k, v) ↔
      String.ofList key = k ∧ Written e N v.toList := by
  rw [readBytes_eq hkey hgap, Option.bind_eq_some_iff]
  constructor
  · rintro ⟨t, ht, h⟩
    obtain ⟨⟨value, rest⟩, hscan, h⟩ := Option.bind_eq_some_iff.1 h
    split at h
    · next hrest =>
      obtain ⟨rfl, rfl⟩ := Prod.mk.inj (Option.some.inj h)
      obtain rfl : rest = [','] := hrest
      refine ⟨rfl, t, ht, ?_⟩
      rw [hscan, String.toList_ofList]
    · cases h
  · rintro ⟨rfl, t, ht, hscan⟩
    refine ⟨t, ht, ?_⟩
    rw [hscan, Option.bind_some, if_pos rfl, String.ofList_toList]

end members

/-! ### Colons -/

section colons
variable {cs : List Char} {N : WString}

theorem eq_colon {c : Char} (h : 0x3A ∈ units c) : c = ':' := by
  rw [← Char.toNat_inj, toNat_of_units (eq_of_mem_units (by decide) h)]
  rfl

theorem utf16_eq_colon {us : WString} (h : utf16 cs = 0x3A :: us) : ∃ cs', cs = ':' :: cs' ∧ utf16 cs' = us := by
  cases cs with
  | nil => cases h
  | cons c cs =>
    obtain ⟨u, vs, hu⟩ := List.exists_cons_of_length_pos (length_units_pos c)
    rw [utf16_cons, hu, List.cons_append, List.cons.injEq] at h
    obtain ⟨rfl, h⟩ := h
    have hmem : 0x3A ∈ units c := by rw [hu]; exact List.mem_cons_self
    have hsingle := eq_of_mem_units (by decide) hmem
    rw [hu, List.cons.injEq] at hsingle
    rw [hsingle.2, List.nil_append] at h
    exact ⟨cs, by rw [eq_colon hmem], h⟩

/-- The units of a text have two colons in a row only where the text has. -/
theorem colons_utf16 : [0x3A, 0x3A] <:+: utf16 cs ↔ [':', ':'] <:+: cs := by
  constructor
  · rintro ⟨l, r, h⟩
    rw [List.append_assoc] at h
    induction cs generalizing l with
    | nil => simp at h
    | cons c cs ih =>
      rw [utf16_cons] at h
      rcases List.append_eq_append_iff.1 h with ⟨x, hx, hrest⟩ | ⟨x, -, hrest⟩
      · -- the first colon is in `c` or right after it
        cases x with
        | nil => exact (ih [] hrest).trans (List.suffix_cons c cs).isInfix
        | cons u x =>
          obtain ⟨rfl, htail⟩ := List.cons.inj hrest
          have hmem : 0x3A ∈ units c := by rw [hx]; simp
          have hsingle := eq_of_mem_units (by decide) hmem
          obtain rfl : x = [] := by
            have hlen := congrArg List.length (hx.symm.trans hsingle)
            rw [List.length_append, List.length_cons, List.length_singleton] at hlen
            exact List.eq_nil_of_length_eq_zero (by omega)
          obtain ⟨cs, rfl, -⟩ := utf16_eq_colon (show utf16 cs = 0x3A :: r from htail.symm)
          rw [eq_colon hmem]
          exact ⟨[], cs, rfl⟩
      · exact (ih x hrest.symm).trans (List.suffix_cons c cs).isInfix
  · rintro ⟨l, r, rfl⟩
    exact ⟨utf16 l, utf16 r, by simp; rfl⟩

theorem colons_parens (h : [0x3A, 0x3A] <:+: N ++ [0x28, 0x29]) : [0x3A, 0x3A] <:+: N := by
  have hlast : ∀ (l : WString) (u : UInt16), [0x3A, 0x3A] <:+ l ++ [u] → u = 0x3A := by
    rintro l u ⟨t, ht⟩
    have := congrArg List.getLast? ht
    simpa using this.symm
  rw [show N ++ [0x28, 0x29] = N ++ [0x28] ++ [0x29] by simp] at h
  rcases List.infix_concat_iff.1 h with h | h
  · exact absurd (hlast _ _ h) (by decide)
  rcases List.infix_concat_iff.1 h with h | h
  · exact absurd (hlast _ _ h) (by decide)
  · exact h

end colons

/-! ### The round trip -/

section names
variable {e : Encoding} {pointer : Nat → String}

/-- What is written of a function's name. -/
def fullName (typeName methodName : WString) : WString := typeName ++ [0x3A, 0x3A] ++ (methodName ++ [0x28, 0x29])

theorem functionBytes_eq (pointer : Nat → String) (f : FunctionID) (typeName methodName : WString) :
    FunctionInfo.bytes pointer ⟨getMethodName ⟨true, none, some typeName, some methodName⟩, f⟩ =
      ('"' :: ((pointer f).toList ++ '"' :: ':' :: ([' '] ++ ['"']))).map (fun c => c.toNat.toUInt8) ++
        (((fullName typeName methodName).map lowByte).takeWhile (· ≠ 0) ++ [0x22, 0x2C]) := by
  have hname : bytes (getMethodName ⟨true, none, some typeName, some methodName⟩) =
      (fullName typeName methodName).map lowByte := by
    show bytes (unicodeToAnsi typeName ++ "::" ++ unicodeToAnsi methodName ++ "()") = _
    rw [bytes_append, bytes_append, bytes_append, bytes_unicodeToAnsi, bytes_unicodeToAnsi, fullName, List.map_append,
      List.map_append, List.map_append, List.append_assoc _ _ (bytes "()")]
    rfl
  show (0x22 : UInt8) :: (bytes (pointer f) ++ 0x22 :: 0x3A :: 0x20 :: 0x22 :: (cString _ ++ [0x22, 0x2C])) = _
  rw [cString, hname, bytes, List.map_cons, List.map_append, List.cons_append, List.append_assoc]
  rfl

theorem objTypeBytes_eq (typeName : WString) : objTypeBytes (getTypeName (some typeName)) =
    ('"' :: ("objType".toList ++ '"' :: ':' :: ([] ++ ['"']))).map (fun c => c.toNat.toUInt8) ++
      ((typeName.map lowByte).takeWhile (· ≠ 0) ++ [0x22, 0x2C]) := by
  rw [← bytes_unicodeToAnsi]
  rfl

theorem typeKept_iff (e : Encoding) (typeName : WString) :
    TypeKept e typeName ↔ ∀ u ∈ typeName, Reads e u ∧ Printable u := by
  have hread : ∀ value, readBytes e (objTypeBytes (getTypeName (some typeName))) = some ("objType", value) ↔
      Written e typeName value.toList := by
    intro value
    have hkey : ∀ c ∈ "objType".toList, Plain c ∧ c.toNat < 128 := List.forall_iff_forall_mem.1 (by decide)
    rw [objTypeBytes_eq, readBytes_iff hkey (.inl rfl)]
    exact and_iff_right (String.ofList_toList)
  constructor
  · rintro ⟨value, hvalue, heq⟩
    exact ((hread value).1 hvalue).units heq
  · intro h
    obtain ⟨value, hvalue⟩ := exists_forall₂ fun u hu => (h u hu).1
    refine ⟨String.ofList value, (hread _).2 ?_, ?_⟩
    · rw [String.toList_ofList]
      exact written_of hvalue fun u hu => (h u hu).2
    · rw [String.toList_ofList, utf16_of hvalue]

theorem part_eq {value a : String} {i : Nat} :
    (part "::" i (some (.text value)) : Option (Cell Time)) = some (.text a) ↔
      (splitFrom [':', ':'] 0 [] value.toList)[i]? = some a.toList := by
  show ((splitFrom [':', ':'] 0 [] value.toList).map String.ofList)[i]?.map Cell.text = _ ↔ _
  rw [List.getElem?_map, Option.map_map, Option.map_eq_some_iff]
  constructor
  · rintro ⟨p, hp, heq⟩
    rw [hp, ← Cell.text.inj heq, String.toList_ofList]
  · intro h
    exact ⟨_, h, congrArg Cell.text String.ofList_toList⟩

/-- The first two parts, and what is left when there are more. -/
theorem parts_of {value a b : List Char} (ha : (splitFrom [':', ':'] 0 [] value)[0]? = some a)
    (hb : (splitFrom [':', ':'] 0 [] value)[1]? = some b) : ¬ [':', ':'] <:+: a ++ [':'] ∧
      ∃ more, value = a ++ [':', ':'] ++ (b ++ more) ∧ (more = [] → ¬ [':', ':'] <:+: b) := by
  obtain ⟨a', ⟨hs, -, -⟩ | ⟨rest, hs, rfl, hinf⟩⟩ := splitFrom_cases (by decide : [':', ':'] ≠ []) [] value
  · rw [hs] at hb
    cases hb
  rw [hs] at ha hb
  obtain rfl : a' = a := Option.some.inj ha
  refine ⟨hinf, ?_⟩
  obtain ⟨b', ⟨hs', rfl, hinf'⟩ | ⟨rest', hs', rfl, -⟩⟩ := splitFrom_cases (by decide : [':', ':'] ≠ []) [] rest
  · rw [hs'] at hb
    obtain rfl : rest = b := Option.some.inj hb
    exact ⟨[], by rw [List.append_nil], fun _ => hinf'⟩
  · rw [hs'] at hb
    obtain rfl : b' = b := Option.some.inj hb
    exact ⟨[':', ':'] ++ rest', by rw [List.append_assoc b'], fun h => by cases h⟩

theorem readBytes_function (hpointer : ∀ a, ∀ c ∈ (pointer a).toList, Plain c ∧ c.toNat < 128) (f : FunctionID)
    (typeName methodName : WString) (value : String) :
    readBytes e (FunctionInfo.bytes pointer ⟨getMethodName ⟨true, none, some typeName, some methodName⟩, f⟩) =
      some (pointer f, value) ↔ Written e (fullName typeName methodName) value.toList := by
  rw [functionBytes_eq, readBytes_iff (hpointer f) (.inr rfl)]
  exact and_iff_right String.ofList_toList

/-- A name that comes back has units that stand for themselves and no other colons in a row. -/
theorem NameKept.separate (hpointer : ∀ a, ∀ c ∈ (pointer a).toList, Plain c ∧ c.toNat < 128) {f : FunctionID}
    {typeName methodName : WString} (h : NameKept e pointer f typeName methodName) :
    (∀ u ∈ typeName ++ methodName, Reads e u ∧ Printable u) ∧ ¬ [0x3A, 0x3A] <:+: typeName ++ [0x3A] ∧
      ¬ [0x3A, 0x3A] <:+: methodName := by
  obtain ⟨value, className, function, hvalue, hclass, hfunction, rfl, hmethod⟩ := h
  have hwritten := (readBytes_function hpointer f _ methodName value).1 hvalue
  obtain ⟨hcolon, more, hsplit, hlast⟩ := parts_of (part_eq.1 hclass) (part_eq.1 hfunction)
  have hvalue : utf16 value.toList = fullName (utf16 className.toList) methodName ++ utf16 more := by
    rw [hsplit, utf16_append, utf16_append, utf16_append, hmethod, fullName, ← List.append_assoc]
    rfl
  -- nothing is left after the second part, for what is read is no longer than what was written
  obtain rfl : more = [] := by
    have hle := hwritten.length_le
    have hmore := length_le_utf16 more
    rw [hvalue, List.length_append] at hle
    exact List.eq_nil_of_length_eq_zero (by omega)
  have hall := hwritten.units (hvalue.trans (List.append_nil _))
  refine ⟨fun u hu => hall u ?_, fun h => hcolon ?_, fun h => hlast rfl ?_⟩
  · rw [fullName]
    simp only [List.mem_append] at hu ⊢
    exact hu.elim (fun h => .inl (.inl h)) fun h => .inr (.inl h)
  · rw [← colons_utf16, utf16_append]
    exact h
  · rw [← colons_utf16, hmethod]
    exact h.trans List.infix_append_left

theorem printable_fullName {typeName methodName : WString} (h : ∀ u ∈ typeName ++ methodName, Printable u) :
    ∀ u ∈ fullName typeName methodName, Printable u := by
  intro u hu
  simp only [fullName, List.mem_append] at hu
  rcases hu with (hu | hu) | (hu | hu)
  · exact h u (List.mem_append_left _ hu)
  · exact List.forall_iff_forall_mem.1 (by decide : [0x3A, 0x3A].Forall Printable) u hu
  · exact h u (List.mem_append_right _ hu)
  · exact List.forall_iff_forall_mem.1 (by decide : [0x28, 0x29].Forall Printable) u hu

/-- The split of a full name, when there are no other colons in a row. -/
theorem splitFrom_fullName {a b : List Char} (ha : ¬ [0x3A, 0x3A] <:+: utf16 a ++ [0x3A])
    (hb : ¬ [0x3A, 0x3A] <:+: utf16 b) :
    splitFrom [':', ':'] 0 [] (a ++ [':', ':'] ++ (b ++ ['(', ')'])) = [a, b ++ ['(', ')']] := by
  rw [splitFrom_append (by decide), splitFrom_self]
  · rfl
  · intro h
    rw [← colons_utf16, utf16_append] at h
    exact hb (colons_parens h)
  · intro h
    rw [← colons_utf16, utf16_append] at h
    exact ha h

theorem NameKept.of_separate (hpointer : ∀ a, ∀ c ∈ (pointer a).toList, Plain c ∧ c.toNat < 128) (f : FunctionID)
    {typeName methodName : WString} (hall : ∀ u ∈ typeName ++ methodName, Reads e u ∧ Printable u)
    (hclass : ¬ [0x3A, 0x3A] <:+: typeName ++ [0x3A]) (hmethod : ¬ [0x3A, 0x3A] <:+: methodName) :
    NameKept e pointer f typeName methodName := by
  obtain ⟨a, ha⟩ := exists_forall₂ fun u hu => (hall u (List.mem_append_left _ hu)).1
  obtain ⟨b, hb⟩ := exists_forall₂ fun u hu => (hall u (List.mem_append_right _ hu)).1
  have hcolons := forall₂_ascii e [':', ':'] (List.forall_iff_forall_mem.1 (by decide))
  have hparens := forall₂_ascii e ['(', ')'] (List.forall_iff_forall_mem.1 (by decide))
  have hname : List.Forall₂ (ReadsAs e) (fullName typeName methodName) (a ++ [':', ':'] ++ (b ++ ['(', ')'])) :=
    List.rel_append (List.rel_append ha hcolons) (List.rel_append hb hparens)
  have hsplit := splitFrom_fullName (a := a) (b := b) (by rwa [utf16_of ha]) (by rwa [utf16_of hb])
  refine ⟨String.ofList (a ++ [':', ':'] ++ (b ++ ['(', ')'])), String.ofList a, String.ofList (b ++ ['(', ')']),
    (readBytes_function hpointer f _ _ _).2 ?_, part_eq.2 ?_, part_eq.2 ?_, ?_, ?_⟩
  · rw [String.toList_ofList]
    exact written_of hname (printable_fullName fun u hu => (hall u hu).2)
  · rw [String.toList_ofList, String.toList_ofList, hsplit]
    rfl
  · rw [String.toList_ofList, String.toList_ofList, hsplit]
    rfl
  · rw [String.toList_ofList, utf16_of ha]
  · rw [String.toList_ofList, utf16_append, utf16_of hb]
    rfl

/-- A name comes back exactly when every unit stands for itself and the first two colons in a row are
those between the type and the method, with no others after them. -/
theorem names_kept_iff (e : Encoding) (hpointer : ∀ a, ∀ c ∈ (pointer a).toList, Plain c ∧ c.toNat < 128)
    (f : FunctionID) (typeName methodName : WString) :
    (NameKept e pointer f typeName methodName ∧ TypeKept e typeName ↔
      (∀ u ∈ typeName ++ methodName, Reads e u ∧ Printable u) ∧ ¬ [0x3A, 0x3A] <:+: typeName ++ [0x3A] ∧
        ¬ [0x3A, 0x3A] <:+: methodName) ∧
      (TypeKept e typeName ↔ ∀ u ∈ typeName, Reads e u ∧ Printable u) := by
  refine ⟨?_, typeKept_iff e typeName⟩
  constructor
  · rintro ⟨hname, -⟩
    exact hname.separate hpointer
  · rintro ⟨hall, hclass, hmethod⟩
    exact ⟨.of_separate hpointer f hall hclass hmethod,
      (typeKept_iff e typeName).2 fun u hu => hall u (List.mem_append_left _ hu)⟩

end names

/-- In UTF-8 these are the ASCII units. -/
theorem reads_utf8 {u : UInt16} : Reads .utf8 u ↔ u < 128 := by
  constructor
  · rintro ⟨c, hc, hu⟩
    rcases Encoding.utf8Next_cases hc with ⟨hlow, rfl, -⟩ | ⟨n, lead, least, htail, hn, -⟩
    · have hlt : (lowByte u).toNat < 128 := hlow
      have hvalid : (lowByte u).toNat.isValidChar := .inl (by omega)
      have htoNat := toNat_of_units hu
      rw [Char.ofNat, dif_pos hvalid] at htoNat
      show u.toNat < 128
      rw [← htoNat]
      exact hlt
    · have hzero := (Encoding.utf8Tail_some htail).1
      omega
  · intro h
    have hlt : u.toNat < 128 := h
    have hvalid : u.toNat.isValidChar := .inl (by omega)
    have htoNat : (Char.ofNat u.toNat).toNat = u.toNat := by
      rw [Char.ofNat, dif_pos hvalid]
      rfl
    have hone := forall₂_ascii .utf8 [Char.ofNat u.toNat] fun c hc => by
      rw [List.mem_singleton.1 hc, htoNat]
      exact hlt
    have hunits : units (Char.ofNat u.toNat) = [u] := by
      rw [units_of_lt (by omega), htoNat]
      exact congrArg (fun x => [x]) UInt16.ofNat_toNat
    rw [utf16_cons, utf16_nil, hunits] at hone
    cases hone with
    | cons hu _ => exact ⟨_, hu⟩

theorem repr_plain (a : Nat) : ∀ c ∈ a.repr.toList, Plain c ∧ c.toNat < 128 := by
  intro c hc
  rw [Nat.toList_repr] at hc
  have hdigit := Nat.isDigit_of_mem_toDigits (by decide) (by decide) hc
  obtain ⟨hlow, hhigh⟩ : 48 ≤ c.toNat ∧ c.toNat ≤ 57 := Char.isDigit_iff_toNat.1 hdigit
  refine ⟨⟨?_, ?_, fun hlt => ?_⟩, by omega⟩
  · rintro rfl
    exact absurd hlow (by decide)
  · rintro rfl
    exact absurd hhigh (by decide)
  · have hlt : c.toNat < 32 := hlt
    omega

/-- `Shop.say "hi"` -/
def quoted : WString × WString := ([0x53, 0x68, 0x6F, 0x70], [0x73, 0x61, 0x79, 0x20, 0x22, 0x68, 0x69, 0x22])

theorem names_kept_iff_quoted :
    (NameKept .utf8 Nat.repr 7 quoted.1 quoted.2 ∧ TypeKept .utf8 quoted.1 ↔
      (∀ u ∈ quoted.1 ++ quoted.2, Reads .utf8 u ∧ Printable u) ∧ ¬ [0x3A, 0x3A] <:+: quoted.1 ++ [0x3A] ∧
        ¬ [0x3A, 0x3A] <:+: quoted.2) ∧
      (TypeKept .utf8 quoted.1 ↔ ∀ u ∈ quoted.1, Reads .utf8 u ∧ Printable u) :=
  names_kept_iff .utf8 repr_plain 7 quoted.1 quoted.2

/-- The quotation mark ends the string. -/
theorem quoted_not_kept : ¬ (NameKept .utf8 Nat.repr 7 quoted.1 quoted.2 ∧ TypeKept .utf8 quoted.1) := by
  rintro ⟨⟨value, className, function, hvalue, -⟩, -⟩
  obtain ⟨t, ht, hscan⟩ := (readBytes_function repr_plain 7 quoted.1 quoted.2 value).1 hvalue
  have hdecode : Encoding.utf8.decode (((fullName quoted.1 quoted.2).map lowByte).takeWhile (· ≠ 0)) =
      some "Shop::say \"hi\"()".toList := by decide
  obtain rfl := Option.some.inj (hdecode.symm.trans ht)
  have hmark : scanFrom 0 ("Shop::say \"hi\"()".toList ++ ['"', ',']) =
      some ("Shop::say ".toList, "hi\"()\",".toList) := by decide
  have hrest : "hi\"()\",".toList = [','] := congrArg Prod.snd (Option.some.inj (hmark.symm.trans hscan))
  exact absurd hrest (by decide)

end Perun
