import PerunProfiler.Names

/-!
# The assemblies that are traced

The constructor splits `PROFILER_ENABLE_ASSEMBLIES` at every `;`, and `Mapper` looks for each part in
the name of the assembly, narrowed to bytes. An empty part, as a `;` at the end leaves one, is found
in every name.
-/

namespace Perun
open Lib

/-! ### Bytes -/

/-- A byte of a `std::string`. -/
def byteChar (b : UInt8) : Char := Char.ofNat b.toNat

/-- The `std::string` of some bytes. -/
def ansi (bs : List UInt8) : String := String.ofList (bs.map byteChar)

theorem toNat_byteChar (b : UInt8) : (byteChar b).toNat = b.toNat := by
  have hlt := b.toNat_lt
  have hvalid : b.toNat.isValidChar := .inl (by omega)
  rw [byteChar, Char.ofNat, dif_pos hvalid]
  rfl

theorem byteChar_injective : Function.Injective byteChar := by
  intro a b h
  rw [← UInt8.toNat_inj, ← toNat_byteChar, h, toNat_byteChar]

theorem unicodeToAnsi_eq (str : WString) : unicodeToAnsi str = ansi (str.map lowByte) := by
  rw [unicodeToAnsi, ansi, List.map_map]
  congr 1
  refine List.map_congr_left fun u _ => ?_
  have hbyte : (lowByte u).toNat = u.toNat % 256 := by
    rw [lowByte, Nat.toUInt8, UInt8.toNat_ofNat']
    omega
  rw [Function.comp_apply, byteChar, hbyte]

theorem infix_map_injective {α β : Type} {f : α → β} (hf : Function.Injective f) {l m : List α} :
    l.map f <:+: m.map f ↔ l <:+: m := by
  rw [List.infix_map_iff]
  constructor
  · rintro ⟨l', hinf, heq⟩
    rwa [List.map_injective_iff.2 hf heq]
  · exact fun h => ⟨l, h, rfl⟩

theorem occursIn_ansi {a b : List UInt8} : occursIn (ansi a) (ansi b) = true ↔ a <:+: b := by
  rw [occursIn, decide_eq_true_eq, ansi, ansi, String.toList_ofList, String.toList_ofList]
  exact infix_map_injective byteChar_injective

/-! ### The parser -/

/-- The parts between the separators. -/
def segments (S : List UInt8) : List (List UInt8) := S.splitOn (';'.toNat.toUInt8)

theorem byteChar_eq_separator {b : UInt8} : byteChar b = ';' ↔ b = ';'.toNat.toUInt8 := by
  rw [← byteChar_injective.eq_iff]
  rfl

/-- What `find` and `substr` take off the front. -/
theorem split_at_separator {S : List UInt8} {pos : Nat} (h : (S.map byteChar).findIdx? (· = ';') = some pos) :
    segments S = S.take pos :: segments (S.drop (pos + 1)) ∧ (S.drop (pos + 1)).length < S.length := by
  rw [List.findIdx?_eq_some_iff_getElem] at h
  obtain ⟨hpos, hsep, hfirst⟩ := h
  rw [List.length_map] at hpos
  have hchar : S[pos] = ';'.toNat.toUInt8 := by simpa [byteChar_eq_separator] using hsep
  have hno : ';'.toNat.toUInt8 ∉ S.take pos := by
    intro hmem
    obtain ⟨j, hj, heq⟩ := List.mem_take_iff_getElem.1 hmem
    have hlt : j < pos := (Nat.lt_min.1 hj).1
    have hnot := hfirst j hlt
    simp [byteChar_eq_separator, heq] at hnot
  have hS : S = S.take pos ++ ';'.toNat.toUInt8 :: S.drop (pos + 1) := by
    rw [← hchar, List.getElem_cons_drop, List.take_append_drop]
  refine ⟨?_, ?_⟩
  · conv_lhs => rw [segments, hS]
    exact List.splitOn_append_cons_self_of_not_mem hno _
  · rw [List.length_drop]
    omega

/-- The loop ends, with the parts in order. -/
theorem splitLoop_segments {fuel : Nat} {S : List UInt8} (h : S.length < fuel) :
    splitLoop fuel (S.map byteChar) = some ((segments S).map ansi) := by
  induction fuel generalizing S with
  | zero => exact absurd h (Nat.not_lt_zero _)
  | succ fuel ih =>
    rw [splitLoop]
    cases hpos : (S.map byteChar).findIdx? (· = ';') with
    | none =>
      have hno : ';'.toNat.toUInt8 ∉ S := by
        intro hmem
        have hnone := List.findIdx?_eq_none_iff.1 hpos (byteChar _) (List.mem_map_of_mem hmem)
        simp [byteChar_eq_separator] at hnone
      rw [segments, List.splitOn_eq_singleton hno]
      rfl
    | some pos =>
      obtain ⟨hsegments, hlen⟩ := split_at_separator hpos
      simp only
      rw [← List.map_drop, ← List.map_take, ih (by omega), hsegments]
      rfl

/-! ### The test -/

/-- The part stands in the name as it is. -/
def Occurs (segment : List UInt8) (name : WString) : Prop := segment.map UInt8.toUInt16 <:+: name

theorem Occurs.narrowed {segment : List UInt8} {name : WString} (h : Occurs segment name) :
    segment <:+: name.map lowByte := by
  have hmap := List.IsInfix.map lowByte h
  have hbytes : (segment.map UInt8.toUInt16).map lowByte = segment := by
    rw [List.map_map]
    refine (List.map_congr_left fun b _ => ?_).trans (List.map_id _)
    have hlt := b.toNat_lt
    rw [Function.comp_apply, id_eq, ← UInt8.toNat_inj, lowByte, Nat.toUInt8, UInt8.toNat_ofNat', UInt8.toNat_toUInt16]
    omega
  rwa [hbytes] at hmap

/-- The list that the constructor made is the one of every state after it. -/
theorem run_listOfAllowedAssemblies {c : Config} {es : List Callback} {s : CoreProfiler}
    (h : run step c.start es = .ok s) : s.listOfAllowedAssemblies = c.start.listOfAllowedAssemblies := by
  refine run_inv (P := fun s => s.listOfAllowedAssemblies = c.start.listOfAllowedAssemblies) rfl
    (fun s e s' hlist hs => ?_) h
  have hset := step_settings hs
  simp only [CoreProfiler.settings, Prod.mk.injEq] at hset
  exact hset.2.2.2.trans hlist

theorem start_listOfAllowedAssemblies {S : List UInt8} (hS : S ≠ []) {c : Config} (hc : c.enableAssemblies = ansi S) :
    c.start.listOfAllowedAssemblies = (segments S).map ansi := by
  have hne : ansi S ≠ "" := by
    intro h
    have hlist := congrArg String.toList h
    rw [ansi, String.toList_ofList] at hlist
    exact hS (List.map_eq_nil_iff.1 hlist)
  have hlen : (ansi S).length = S.length := by
    rw [ansi, String.length_ofList, List.length_map]
  simp only [Config.start, initializeProfiler, construct, hc]
  rw [if_pos hne, hlen, ansi, String.toList_ofList, splitLoop_segments (Nat.lt_succ_self _)]
  rfl

theorem allowedAssembly_segments {S : List UInt8} {name : WString} :
    allowedAssembly ((segments S).map ansi) name = true ↔ ∃ segment ∈ segments S, segment <:+: name.map lowByte := by
  have hne : (segments S).map ansi ≠ [] := fun h => List.splitOn_ne_nil _ _ (List.map_eq_nil_iff.1 h)
  rw [allowedAssembly, if_pos hne, unicodeToAnsi_eq, List.any_map, List.any_eq_true]
  simp only [Function.comp_apply, occursIn_ansi]

/-- The value of a variable that is set is read if it fits into the buffer of Windows. -/
theorem read_ansi {windows : Bool} {S : List UInt8} {text : String} :
    readEnvironmentVariable windows (some (ansi S)) = .ok text ↔ (windows = true → S.length < 1024) ∧ ansi S = text := by
  have hlen : (ansi S).length = S.length := by rw [ansi, String.length_ofList, List.length_map]
  rw [readEnvironmentVariable, hlen]
  split
  · next hlong => exact iff_of_false nofun fun hread => by have := hread.1 hlong.1; omega
  · next hfits =>
    rw [Except.ok.injEq, iff_and_self]
    intro _ hw
    have := mt (And.intro hw) hfits
    omega

/-- The constructor gets past the variables. It keeps the parts, and in every run `Mapper` traces the functions
of the assembly exactly if a part that is not empty occurs in its name. -/
def AllowsNamed (env : Environment) (S : List UInt8) (functionId : FunctionID) (m : FunctionMetadata) (name : WString) :
    Prop :=
  ∃ s₀, env.construct = .ok s₀ ∧ s₀.listOfAllowedAssemblies = (segments S).map ansi ∧
    ∀ os now es s, run step (initializeProfiler os now s₀) es = .ok s →
      ((mapper functionId m s).2 = true ↔ ∃ segment ∈ segments S, segment ≠ [] ∧ Occurs segment name)

/-- `Mapper` finds the parts in the narrowed name. -/
theorem mapper_segments {S : List UInt8} (hS : S ≠ []) {c : Config} (hc : c.enableAssemblies = ansi S)
    {es : List Callback} {s : CoreProfiler} (h : run step c.start es = .ok s) (functionId : FunctionID)
    {m : FunctionMetadata} (hinfo : m.functionInfo = true) {name : WString} (hname : m.assemblyName = some name) :
    (mapper functionId m s).2 = true ↔ ∃ segment ∈ segments S, segment <:+: name.map lowByte := by
  have hlist := (run_listOfAllowedAssemblies h).trans (start_listOfAllowedAssemblies hS hc)
  rw [← allowedAssembly_segments, mapper, if_pos hinfo, hname, hlist, Option.map_some, Option.getD_some]
  cases allowedAssembly ((segments S).map ansi) name <;> simp

theorem named_iff_narrowed {S : List UInt8} {name : WString} :
    ((∃ segment ∈ segments S, segment <:+: name.map lowByte) ↔
        ∃ segment ∈ segments S, segment ≠ [] ∧ Occurs segment name) ↔
      (∃ segment ∈ segments S, segment ≠ [] ∧ Occurs segment name) ∨
        ([] ∉ segments S ∧ ∀ segment ∈ segments S, ¬ segment <:+: name.map lowByte) := by
  constructor
  · intro hiff
    by_cases hocc : ∃ segment ∈ segments S, segment ≠ [] ∧ Occurs segment name
    · exact .inl hocc
    · have hnone := mt hiff.1 hocc
      refine .inr ⟨fun hnil => hnone ⟨[], hnil, List.nil_infix⟩, fun segment hmem hinf => hnone ⟨segment, hmem, hinf⟩⟩
  · rintro (⟨segment, hmem, hno, hocc⟩ | ⟨-, hnone⟩)
    · exact iff_of_true ⟨segment, hmem, hocc.narrowed⟩ ⟨segment, hmem, hno, hocc⟩
    · refine iff_of_false ?_ ?_
      · rintro ⟨segment, hmem, hinf⟩
        exact hnone segment hmem hinf
      · rintro ⟨segment, hmem, -, hocc⟩
        exact hnone segment hmem hocc.narrowed

/-- The constructor splits what it reads of the variable into its parts. `Mapper` traces the functions of
the assemblies with a part in their name, exactly if the variables can be read, and then for the names that
have one as it is, and for those that have none even when narrowed, if no part is empty. -/
theorem allowList_iff {S : List UInt8} (hS : ∃ segment ∈ segments S, segment ≠ []) {env : Environment}
    (henv : env.enableAssemblies = some (ansi S)) (functionId : FunctionID) {m : FunctionMetadata}
    (hinfo : m.functionInfo = true) {name : WString} (hname : m.assemblyName = some name) :
    (∀ fuel, S.length < fuel → splitLoop fuel (ansi S).toList = some ((segments S).map ansi)) ∧
      (∀ s₀, env.construct = .ok s₀ → s₀.listOfAllowedAssemblies = (segments S).map ansi) ∧
      (AllowsNamed env S functionId m name ↔
        (env.windows = true → S.length < 1024) ∧
        (∃ enableDealloc, readEnvironmentVariable env.windows env.enableDealloc = .ok enableDealloc) ∧
        ((∃ segment ∈ segments S, segment ≠ [] ∧ Occurs segment name) ∨
          ([] ∉ segments S ∧ ∀ segment ∈ segments S, ¬ segment <:+: name.map lowByte))) := by
  have hne : S ≠ [] := by
    rintro rfl
    obtain ⟨segment, hmem, hno⟩ := hS
    exact hno (List.mem_singleton.1 hmem)
  have hconstruct : ∀ {s₀}, env.construct = .ok s₀ ↔ (env.windows = true → S.length < 1024) ∧
      ∃ enableDealloc, readEnvironmentVariable env.windows env.enableDealloc = .ok enableDealloc ∧
        s₀ = construct (ansi S) enableDealloc := by
    intro s₀
    rw [Environment.construct_ok, henv]
    simp only [read_ansi]
    constructor
    · rintro ⟨_, enableDealloc, ⟨hfits, rfl⟩, hdealloc, rfl⟩
      exact ⟨hfits, enableDealloc, hdealloc, rfl⟩
    · rintro ⟨hfits, enableDealloc, hdealloc, rfl⟩
      exact ⟨_, enableDealloc, ⟨hfits, rfl⟩, hdealloc, rfl⟩
  have hlist : ∀ s₀, env.construct = .ok s₀ → s₀.listOfAllowedAssemblies = (segments S).map ansi := by
    intro s₀ h
    obtain ⟨-, enableDealloc, -, rfl⟩ := hconstruct.1 h
    exact start_listOfAllowedAssemblies hne (c := ⟨ansi S, enableDealloc, ⟨0, 0⟩, ⟨0, 0⟩⟩) rfl
  refine ⟨fun fuel hfuel => ?_, hlist, ?_⟩
  · rw [ansi, String.toList_ofList]
    exact splitLoop_segments hfuel
  constructor
  · rintro ⟨s₀, h, -, hall⟩
    obtain ⟨hfits, enableDealloc, hdealloc, rfl⟩ := hconstruct.1 h
    have hmapper := mapper_segments hne (c := ⟨ansi S, enableDealloc, ⟨0, 0⟩, ⟨0, 0⟩⟩) rfl
      (show run step (Config.start _) [] = .ok _ from rfl) functionId hinfo hname
    exact ⟨hfits, ⟨enableDealloc, hdealloc⟩, named_iff_narrowed.1 (hmapper.symm.trans (hall _ _ [] _ rfl))⟩
  · rintro ⟨hfits, ⟨enableDealloc, hdealloc⟩, hcond⟩
    have h := hconstruct.2 ⟨hfits, enableDealloc, hdealloc, rfl⟩
    refine ⟨_, h, hlist _ h, fun os now es s hs => ?_⟩
    have hmapper := mapper_segments hne (c := ⟨ansi S, enableDealloc, os, now⟩) rfl hs functionId hinfo hname
    exact hmapper.trans (named_iff_narrowed.2 hcond)

/-- An environment that names one assembly and ends the list with a separator. -/
def Environment.shopOnly : Environment := ⟨true, some "Shop;", none⟩

/-- `Mapper` on a function of an assembly. -/
def FunctionMetadata.ofAssembly (name : String) : FunctionMetadata := ⟨true, some (utf16 name.toList), none, none⟩

theorem allowList_iff_shop :
    (∀ fuel, (bytes "Shop;").length < fuel →
        splitLoop fuel (ansi (bytes "Shop;")).toList = some ((segments (bytes "Shop;")).map ansi)) ∧
      (∀ s₀, Environment.shopOnly.construct = .ok s₀ →
        s₀.listOfAllowedAssemblies = (segments (bytes "Shop;")).map ansi) ∧
      (AllowsNamed .shopOnly (bytes "Shop;") 7 (.ofAssembly "MyShop") (utf16 "MyShop".toList) ↔
        (Environment.shopOnly.windows = true → (bytes "Shop;").length < 1024) ∧
        (∃ enableDealloc, readEnvironmentVariable Environment.shopOnly.windows Environment.shopOnly.enableDealloc =
          .ok enableDealloc) ∧
        ((∃ segment ∈ segments (bytes "Shop;"), segment ≠ [] ∧ Occurs segment (utf16 "MyShop".toList)) ∨
          ([] ∉ segments (bytes "Shop;") ∧
            ∀ segment ∈ segments (bytes "Shop;"), ¬ segment <:+: (utf16 "MyShop".toList).map lowByte))) :=
  allowList_iff ⟨bytes "Shop", by decide, by decide⟩
    (show some "Shop;" = some (ansi (bytes "Shop;")) from by decide) 7 rfl rfl

/-- The empty part after the separator is found in the name of every assembly. -/
theorem other_traced :
    segments (bytes "Shop;") = [bytes "Shop", []] ∧ Environment.shopOnly.enableAssemblies = some (ansi (bytes "Shop;")) ∧
      (∃ s₀, Environment.shopOnly.construct = .ok s₀ ∧
        (mapper 7 (.ofAssembly "Other") (initializeProfiler ⟨1, 1⟩ ⟨0, 0⟩ s₀)).2 = true) ∧
      (¬ ∃ segment ∈ segments (bytes "Shop;"), segment ≠ [] ∧ Occurs segment (utf16 "Other".toList)) ∧
      ¬ AllowsNamed .shopOnly (bytes "Shop;") 7 (.ofAssembly "Other") (utf16 "Other".toList) := by
  have hsegments : segments (bytes "Shop;") = [bytes "Shop", []] := by decide
  have hnone : ¬ ∃ segment ∈ segments (bytes "Shop;"), segment ≠ [] ∧ Occurs segment (utf16 "Other".toList) := by
    rintro ⟨segment, hmem, hne, hocc⟩
    rw [hsegments, List.mem_cons, List.mem_singleton] at hmem
    rcases hmem with rfl | rfl
    · exact absurd hocc.narrowed (by decide)
    · exact hne rfl
  have htraced : ∀ s₀, Environment.shopOnly.construct = .ok s₀ →
      (mapper 7 (.ofAssembly "Other") (initializeProfiler ⟨1, 1⟩ ⟨0, 0⟩ s₀)).2 = true := by
    intro s₀ h
    obtain rfl := Except.ok.inj h
    decide
  refine ⟨hsegments, by decide, ⟨_, rfl, htraced _ rfl⟩, hnone, ?_⟩
  rintro ⟨s₀, h, -, hall⟩
  exact hnone ((hall ⟨1, 1⟩ ⟨0, 0⟩ [] _ rfl).1 (htraced s₀ h))

end Perun
