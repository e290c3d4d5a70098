import Mathlib.Data.List.Infix
import PerunProfiler.Lib.Map
import PerunProfiler.Logger

/-!
# The state of the profiler and its start

`CoreProfiler.h`, the constructor, `Initialize`, `Mapper` and `ClassLoadFinished`. What the runtime
and the metadata interfaces answer is an argument of the callback.
-/

namespace Perun
open Lib

/-- The members of `CoreProfiler` and the two globals, with the heaps of its records and the
messages written so far. -/
structure CoreProfiler where
  functionMap : Map (Option FunctionInfo)
  activeFunctionInThread : Map (Nat × Option Ptr)
  classes : Map String
  objectsAlloc : Map Ptr
  objectsDeAlloc : List Ptr
  listOfAllowedAssemblies : List String
  isDeallocEnable : Bool
  gcNumber : Nat
  functions : Heap FunctionClass
  objects : Heap ObjectClass
  log : List Message
  /-- `_info` has not been released -/
  info : Bool
  /-- `g_CoreProfiler` is not null -/
  gCoreProfiler : Bool
deriving DecidableEq

/-- A wide string of the runtime, without its terminator. -/
abbrev WString := List UInt16

/-- `OS::UnicodeToAnsi`: every unit is narrowed to one byte; a byte is shown as the character with
that code. -/
def unicodeToAnsi (str : WString) : String := String.ofList (str.map fun u => Char.ofNat (u.toNat % 256))

/-- The parser of enabled assemblies: `find`, `substr` and `erase` up to the last separator. `none`
if `fuel` rounds do not reach the end. -/
def splitLoop : Nat → List Char → Option (List String)
  | 0, _ => none
  | fuel + 1, allowedAssemblies =>
    match allowedAssemblies.findIdx? (· = ';') with
    | some pos =>
      (splitLoop fuel (allowedAssemblies.drop (pos + 1))).map (String.ofList (allowedAssemblies.take pos) :: ·)
    | none => some [String.ofList allowedAssemblies]

/-- What `OS::ReadEnvironmentVariable` does not return from with a value. -/
inductive EnvironmentFault where
  /-- a string is made of the null pointer -/
  | nullString
  /-- the content of the buffer is undefined -/
  | undefinedBuffer
deriving DecidableEq

/-- `OS::ReadEnvironmentVariable`: `_WINDOWS` reads into `char value[1024]`, the other systems make a string of
what `getenv` returns. -/
def readEnvironmentVariable (windows : Bool) : Option String → Except EnvironmentFault String
  | none => if windows then .ok "" else .error .nullString
  | some value => if windows ∧ 1024 ≤ value.length then .error .undefinedBuffer else .ok value

/-- The constructor, given the values of `PROFILER_ENABLE_ASSEMBLIES` and `PROFILER_ENABLE_DEALLOC`. -/
def construct (enableAssemblies enableDealloc : String) : CoreProfiler where
  functionMap := ∅
  activeFunctionInThread := ∅
  classes := ∅
  objectsAlloc := ∅
  objectsDeAlloc := []
  listOfAllowedAssemblies := if enableAssemblies ≠ "" then
      (splitLoop (enableAssemblies.length + 1) enableAssemblies.toList).getD []
    else []
  isDeallocEnable := enableDealloc = "1"
  gcNumber := 1
  functions := .empty
  objects := .empty
  log := []
  info := false
  gCoreProfiler := false

/-- The system and the variables that the constructor reads, none where a variable is not set. -/
structure Environment where
  windows : Bool
  enableAssemblies : Option String
  enableDealloc : Option String

/-- The constructor. -/
def Environment.construct (env : Environment) : Except EnvironmentFault CoreProfiler := do
  let enableAssemblies ← readEnvironmentVariable env.windows env.enableAssemblies
  let enableDealloc ← readEnvironmentVariable env.windows env.enableDealloc
  return Perun.construct enableAssemblies enableDealloc

theorem Environment.construct_ok {env : Environment} {s : CoreProfiler} : env.construct = .ok s ↔
    ∃ enableAssemblies enableDealloc, readEnvironmentVariable env.windows env.enableAssemblies = .ok enableAssemblies ∧
      readEnvironmentVariable env.windows env.enableDealloc = .ok enableDealloc ∧
      s = Perun.construct enableAssemblies enableDealloc := by
  unfold Environment.construct
  cases readEnvironmentVariable env.windows env.enableAssemblies with
  | error e => exact iff_of_false nofun fun ⟨_, _, h, _⟩ => nomatch h
  | ok enableAssemblies =>
    cases readEnvironmentVariable env.windows env.enableDealloc with
    | error e => exact iff_of_false nofun fun ⟨_, _, _, h, _⟩ => nomatch h
    | ok enableDealloc =>
      constructor
      · intro h
        exact ⟨_, _, rfl, rfl, (Except.ok.inj h).symm⟩
      · rintro ⟨_, _, ha, hd, rfl⟩
        cases ha
        cases hd
        rfl

structure Process where
  pid : Int
  tid : Int
deriving DecidableEq

/-- `Initialize`. The event mask only tells the runtime which callbacks to make. -/
def initializeProfiler (os : Process) (now : Clock) (s : CoreProfiler) : CoreProfiler :=
  { s with
    gCoreProfiler := true
    info := true
    log := s.log ++ [LOGInSh "\x7b\"ProfilerInitialize\":\x7b\"act\":\"initialize\",\"PID\":\"%d\",\"TID\":\"%d\",\"eWALLt\":\"%f\",\"eCPUt\":\"%f\"\x7d,"
      [.d os.pid, .d os.tid, .f now.wall, .f now.cpu]] }

/-- What the metadata interfaces say of a function: the calls that fail answer `none`. -/
structure FunctionMetadata where
  functionInfo : Bool
  assemblyName : Option WString
  typeDefProps : Option WString
  methodProps : Option WString
deriving DecidableEq

def getTypeName (typeDefProps : Option WString) : String :=
  match typeDefProps with
  | some name => unicodeToAnsi name
  | none => ""

def getMethodName (m : FunctionMetadata) : String :=
  if m.functionInfo then
    match m.methodProps with
    | some name => getTypeName m.typeDefProps ++ "::" ++ unicodeToAnsi name ++ "()"
    | none => ""
  else ""

/-- `text.find(pattern) != npos`. -/
def occursIn (pattern text : String) : Bool := pattern.toList <:+: text.toList

def allowedAssembly (listOfAllowedAssemblies : List String) (pszName : WString) : Bool :=
  if listOfAllowedAssemblies ≠ [] then
    listOfAllowedAssemblies.any fun allowed => occursIn allowed (unicodeToAnsi pszName)
  else
    !(occursIn "System" (unicodeToAnsi pszName) || occursIn "Internal" (unicodeToAnsi pszName))

/-- `Mapper`: the state after it and whether the function is traced. -/
def mapper (functionId : FunctionID) (m : FunctionMetadata) (s : CoreProfiler) : CoreProfiler × Bool :=
  if m.functionInfo then
    if (m.assemblyName.map (allowedAssembly s.listOfAllowedAssemblies)).getD true then
      -- `insert` keeps an entry that is there, a null one included
      ({ s with functionMap := s.functionMap.insertIfNew functionId (some ⟨getMethodName m, functionId⟩) }, true)
    else (s, false)
  else (s, false)

def mapper2 (functionId : FunctionID) (m : FunctionMetadata) (s : CoreProfiler) : Except Fault CoreProfiler :=
  if s.gCoreProfiler then
    if s.info then .ok (mapper functionId m s).1 else .error .releasedInfo
  else .ok s

def classLoadFinished (classId : ClassID) (classIDInfo : Bool) (typeDefProps : Option WString)
    (s : CoreProfiler) : Except Fault CoreProfiler :=
  if s.info then
    if classIDInfo && getTypeName typeDefProps ≠ "" then
      .ok { s with classes := s.classes.insert classId (getTypeName typeDefProps) }
    else .ok s
  else .error .releasedInfo

section cases
variable {functionId : FunctionID} {m : FunctionMetadata} {classId : ClassID} {classIDInfo : Bool}
  {typeDefProps : Option WString} {s s' : CoreProfiler}

theorem mapper2_cases (h : mapper2 functionId m s = .ok s') :
    s' = s ∨ s' = { s with
      functionMap := s.functionMap.insertIfNew functionId (some ⟨getMethodName m, functionId⟩) } := by
  unfold mapper2 mapper at h
  split at h
  · split at h
    · rw [← Except.ok.inj h]
      split
      · split
        · exact .inr rfl
        · exact .inl rfl
      · exact .inl rfl
    · cases h
  · exact .inl (Except.ok.inj h).symm

theorem classLoadFinished_cases (h : classLoadFinished classId classIDInfo typeDefProps s = .ok s') :
    s' = s ∨ s' = { s with classes := s.classes.insert classId (getTypeName typeDefProps) } := by
  unfold classLoadFinished at h
  split at h
  · split at h
    · exact .inr (Except.ok.inj h).symm
    · exact .inl (Except.ok.inj h).symm
  · cases h

end cases

end Perun
