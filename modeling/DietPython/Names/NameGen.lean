import DietPython.Blocks.Basic
import DietPython.Counters.Ids
import DietPython.Lib.Transducer
import Mathlib.Data.List.Nodup

/-!
# Names that are handed out

Every compile session has a number, a module's generator numbers the functions of its session, and
a function's generator numbers the blocks and the temporaries of that function. Handles are shared:
what counts is the state behind them. The counters are atomic integers, which wrap around.

As long as no counter wraps around and a session compiles one module, no function id, no label of a
function and no temporary is handed out twice, no function has the global id, and no label is the
one that stands for falling through. The text of a temporary has its prefix in front of three
numbers, so it can be read from its end.
-/

namespace DietPython.Names

open Counters (FunctionId)
open Blocks (BlockLabel)
open Transducers

/-! ## Generators -/

/-- `FunctionNameGenState` -/
structure FunctionNameGen where
  functionId : FunctionId
  /-- The requests for a block. The counter is this number modulo `2 ^ 64`. -/
  nextBlockId : ℕ
  nextTmpId : ℕ

/-- `ModuleNameGen` -/
structure ModuleNameGen where
  moduleId : UInt32
  /-- The requests so far. The counter is this number modulo `2 ^ 32`. -/
  state : ℕ

/-- The generators of a process. -/
structure NameGens where
  /-- The sessions so far. `NEXT_COMPILE_SESSION_ID` starts at `1`. -/
  sessions : ℕ
  modules : List ModuleNameGen
  functions : List FunctionNameGen

inductive NameRequest
  /-- `CompileSession::new` -/
  | session
  /-- `CompileSession::genname_gen` of a session. -/
  | moduleNameGen (session : ℕ)
  | nextFunctionNameGen (m : ℕ)
  | nextBlockName (f : ℕ)
  | nextTmpName (f : ℕ) (pre : String)

inductive Issued
  | session (id : UInt32)
  | moduleNameGen (m : ℕ)
  | function (f : ℕ) (id : FunctionId)
  | block (f : ℕ) (label : BlockLabel)
  | tmp (name : String)
  /-- `block label usize should fit in u32` -/
  | panics
  /-- There is no such generator. -/
  | absent

/-- `allocate_compile_session_id`, after this many of them. -/
def sessionId (session : ℕ) : UInt32 := UInt32.ofNat (1 + session)

/-- `BlockLabel::from_index` -/
def fromIndex (value : ℕ) : Option BlockLabel := if value < 4294967296 then some value else none

/-- `_dp_{prefix}_{module}_{function}_{number}` -/
def tmpName (id : FunctionId) (pre : String) (current : ℕ) : String :=
  s!"_dp_{pre}_{id.moduleId}_{id.functionId}_{current}"

namespace NameGens

def new : NameGens := ⟨0, [], []⟩

def setFunction (g : NameGens) (f : ℕ) (function : FunctionNameGen) : NameGens :=
  { g with functions := g.functions.set f function }

def step (g : NameGens) : NameRequest → NameGens × Issued
  | .session => ({ g with sessions := g.sessions + 1 }, .session (sessionId g.sessions))
  | .moduleNameGen session =>
    if session < g.sessions then
      ({ g with modules := g.modules ++ [⟨sessionId session, 0⟩] }, .moduleNameGen g.modules.length)
    else (g, .absent)
  | .nextFunctionNameGen m =>
    match g.modules[m]? with
    | none => (g, .absent)
    | some gen =>
      let id := FunctionId.new gen.moduleId (UInt32.ofNat gen.state)
      (⟨g.sessions, g.modules.set m { gen with state := gen.state + 1 },
          g.functions ++ [⟨id, 0, 0⟩]⟩,
        .function g.functions.length id)
  | .nextBlockName f =>
    match g.functions[f]? with
    | none => (g, .absent)
    | some function =>
      (g.setFunction f { function with nextBlockId := function.nextBlockId + 1 },
        match fromIndex (function.nextBlockId % 18446744073709551616) with
        | some label => .block f label
        | none => .panics)
  | .nextTmpName f pre =>
    match g.functions[f]? with
    | none => (g, .absent)
    | some function =>
      (g.setFunction f { function with nextTmpId := function.nextTmpId + 1 },
        .tmp (tmpName function.functionId pre (function.nextTmpId % 18446744073709551616)))

def machine : Transducer NameGens NameRequest Issued := ⟨step⟩

/-- No counter wraps around, and a session makes one generator. -/
def Room (g : NameGens) : NameRequest → Prop
  | .session => g.sessions < 4294967295
  | .moduleNameGen session => ∀ m ∈ g.modules, m.moduleId ≠ sessionId session
  | .nextFunctionNameGen m => ∀ gen ∈ g.modules[m]?, gen.state < 4294967296
  | .nextBlockName f => ∀ function ∈ g.functions[f]?, function.nextBlockId < 4294967295
  | .nextTmpName f _ => ∀ function ∈ g.functions[f]?, function.nextTmpId < 18446744073709551616

instance (g : NameGens) : ∀ request, Decidable (g.Room request)
  | .session => inferInstanceAs (Decidable (g.sessions < 4294967295))
  | .moduleNameGen session =>
    inferInstanceAs (Decidable (∀ m ∈ g.modules, m.moduleId ≠ sessionId session))
  | .nextFunctionNameGen m =>
    inferInstanceAs (Decidable (∀ gen ∈ g.modules[m]?, gen.state < 4294967296))
  | .nextBlockName f =>
    inferInstanceAs (Decidable (∀ function ∈ g.functions[f]?, function.nextBlockId < 4294967295))
  | .nextTmpName f _ => inferInstanceAs
    (Decidable (∀ function ∈ g.functions[f]?, function.nextTmpId < 18446744073709551616))

end NameGens

/-! ## The texts of names -/

theorem toNat_new (m f : UInt32) :
    (FunctionId.new m f).packed.toNat = m.toNat * 4294967296 + f.toNat := by
  have hm := m.toNat_lt
  have hf := f.toNat_lt
  show (m.toUInt64 <<< 32 ||| f.toUInt64).toNat = _
  rw [UInt64.toNat_or, UInt64.toNat_shiftLeft]
  show (m.toNat <<< (32 % 64)) % 2 ^ 64 ||| f.toNat = _
  have hlt : m.toNat <<< 32 < 2 ^ 64 := by
    rw [Nat.shiftLeft_eq]
    omega
  rw [Nat.mod_eq_of_lt hlt, ← Nat.shiftLeft_add_eq_or_of_lt hf,
    Nat.shiftLeft_eq]

/-- The halves of a function id are read back. -/
theorem moduleId_new (m f : UInt32) : (FunctionId.new m f).moduleId = m.toNat := by
  have hf := f.toNat_lt
  unfold FunctionId.moduleId
  rw [toNat_new]
  omega

theorem functionId_new (m f : UInt32) : (FunctionId.new m f).functionId = f.toNat := by
  have hf := f.toNat_lt
  unfold FunctionId.functionId
  rw [toNat_new]
  omega

theorem functionId_ext {id id' : FunctionId} (hm : id.moduleId = id'.moduleId)
    (hf : id.functionId = id'.functionId) : id = id' := by
  obtain ⟨packed⟩ := id
  obtain ⟨packed'⟩ := id'
  unfold FunctionId.moduleId at hm
  unfold FunctionId.functionId at hf
  have h : packed.toNat = packed'.toNat := by
    dsimp only at hm hf
    omega
  rw [UInt64.toNat_inj.mp h]

/-- Two texts that end in a number behind an underscore. -/
theorem append_number_inj {cs cs' : List Char} {n n' : ℕ}
    (h : cs ++ '_' :: Nat.toDigits 10 n = cs' ++ '_' :: Nat.toDigits 10 n') :
    cs = cs' ∧ n = n' := by
  have hd : ∀ {cs cs' ds ds' : List Char}, '_' ∉ ds → '_' ∉ ds' →
      cs ++ '_' :: ds = cs' ++ '_' :: ds' → cs = cs' ∧ ds = ds' := by
    intro cs cs' ds ds' hds hds' h
    rcases List.append_eq_append_iff.mp h with ⟨as, rfl, has⟩ | ⟨as, rfl, has⟩
    · cases as with
      | nil => exact ⟨(List.append_nil _).symm, (List.cons.inj has).2⟩
      | cons a as =>
        obtain ⟨-, rfl⟩ := List.cons.inj has
        exact absurd (List.mem_append_right _ (List.mem_cons_self ..)) hds
    · cases as with
      | nil => exact ⟨List.append_nil _, (List.cons.inj has).2.symm⟩
      | cons a as =>
        obtain ⟨-, rfl⟩ := List.cons.inj has
        exact absurd (List.mem_append_right _ (List.mem_cons_self ..)) hds'
  obtain ⟨hcs, hn⟩ := hd Nat.underscore_not_in_toDigits Nat.underscore_not_in_toDigits h
  refine ⟨hcs, ?_⟩
  rw [← Nat.ofDigitChars_ten_toDigits (n := n), hn, Nat.ofDigitChars_ten_toDigits]

theorem toList_tmpName (id : FunctionId) (pre : String) (current : ℕ) :
    (tmpName id pre current).toList =
      (("_dp_".toList ++ pre.toList ++ '_' :: Nat.toDigits 10 id.moduleId) ++
        '_' :: Nat.toDigits 10 id.functionId) ++ '_' :: Nat.toDigits 10 current := by
  have hu : (toString "_").toList = ['_'] := rfl
  have hs : ∀ s : String, (toString s).toList = s.toList := fun _ => rfl
  unfold tmpName
  simp [Nat.toList_repr, hs]

/-- A temporary tells its prefix, its function and its number. -/
theorem tmpName_inj {id id' : FunctionId} {pre pre' : String} {n n' : ℕ} :
    tmpName id pre n = tmpName id' pre' n' ↔ id = id' ∧ pre = pre' ∧ n = n' := by
  constructor
  · intro h
    have hl := congrArg String.toList h
    rw [toList_tmpName, toList_tmpName] at hl
    obtain ⟨hl, hn⟩ := append_number_inj hl
    obtain ⟨hl, hf⟩ := append_number_inj hl
    obtain ⟨hl, hm⟩ := append_number_inj hl
    exact ⟨functionId_ext hm hf, String.toList_inj.mp (List.append_cancel_left hl), hn⟩
  · rintro ⟨rfl, rfl, rfl⟩
    rfl

end DietPython.Names
