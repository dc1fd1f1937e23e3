import DietPython.Names.NameGen

/-!
# No name twice

What the generators have handed out lies below their counters. So as long as there is room in the
counters, whatever is asked next is new.
-/

namespace DietPython.Names

open Counters (FunctionId)
open Blocks (BlockLabel)
open Transducers

/-! ## What has been handed out -/

def functionIds : List Issued → List FunctionId
  | [] => []
  | .function _ id :: issued => id :: functionIds issued
  | _ :: issued => functionIds issued

def blockLabels : List Issued → List (ℕ × BlockLabel)
  | [] => []
  | .block f label :: issued => (f, label) :: blockLabels issued
  | _ :: issued => blockLabels issued

def tmpNames : List Issued → List String
  | [] => []
  | .tmp name :: issued => name :: tmpNames issued
  | _ :: issued => tmpNames issued

theorem functionIds_append (issued more : List Issued) :
    functionIds (issued ++ more) = functionIds issued ++ functionIds more := by
  induction issued with
  | nil => rfl
  | cons i issued ih => cases i <;> simp [functionIds, ih]

theorem blockLabels_append (issued more : List Issued) :
    blockLabels (issued ++ more) = blockLabels issued ++ blockLabels more := by
  induction issued with
  | nil => rfl
  | cons i issued ih => cases i <;> simp [blockLabels, ih]

theorem tmpNames_append (issued more : List Issued) :
    tmpNames (issued ++ more) = tmpNames issued ++ tmpNames more := by
  induction issued with
  | nil => rfl
  | cons i issued ih => cases i <;> simp [tmpNames, ih]

structure AllDistinct (issued : List Issued) : Prop where
  functions : (functionIds issued).Nodup
  notGlobal : FunctionId.global ∉ functionIds issued
  blocks : (blockLabels issued).Nodup
  notFallthrough : ∀ b ∈ blockLabels issued, b.2.isFallthrough = false
  tmps : (tmpNames issued).Nodup
  noPanic : Issued.panics ∉ issued

/-! ## Counters -/

theorem mem_set_or_eq {α : Type*} {l : List α} {i : ℕ} {a : α} (h : l[i]? = some a) (a' : α)
    {x : α} (hx : x ∈ l) : x ∈ l.set i a' ∨ x = a := by
  obtain ⟨j, hj, rfl⟩ := List.mem_iff_getElem.mp hx
  by_cases hij : i = j
  · subst hij
    exact .inr (Option.some.inj ((List.getElem?_eq_getElem hj).symm.trans h))
  · refine .inl (List.mem_iff_getElem?.mpr ⟨j, ?_⟩)
    rw [List.getElem?_set_ne hij, List.getElem?_eq_getElem hj]

theorem map_set_eq {α β : Type*} (f : α → β) {l : List α} {i : ℕ} {a : α} (h : l[i]? = some a)
    (a' : α) (hf : f a' = f a) : (l.set i a').map f = l.map f := by
  obtain ⟨hi, rfl⟩ := List.getElem?_eq_some_iff.mp h
  rw [List.map_set, hf, ← List.getElem_map f (h := by simpa using hi), List.set_getElem_self]

theorem mem_set_self {α : Type*} {l : List α} {i : ℕ} {a : α} (h : l[i]? = some a) (a' : α) :
    a' ∈ l.set i a' := List.mem_set (List.getElem?_eq_some_iff.mp h).1 a'

theorem sessionId_ne_zero {session : ℕ} (h : session < 4294967295) : sessionId session ≠ 0 := by
  intro h0
  have hn : (1 + session) % 4294967296 = 0 := congrArg UInt32.toNat h0
  omega

/-- What the counters say about what has been handed out. -/
structure Below (issued : List Issued) (g : NameGens) : Prop where
  sessions : g.sessions ≤ 4294967295
  moduleIds : (g.modules.map ModuleNameGen.moduleId).Nodup
  modules : ∀ m ∈ g.modules, ∃ session < g.sessions, m.moduleId = sessionId session
  functionIds : functionIds issued = g.functions.map FunctionNameGen.functionId
  functions : ∀ id ∈ Names.functionIds issued, ∃ m ∈ g.modules, ∃ n < m.state, n < 4294967296 ∧
    id = FunctionId.new m.moduleId (UInt32.ofNat n)
  blocks : ∀ b ∈ blockLabels issued, ∃ f ∈ g.functions[b.1]?, b.2 < f.nextBlockId
  tmps : ∀ name ∈ tmpNames issued, ∃ f ∈ g.functions, ∃ pre, ∃ n < f.nextTmpId,
    n < 18446744073709551616 ∧ name = tmpName f.functionId pre n

theorem nodup_concat_of {α : Type*} {l : List α} (h : l.Nodup) {more : List α}
    (hshort : more.length ≤ 1) (hnew : ∀ a ∈ more, a ∉ l) : (l ++ more).Nodup := by
  refine List.nodup_append.mpr ⟨h, ?_, ?_⟩
  · match more, hshort with
    | [], _ => exact List.nodup_nil
    | [a], _ => exact List.nodup_singleton a
  · rintro a ha b hb rfl
    exact hnew a hb ha

theorem AllDistinct.concat {issued : List Issued} (h : AllDistinct issued) {i : Issued}
    (hfunctions : ∀ id ∈ functionIds [i], id ∉ functionIds issued ∧ id ≠ FunctionId.global)
    (hblocks : ∀ b ∈ blockLabels [i], b ∉ blockLabels issued ∧ b.2.isFallthrough = false)
    (htmps : ∀ name ∈ tmpNames [i], name ∉ tmpNames issued) (hpanic : i ≠ .panics) :
    AllDistinct (issued ++ [i]) := by
  refine ⟨?_, ?_, ?_, ?_, ?_, ?_⟩
  · rw [functionIds_append]
    exact nodup_concat_of h.functions (by cases i <;> simp [functionIds])
      fun id hid => (hfunctions id hid).1
  · rw [functionIds_append]
    intro hmem
    rcases List.mem_append.mp hmem with hmem | hmem
    · exact h.notGlobal hmem
    · exact (hfunctions _ hmem).2 rfl
  · rw [blockLabels_append]
    exact nodup_concat_of h.blocks (by cases i <;> simp [blockLabels])
      fun b hb => (hblocks b hb).1
  · intro b hb
    rw [blockLabels_append] at hb
    rcases List.mem_append.mp hb with hb | hb
    · exact h.notFallthrough b hb
    · exact (hblocks b hb).2
  · rw [tmpNames_append]
    exact nodup_concat_of h.tmps (by cases i <;> simp [tmpNames]) htmps
  · intro hmem
    rcases List.mem_append.mp hmem with hmem | hmem
    · exact h.noPanic hmem
    · exact hpanic (List.mem_singleton.mp hmem).symm

/-- An answer that hands out none of the names. -/
theorem AllDistinct.quiet {issued : List Issued} (h : AllDistinct issued) {i : Issued}
    (hfunctions : functionIds [i] = []) (hblocks : blockLabels [i] = []) (htmps : tmpNames [i] = [])
    (hpanic : i ≠ .panics) : AllDistinct (issued ++ [i]) := by
  refine h.concat ?_ ?_ ?_ hpanic
  · simp [hfunctions]
  · simp [hblocks]
  · simp [htmps]

namespace Below

variable {issued : List Issued} {g : NameGens}

/-- The generators after an answer that hands out none of the names. -/
theorem quiet (h : Below issued g) {i : Issued} (hfunctions : Names.functionIds [i] = [])
    (hblocks : blockLabels [i] = []) (htmps : tmpNames [i] = []) : Below (issued ++ [i]) g := by
  refine ⟨h.sessions, h.moduleIds, h.modules, ?_, ?_, ?_, ?_⟩
  · rw [functionIds_append, hfunctions, List.append_nil]
    exact h.functionIds
  · rw [functionIds_append, hfunctions, List.append_nil]
    exact h.functions
  · rw [blockLabels_append, hblocks, List.append_nil]
    exact h.blocks
  · rw [tmpNames_append, htmps, List.append_nil]
    exact h.tmps

theorem absent (h : Below issued g) : Below (issued ++ [.absent]) g := h.quiet rfl rfl rfl

theorem session (h : Below issued g) (hroom : g.sessions < 4294967295) :
    Below (issued ++ [.session (sessionId g.sessions)]) { g with sessions := g.sessions + 1 } := by
  have hq := h.quiet (i := .session (sessionId g.sessions)) rfl rfl rfl
  refine ⟨hroom, hq.moduleIds, fun m hm => ?_, hq.functionIds, hq.functions, hq.blocks, hq.tmps⟩
  obtain ⟨session, hs, hid⟩ := h.modules m hm
  exact ⟨session, Nat.lt_succ_of_lt hs, hid⟩

theorem moduleNameGen (h : Below issued g) {session : ℕ} (hs : session < g.sessions)
    (hroom : ∀ m ∈ g.modules, m.moduleId ≠ sessionId session) :
    Below (issued ++ [.moduleNameGen g.modules.length])
      { g with modules := g.modules ++ [⟨sessionId session, 0⟩] } := by
  have hq := h.quiet (i := .moduleNameGen g.modules.length) rfl rfl rfl
  refine ⟨h.sessions, ?_, fun m hm => ?_, hq.functionIds, fun id hid => ?_, hq.blocks, hq.tmps⟩
  · rw [List.map_append]
    refine nodup_concat_of h.moduleIds (Nat.le_refl 1) fun id hid hmem => ?_
    obtain ⟨m, hm, hmid⟩ := List.mem_map.mp hmem
    rw [List.map_singleton, List.mem_singleton] at hid
    exact hroom m hm (hmid.trans hid)
  · rcases List.mem_append.mp hm with hm | hm
    · exact h.modules m hm
    · rw [List.mem_singleton.mp hm]
      exact ⟨session, hs, rfl⟩
  · obtain ⟨m, hm, rest⟩ := hq.functions id hid
    exact ⟨m, List.mem_append_left _ hm, rest⟩

/-- The function id that a module's generator hands out next. -/
theorem newFunctionId (h : Below issued g) {m : ℕ} {gen : ModuleNameGen}
    (hm : g.modules[m]? = some gen) (hroom : gen.state < 4294967296) :
    FunctionId.new gen.moduleId (UInt32.ofNat gen.state) ∉ Names.functionIds issued ∧
      FunctionId.new gen.moduleId (UInt32.ofNat gen.state) ≠ FunctionId.global := by
  have hmem : gen ∈ g.modules := List.mem_of_getElem? hm
  have hinj : ∀ {m m' : UInt32} {n n' : ℕ}, n < 4294967296 → n' < 4294967296 →
      FunctionId.new m (UInt32.ofNat n) = FunctionId.new m' (UInt32.ofNat n') →
        m = m' ∧ n = n' := by
    intro m m' n n' hn hn' heq
    have h1 := congrArg FunctionId.moduleId heq
    have h2 := congrArg FunctionId.functionId heq
    rw [moduleId_new, moduleId_new] at h1
    rw [functionId_new, functionId_new, UInt32.toNat_ofNat', UInt32.toNat_ofNat',
      Nat.mod_eq_of_lt hn, Nat.mod_eq_of_lt hn'] at h2
    exact ⟨UInt32.toNat_inj.mp h1, h2⟩
  constructor
  · intro hold
    obtain ⟨gen', hmem', n, hn, hlt, heq⟩ := h.functions _ hold
    obtain ⟨hid, rfl⟩ := hinj hroom hlt heq
    obtain rfl := List.inj_on_of_nodup_map h.moduleIds hmem hmem' hid
    exact Nat.lt_irrefl _ hn
  · intro heq
    obtain ⟨session, hs, hid⟩ := h.modules gen hmem
    refine sessionId_ne_zero (Nat.lt_of_lt_of_le hs h.sessions) ?_
    rw [← hid]
    have h0 := congrArg FunctionId.moduleId heq
    rw [moduleId_new] at h0
    exact UInt32.toNat_inj.mp h0

theorem nextFunctionNameGen (h : Below issued g) {m : ℕ} {gen : ModuleNameGen}
    (hm : g.modules[m]? = some gen) (hroom : gen.state < 4294967296) :
    Below (issued ++ [.function g.functions.length
        (FunctionId.new gen.moduleId (UInt32.ofNat gen.state))])
      ⟨g.sessions, g.modules.set m { gen with state := gen.state + 1 },
        g.functions ++ [⟨FunctionId.new gen.moduleId (UInt32.ofNat gen.state), 0, 0⟩]⟩ := by
  refine ⟨h.sessions, ?_, fun m' hm' => ?_, ?_, fun id hid => ?_, fun b hb => ?_,
    fun name hname => ?_⟩
  · rw [map_set_eq ModuleNameGen.moduleId hm { gen with state := gen.state + 1 } rfl]
    exact h.moduleIds
  · rcases List.mem_or_eq_of_mem_set hm' with hm' | rfl
    · exact h.modules m' hm'
    · exact h.modules gen (List.mem_of_getElem? hm)
  · rw [functionIds_append, h.functionIds, List.map_append]
    rfl
  · rw [functionIds_append] at hid
    rcases List.mem_append.mp hid with hid | hid
    · obtain ⟨gen', hmem', n, hn, rest⟩ := h.functions id hid
      rcases mem_set_or_eq hm { gen with state := gen.state + 1 } hmem' with hset | rfl
      · exact ⟨gen', hset, n, hn, rest⟩
      · exact ⟨_, mem_set_self hm _, n, Nat.lt_succ_of_lt hn, rest⟩
    · rw [List.mem_singleton.mp hid]
      exact ⟨_, mem_set_self hm _, gen.state, Nat.lt_succ_self _, hroom, rfl⟩
  · have hb' : b ∈ blockLabels issued := by simpa [blockLabels_append, blockLabels] using hb
    obtain ⟨f, hf, hlt⟩ := h.blocks b hb'
    refine ⟨f, ?_, hlt⟩
    have hi := (List.getElem?_eq_some_iff.mp hf).1
    exact (List.getElem?_append_left hi).trans hf
  · have hname' : name ∈ tmpNames issued := by simpa [tmpNames_append, tmpNames] using hname
    obtain ⟨f, hf, rest⟩ := h.tmps name hname'
    exact ⟨f, List.mem_append_left _ hf, rest⟩

/-- A function's counters go up. -/
theorem setFunction (h : Below issued g) {f : ℕ} {function : FunctionNameGen}
    (hf : g.functions[f]? = some function) (function' : FunctionNameGen)
    (hid : function'.functionId = function.functionId)
    (hblock : function.nextBlockId ≤ function'.nextBlockId)
    (htmp : function.nextTmpId ≤ function'.nextTmpId) :
    Below issued (g.setFunction f function') := by
  have hlt : f < g.functions.length := (List.getElem?_eq_some_iff.mp hf).1
  refine ⟨h.sessions, h.moduleIds, h.modules, ?_, h.functions, fun b hb => ?_, fun name hname => ?_⟩
  · rw [h.functionIds]
    exact (map_set_eq FunctionNameGen.functionId hf function' hid).symm
  · obtain ⟨old, hold, hn⟩ := h.blocks b hb
    show ∃ new ∈ (g.functions.set f function')[b.1]?, _
    by_cases hfb : f = b.1
    · rw [← hfb] at hold ⊢
      obtain rfl : function = old := Option.some.inj (hf.symm.trans hold)
      exact ⟨function', List.getElem?_set_self hlt, Nat.lt_of_lt_of_le hn hblock⟩
    · rw [List.getElem?_set_ne hfb]
      exact ⟨old, hold, hn⟩
  · obtain ⟨old, hold, pre, n, hn, rest⟩ := h.tmps name hname
    rcases mem_set_or_eq hf function' hold with hset | rfl
    · exact ⟨old, hset, pre, n, hn, rest⟩
    · refine ⟨function', mem_set_self hf function', pre, n, Nat.lt_of_lt_of_le hn htmp, rest.1, ?_⟩
      rw [hid]
      exact rest.2

end Below

/-! ## One more request -/

namespace NameGens

variable {issued : List Issued} {g : NameGens}

/-- What holds of the answers so far. -/
def Fresh (issued : List Issued) (g : NameGens) : Prop := Below issued g ∧ AllDistinct issued

theorem fresh_absent (h : Fresh issued g) : Fresh (issued ++ [.absent]) g :=
  ⟨h.1.absent, h.2.quiet rfl rfl rfl (by simp)⟩

theorem fresh_nextBlockName (h : Fresh issued g) {f : ℕ} {function : FunctionNameGen}
    (hf : g.functions[f]? = some function) (hroom : function.nextBlockId < 4294967295) :
    Fresh (issued ++ [.block f function.nextBlockId])
      (g.setFunction f { function with nextBlockId := function.nextBlockId + 1 }) := by
  have hset := h.1.setFunction hf { function with nextBlockId := function.nextBlockId + 1 } rfl
    (Nat.le_succ _) (Nat.le_refl _)
  refine ⟨⟨hset.sessions, hset.moduleIds, hset.modules, ?_, ?_, fun b hb => ?_, ?_⟩, ?_⟩
  · rw [functionIds_append]
    simpa [functionIds] using hset.functionIds
  · rw [functionIds_append]
    simpa [functionIds] using hset.functions
  · rw [blockLabels_append] at hb
    rcases List.mem_append.mp hb with hb | hb
    · exact hset.blocks b hb
    · rw [List.mem_singleton.mp hb]
      exact ⟨_, List.getElem?_set_self (List.getElem?_eq_some_iff.mp hf).1, Nat.lt_succ_self _⟩
  · rw [tmpNames_append]
    simpa [tmpNames] using hset.tmps
  · refine h.2.concat (by simp [functionIds]) (fun b hb => ?_) (by simp [tmpNames]) (by simp)
    rw [List.mem_singleton.mp hb]
    constructor
    · intro hold
      obtain ⟨old, hold, hn⟩ := h.1.blocks _ hold
      obtain rfl : function = old := Option.some.inj (hf.symm.trans hold)
      exact Nat.lt_irrefl _ hn
    · exact BlockLabel.isFallthrough_eq_false.mpr (Nat.ne_of_lt hroom)

theorem fresh_nextTmpName (h : Fresh issued g) {f : ℕ} {function : FunctionNameGen}
    (hf : g.functions[f]? = some function) (hroom : function.nextTmpId < 18446744073709551616)
    (pre : String) :
    Fresh (issued ++ [.tmp (tmpName function.functionId pre function.nextTmpId)])
      (g.setFunction f { function with nextTmpId := function.nextTmpId + 1 }) := by
  have hset := h.1.setFunction hf { function with nextTmpId := function.nextTmpId + 1 } rfl
    (Nat.le_refl _) (Nat.le_succ _)
  refine ⟨⟨hset.sessions, hset.moduleIds, hset.modules, ?_, ?_, ?_, fun name hname => ?_⟩, ?_⟩
  · rw [functionIds_append]
    simpa [functionIds] using hset.functionIds
  · rw [functionIds_append]
    simpa [functionIds] using hset.functions
  · rw [blockLabels_append]
    simpa [blockLabels] using hset.blocks
  · rw [tmpNames_append] at hname
    rcases List.mem_append.mp hname with hname | hname
    · exact hset.tmps name hname
    · rw [List.mem_singleton.mp hname]
      exact ⟨_, mem_set_self hf _, pre, _, Nat.lt_succ_self _, hroom, rfl⟩
  · refine h.2.concat (by simp [functionIds]) (by simp [blockLabels]) (fun name hname => ?_)
      (by simp)
    rw [List.mem_singleton.mp hname]
    intro hold
    obtain ⟨old, hold, pre', n, hn, -, heq⟩ := h.1.tmps _ hold
    obtain ⟨hid, -, rfl⟩ := tmpName_inj.mp heq
    have hnodup : (g.functions.map FunctionNameGen.functionId).Nodup :=
      h.1.functionIds ▸ h.2.functions
    obtain rfl := List.inj_on_of_nodup_map hnodup (List.mem_of_getElem? hf) hold hid
    exact Nat.lt_irrefl _ hn

/-- As long as there is room, one more request gets something new. -/
theorem fresh_step (h : Fresh issued g) (request : NameRequest) (hroom : g.Room request) :
    Fresh (issued ++ [(g.step request).2]) (g.step request).1 := by
  cases request with
  | session => exact ⟨h.1.session hroom, h.2.quiet rfl rfl rfl (by simp [step])⟩
  | moduleNameGen session =>
    unfold step
    dsimp only
    split
    · rename_i hs
      exact ⟨h.1.moduleNameGen hs hroom, h.2.quiet rfl rfl rfl (by simp)⟩
    · exact fresh_absent h
  | nextFunctionNameGen m =>
    unfold step
    dsimp only
    cases hm : g.modules[m]? with
    | none => exact fresh_absent h
    | some gen =>
      have hlt := hroom gen hm
      refine ⟨h.1.nextFunctionNameGen hm hlt, h.2.concat (fun id hid => ?_) (by simp [blockLabels])
        (by simp [tmpNames]) (by simp)⟩
      rw [List.mem_singleton.mp hid]
      exact h.1.newFunctionId hm hlt
  | nextBlockName f =>
    unfold step
    dsimp only
    cases hf : g.functions[f]? with
    | none => exact fresh_absent h
    | some function =>
      have hlt := hroom function hf
      have hmod : function.nextBlockId % 18446744073709551616 = function.nextBlockId :=
        Nat.mod_eq_of_lt (by omega)
      have hfrom : fromIndex function.nextBlockId = some function.nextBlockId :=
        if_pos (by omega)
      simp only [hmod, hfrom]
      exact fresh_nextBlockName h hf hlt
  | nextTmpName f pre =>
    unfold step
    dsimp only
    cases hf : g.functions[f]? with
    | none => exact fresh_absent h
    | some function =>
      have hlt := hroom function hf
      simp only [Nat.mod_eq_of_lt hlt]
      exact fresh_nextTmpName h hf hlt pre

end NameGens

end DietPython.Names
