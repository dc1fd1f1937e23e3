import DietPython.Blocks.Constants

/-!
# References into the table of constants

After a pass every reference to a constant is a load of an entry. Name binding starts with an empty
table, so its indices are those of the entries. The indices of the later pass are too few by the
length of the table that it is given: they are right only if the table begins with the literals that
are left.
-/

namespace DietPython.Blocks

/-- The constant that a reference stands for. -/
def ConstantRef.value (table : List LocatedCoreBlockPyExpr) :
    ConstantRef → Option LocatedCoreBlockPyExpr
  | .own constant => some constant
  | .entry index => table[index]?
  | .cell _ => none

/-- What had a constant before is a load of an entry with this constant, and different constants
have different indices. -/
structure KeepsConstants (before after : List LocatedCoreBlockPyExpr)
    (refs refs' : List ConstantRef) : Prop where
  resolves : List.Forall₂ (fun r r' => ∀ constant, r.value before = some constant →
    ∃ index, r' = .entry index ∧ after[index]? = some constant) refs refs'
  apart : ∀ (j k : ℕ) (constant constant' : LocatedCoreBlockPyExpr) (index index' : ℕ),
    refs[j]?.bind (ConstantRef.value before) = some constant →
    refs[k]?.bind (ConstantRef.value before) = some constant' →
    refs'[j]? = some (.entry index) → refs'[k]? = some (.entry index') →
    constant ≠ constant' → index ≠ index'

section Resolves

variable {before after : List LocatedCoreBlockPyExpr} {refs : List ConstantRef}

/-- Where references are resolved, different constants have different indices. -/
theorem KeepsConstants.of_resolves {refs' : List ConstantRef}
    (h : List.Forall₂ (fun r r' => ∀ constant, r.value before = some constant →
      ∃ index, r' = .entry index ∧ after[index]? = some constant) refs refs') :
    KeepsConstants before after refs refs' := by
  have hat : ∀ (j : ℕ) constant index, refs[j]?.bind (ConstantRef.value before) = some constant →
      refs'[j]? = some (.entry index) → after[index]? = some constant := by
    intro j constant index hvalue hindex
    obtain ⟨r, hr, hvalue⟩ := Option.bind_eq_some_iff.mp hvalue
    obtain ⟨hj, hr⟩ := List.getElem?_eq_some_iff.mp hr
    obtain ⟨hj', hindex⟩ := List.getElem?_eq_some_iff.mp hindex
    have hrel := h.get hj hj'
    rw [List.get_eq_getElem, List.get_eq_getElem, hr, hindex] at hrel
    obtain ⟨index', heq, hafter⟩ := hrel constant hvalue
    rw [ConstantRef.entry.inj heq]
    exact hafter
  refine ⟨h, fun j k constant constant' index index' hj hk hindex hindex' hne heq => hne ?_⟩
  subst heq
  exact Option.some.inj ((hat j constant index hj hindex).symm.trans
    (hat k constant' index hk hindex'))

theorem prefix_drop_cons {α : Type} {a : α} {as table : List α} {n : ℕ} :
    a :: as <+: table.drop n ↔ table[n]? = some a ∧ as <+: table.drop (n + 1) := by
  rw [← List.tail_drop, ← List.head?_drop]
  cases table.drop n with
  | nil => simp
  | cons b bs =>
    rw [List.cons_prefix_cons, List.head?_cons, List.tail_cons]
    constructor
    · rintro ⟨rfl, h⟩
      exact ⟨rfl, h⟩
    · rintro ⟨h, h'⟩
      exact ⟨(Option.some.inj h).symm, h'⟩

/-- **Numbering.** Numbered references are resolved when the table has the new constants from
`next` on. -/
theorem resolves_numbered_iff (hold : ∀ (index : ℕ) constant, before[index]? = some constant →
    after[index]? = some constant) (next : ℕ) :
    List.Forall₂ (fun r r' => ∀ constant, r.value before = some constant →
      ∃ index, r' = .entry index ∧ after[index]? = some constant) refs (numbered next refs) ↔
      owns refs <+: after.drop next := by
  induction refs generalizing next with
  | nil => exact ⟨fun _ => List.nil_prefix, fun _ => .nil⟩
  | cons ref refs ih =>
    cases ref with
    | own constant =>
      have howns : owns (.own constant :: refs) = constant :: owns refs := rfl
      rw [numbered, List.forall₂_cons, ih, howns, prefix_drop_cons]
      refine and_congr_left fun _ => ⟨fun h => ?_, fun h c hc => ⟨next, rfl, ?_⟩⟩
      · obtain ⟨index, heq, hafter⟩ := h constant rfl
        rw [ConstantRef.entry.inj heq]
        exact hafter
      · rw [← Option.some.inj hc]
        exact h
    | entry index =>
      rw [numbered, List.forall₂_cons, ih]
      exact and_iff_right fun constant h => ⟨index, rfl, hold index constant h⟩
    | cell logicalName =>
      rw [numbered, List.forall₂_cons, ih]
      exact and_iff_right fun constant h => by cases h

theorem keepsConstants_numbered_iff (added : List LocatedCoreBlockPyExpr) :
    KeepsConstants before (before ++ added) refs (numbered 0 refs) ↔
      owns refs <+: before ++ added := by
  have hold : ∀ (index : ℕ) constant, before[index]? = some constant →
      (before ++ added)[index]? = some constant := by
    intro index constant h
    obtain ⟨hlt, -⟩ := List.getElem?_eq_some_iff.mp h
    rw [List.getElem?_append_left hlt]
    exact h
  constructor
  · intro h
    have hprefix := (resolves_numbered_iff hold 0).mp h.resolves
    rw [List.drop_zero] at hprefix
    exact hprefix
  · intro h
    rw [← List.drop_zero (l := before ++ added)] at h
    exact .of_resolves ((resolves_numbered_iff hold 0).mpr h)

end Resolves

/-! ## The passes -/

/-- The literals that are left in the code, in the order of the walk. -/
def Module.literals (m : Module LocatedCoreBlockPyExpr) : List LocatedCoreBlockPyExpr :=
  owns (m.constantRefs false)

/-- Cells have been located. -/
def Module.CellsLocated (m : Module LocatedCoreBlockPyExpr) : Prop :=
  ∀ logicalName, .cell logicalName ∉ m.constantRefs false

theorem normalizeBbModuleStrings_of_fits {m : Module LocatedCoreBlockPyExpr}
    (h : Fits true (m.constantRefs false) 0) : ∃ m', normalizeBbModuleStrings m = some m' ∧
      m'.moduleConstants = m.moduleConstants ++ m.literals ∧
      m'.constantRefs false = numbered 0 (m.constantRefs false) := by
  obtain ⟨callables, hrun, hrefs⟩ := (callables_numbers normalizeExpr_numbers m.callableDefs
    [] (Nat.zero_le _)).1 h
  refine ⟨⟨callables, m.moduleConstants ++ m.literals⟩, ?_, rfl, hrefs⟩
  unfold normalizeBbModuleStrings StateT.run
  rw [hrun]
  rfl

theorem normalizeBbModuleStrings_of_not_fits {m : Module LocatedCoreBlockPyExpr}
    (h : ¬Fits true (m.constantRefs false) 0) : normalizeBbModuleStrings m = none := by
  have hrun := (callables_numbers normalizeExpr_numbers m.callableDefs [] (Nat.zero_le _)).2 h
  unfold normalizeBbModuleStrings StateT.run
  rw [hrun]
  rfl

theorem owns_numbered (refs : List ConstantRef) (next : ℕ) : owns (numbered next refs) = [] := by
  induction refs generalizing next with
  | nil => rfl
  | cons ref refs ih =>
    cases ref with
    | own constant => exact ih (next + 1)
    | entry index => exact ih next
    | cell logicalName => exact ih next

/-- Extraction leaves no literal behind. -/
theorem extractModule_of_fits {m : Module LocatedCoreBlockPyExpr}
    (hempty : m.moduleConstants = []) (h : (owns (m.constantRefs true)).length ≤ 4294967296) :
    ∃ m', extractModule m = some m' ∧ m'.moduleConstants = owns (m.constantRefs true) ∧
      ∀ runtime, m'.constantRefs runtime = numbered 0 (m.constantRefs true) := by
  have hfits : Fits false (m.constantRefs true) 0 := ⟨fun hs => (by cases hs), by omega⟩
  have hwalk := fun after => (callables_numbers (extractExpr_numbers after) m.callableDefs []
    (Nat.zero_le _)).1 hfits
  obtain ⟨callables, hrun, hrefs⟩ := hwalk true
  obtain ⟨callables', hrun', hrefs'⟩ := hwalk false
  obtain rfl : callables = callables' := by
    rw [hrun] at hrun'
    exact (Prod.mk.inj (Option.some.inj hrun')).1
  refine ⟨⟨callables, owns (m.constantRefs true)⟩, ?_, rfl, fun runtime => ?_⟩
  · unfold extractModule StateT.run
    rw [hempty, hrun]
    rfl
  · cases runtime with
    | true => exact hrefs
    | false => exact hrefs'

/-- **Constants.** A module is normalised and its references keep their constants exactly when its
cells have been located, there are not too many literals, and the table with the literals behind it
begins with the literals. Modules that name binding makes are of this kind. -/
theorem normalizeBbModuleStrings_iff (m : Module LocatedCoreBlockPyExpr) :
    ((∃ m', normalizeBbModuleStrings m = some m' ∧
      KeepsConstants m.moduleConstants m'.moduleConstants (m.constantRefs false)
        (m'.constantRefs false)) ↔
      m.CellsLocated ∧ m.literals.length ≤ 4294967296 ∧
        m.literals <+: m.moduleConstants ++ m.literals) ∧
    (m.moduleConstants = [] → (owns (m.constantRefs true)).length ≤ 4294967296 →
      ∃ m', extractModule m = some m' ∧ m'.literals = [] ∧
        KeepsConstants [] m'.moduleConstants (m.constantRefs true) (m'.constantRefs true)) := by
  have hfits : Fits true (m.constantRefs false) 0 ↔
      m.CellsLocated ∧ m.literals.length ≤ 4294967296 := by
    unfold Fits Module.CellsLocated Module.literals
    rw [Nat.zero_add]
    exact and_congr_left fun _ => ⟨fun h => h rfl, fun h _ => h⟩
  refine ⟨?_, fun hempty hlength => ?_⟩
  · rw [← and_assoc, ← hfits]
    constructor
    · rintro ⟨m', hm', hkeeps⟩
      by_cases h : Fits true (m.constantRefs false) 0
      · obtain ⟨m'', hm'', htable, hrefs⟩ := normalizeBbModuleStrings_of_fits h
        obtain rfl := Option.some.inj (hm'.symm.trans hm'')
        rw [htable, hrefs, keepsConstants_numbered_iff] at hkeeps
        exact ⟨h, hkeeps⟩
      · rw [normalizeBbModuleStrings_of_not_fits h] at hm'
        cases hm'
    · rintro ⟨h, hprefix⟩
      obtain ⟨m', hm', htable, hrefs⟩ := normalizeBbModuleStrings_of_fits h
      refine ⟨m', hm', ?_⟩
      rw [htable, hrefs, keepsConstants_numbered_iff]
      exact hprefix
  · obtain ⟨m', hm', htable, hrefs⟩ := extractModule_of_fits hempty hlength
    refine ⟨m', hm', ?_, ?_⟩
    · unfold Module.literals
      rw [hrefs false, owns_numbered]
    · rw [htable, hrefs true, ← List.nil_append (owns _), keepsConstants_numbered_iff]
      exact List.prefix_refl _

/-! ## A literal behind another constant -/

/-- The code returns entry 0, `1`, or the literal `2`. -/
def secondConstant : Module LocatedCoreBlockPyExpr where
  callableDefs := [[⟨0, [], .ret (.literal () (.numberLiteral (.int 2))), [], none⟩,
    ⟨1, [], .ret (.load ⟨"__dp_constant", .constant 0⟩), [], none⟩]]
  moduleConstants := [.literal () (.numberLiteral (.int 1))]

/-- Both are entry 0 afterwards. -/
theorem secondConstant_collides : ∃ m', normalizeBbModuleStrings secondConstant = some m' ∧
    m'.constantRefs false = [.entry 0, .entry 0] ∧
    ¬KeepsConstants secondConstant.moduleConstants m'.moduleConstants
      (secondConstant.constantRefs false) (m'.constantRefs false) := by
  refine ⟨⟨[[⟨0, [], .ret (.load ⟨"__dp_constant_0", .constant 0⟩), [], none⟩,
    ⟨1, [], .ret (.load ⟨"__dp_constant", .constant 0⟩), [], none⟩]],
    [.literal () (.numberLiteral (.int 1)), .literal () (.numberLiteral (.int 2))]⟩, rfl, rfl, ?_⟩
  intro h
  exact h.apart 0 1 (.literal () (.numberLiteral (.int 2))) (.literal () (.numberLiteral (.int 1)))
    0 0 rfl rfl rfl rfl (by simp) rfl

/-- `return 2` before name binding has moved the literal. -/
def literalReturned : Module LocatedCoreBlockPyExpr where
  callableDefs := [[⟨0, [], .ret (.literal () (.numberLiteral (.int 2))), [], none⟩]]
  moduleConstants := []

theorem literalReturned_extracted : ∃ m', extractModule literalReturned = some m' ∧
    m'.literals = [] ∧ KeepsConstants [] m'.moduleConstants (literalReturned.constantRefs true)
      (m'.constantRefs true) := by
  refine (normalizeBbModuleStrings_iff literalReturned).2 rfl ?_
  show 1 ≤ 4294967296
  omega

end DietPython.Blocks
