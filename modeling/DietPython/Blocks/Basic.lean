import Mathlib.Data.List.Nodup

/-!
# Blocks

The blocks of a callable, over any type of instructions, and what is common to the passes over
them. A label is the index of a block; the last index stands for what comes after a fragment.
-/

namespace DietPython.Blocks

abbrev BlockLabel := ℕ

namespace BlockLabel

/-- `FALLTHROUGH_INDEX` -/
def fallthrough : BlockLabel := 4294967295

def isFallthrough (label : BlockLabel) : Bool := label == fallthrough

@[simp] theorem isFallthrough_eq_true {label : BlockLabel} :
    isFallthrough label = true ↔ label = fallthrough := beq_iff_eq

@[simp] theorem isFallthrough_eq_false {label : BlockLabel} :
    isFallthrough label = false ↔ label ≠ fallthrough := beq_eq_false_iff_ne

def display (label : BlockLabel) : String :=
  if isFallthrough label then "<fallthrough>" else s!"bb{label}"

end BlockLabel

inductive AbruptKind
  | fallthrough
  | ret
  | exception
  | break
  | continue
  deriving DecidableEq

inductive BlockParamRole
  | exception
  | abruptKind
  | abruptPayload
  deriving DecidableEq, Repr

structure BlockParam where
  name : String
  role : BlockParamRole
  deriving DecidableEq

inductive BlockArg
  | name (x : String)
  | none
  | currentException
  | abruptKind (kind : AbruptKind)
  deriving DecidableEq

structure BlockEdge where
  target : BlockLabel
  args : List BlockArg
  deriving DecidableEq

namespace BlockEdge

def new (target : BlockLabel) : BlockEdge := ⟨target, []⟩

end BlockEdge

inductive BlockTerm (I : Type)
  | jump (edge : BlockEdge)
  | ifTerm (test : I) (thenLabel elseLabel : BlockLabel)
  | branchTable (index : I) (targets : List BlockLabel) (defaultLabel : BlockLabel)
  | raiseTerm (exc : Option I)
  | ret (value : I)
  deriving DecidableEq

/-- A block with statements `S` in its body. -/
structure Block (S I : Type) where
  label : BlockLabel
  body : List S
  term : BlockTerm I
  params : List BlockParam
  excEdge : Option BlockEdge
  deriving DecidableEq

namespace BlockTerm

variable {I : Type}

/-- The labels that control may go to, unless it leaves the callable. -/
def targets? : BlockTerm I → Option (List BlockLabel)
  | .jump edge => some [edge.target]
  | .ifTerm _ thenLabel elseLabel => some [thenLabel, elseLabel]
  | .branchTable _ targets defaultLabel => some (targets ++ [defaultLabel])
  | .raiseTerm _ | .ret _ => none

/-- `replace_target`: the terminator, and whether it has changed. -/
def replaceTarget (source dest : BlockLabel) : BlockTerm I → BlockTerm I × Bool
  | .jump edge =>
    if edge.target = source then (.jump { edge with target := dest }, true) else (.jump edge, false)
  | .ifTerm test thenLabel elseLabel =>
    (.ifTerm test (if thenLabel = source then dest else thenLabel)
      (if elseLabel = source then dest else elseLabel),
      decide (thenLabel = source) || decide (elseLabel = source))
  | .branchTable index targets defaultLabel =>
    (.branchTable index (targets.map fun target => if target = source then dest else target)
      (if defaultLabel = source then dest else defaultLabel),
      targets.any (· = source) || decide (defaultLabel = source))
  | .raiseTerm exc => (.raiseTerm exc, false)
  | .ret value => (.ret value, false)

theorem replaceTarget_targets? (source dest : BlockLabel) (term : BlockTerm I) :
    (term.replaceTarget source dest).1.targets? =
      term.targets?.map (List.map fun target => if target = source then dest else target) := by
  cases term with
  | jump edge =>
    rw [replaceTarget]
    by_cases h : edge.target = source
    · rw [if_pos h]
      show some [dest] = some [if edge.target = source then dest else edge.target]
      rw [if_pos h]
    · rw [if_neg h]
      show some [edge.target] = some [if edge.target = source then dest else edge.target]
      rw [if_neg h]
  | ifTerm test thenLabel elseLabel => rfl
  | branchTable index targets defaultLabel =>
    show some _ = some ((targets ++ [defaultLabel]).map _)
    rw [List.map_append]
    rfl
  | raiseTerm exc => rfl
  | ret value => rfl

end BlockTerm

namespace Block

variable {S I : Type} (b : Block S I)

/-- `replace_fallthrough_target` -/
def replaceFallthroughTarget (target : BlockLabel) : Block S I × Bool :=
  let r := b.term.replaceTarget BlockLabel.fallthrough target
  ({ b with term := r.1 }, r.2)

@[simp] theorem replaceFallthroughTarget_label (target : BlockLabel) :
    (b.replaceFallthroughTarget target).1.label = b.label := rfl

/-- The first parameter for an exception. -/
def exceptionParam : Option String :=
  (b.params.find? fun param => param.role = .exception).map BlockParam.name

def paramNames : List String := b.params.map BlockParam.name

/-- `bb_params`: the parameters, ordered by their roles. -/
def bbParams : List BlockParam :=
  [BlockParamRole.exception, .abruptKind, .abruptPayload].flatMap fun role =>
    b.params.filter fun param => param.role = role

def bbParamNames : List String := b.bbParams.map BlockParam.name

/-- Every role is one of the three. -/
theorem mem_bbParams {param : BlockParam} : param ∈ b.bbParams ↔ param ∈ b.params := by
  obtain ⟨x, role⟩ := param
  unfold bbParams
  simp only [List.mem_flatMap, List.mem_cons, List.not_mem_nil, or_false, List.mem_filter,
    decide_eq_true_eq]
  constructor
  · rintro ⟨role', -, hmem, -⟩
    exact hmem
  · intro hmem
    exact ⟨role, by cases role <;> simp, hmem, rfl⟩

/-- They are the parameters, in another order. -/
theorem bbParams_perm : b.bbParams.Perm b.params := by
  have hrest : (b.params.filter fun param => !decide (param.role = .exception)).Perm
      ((b.params.filter fun param => param.role = .abruptKind) ++
        b.params.filter fun param => param.role = .abruptPayload) := by
    refine .trans
      (List.filter_append_perm (fun param => decide (param.role = .abruptKind)) _).symm ?_
    rw [List.filter_filter, List.filter_filter]
    refine List.Perm.of_eq (congrArg₂ _ ?_ ?_)
    · refine List.filter_congr fun param _ => ?_
      cases param.role <;> rfl
    · refine List.filter_congr fun param _ => ?_
      cases param.role <;> rfl
  have hsplit := (List.filter_append_perm (fun param => decide (param.role = .exception))
    b.params).symm.trans (List.Perm.append_left _ hrest)
  have heq : b.bbParams = b.params.filter (fun param => param.role = .exception) ++
      (b.params.filter (fun param => param.role = .abruptKind) ++
        b.params.filter fun param => param.role = .abruptPayload) := by
    show _ ++ (_ ++ (_ ++ [])) = _
    rw [List.append_nil]
  rw [heq]
  exact hsplit.symm

/-- Parameters in order stay in order. -/
theorem bbParams_of_bbParams {S' : Type} (b' : Block S' I)
    (h : b'.params = b.bbParams) : b'.bbParams = b.bbParams := by
  have hrole : ∀ role : BlockParamRole, b.bbParams.filter (fun param => param.role = role) =
      b.params.filter fun param => param.role = role := by
    intro role
    have hone : ∀ role' : BlockParamRole, (b.params.filter fun param => param.role = role').filter
        (fun param => param.role = role) =
          if role' = role then b.params.filter fun param => param.role = role else [] := by
      intro role'
      rw [List.filter_filter]
      by_cases heq : role' = role
      · subst heq
        simp
      · rw [if_neg heq, List.filter_eq_nil_iff]
        intro param _ hboth
        simp only [Bool.and_eq_true, decide_eq_true_eq] at hboth
        exact heq (hboth.2.symm.trans hboth.1)
    unfold bbParams
    rw [List.filter_flatMap]
    simp only [hone]
    cases role <;> simp
  have hall := congrArg (fun f => [BlockParamRole.exception, .abruptKind, .abruptPayload].flatMap f)
    (funext hrole)
  rw [← h] at hall
  exact hall

end Block

/-- The first block with a label. -/
def blockAt {S I : Type} (blocks : List (Block S I)) (label : BlockLabel) : Option (Block S I) :=
  blocks.find? fun b => b.label = label

/-- The labels of the blocks. -/
def labels {S I : Type} (blocks : List (Block S I)) : List BlockLabel := blocks.map Block.label

theorem labels_append {S I : Type} (blocks more : List (Block S I)) :
    labels (blocks ++ more) = labels blocks ++ labels more := List.map_append

section BlockAt

variable {S I : Type} {blocks : List (Block S I)} {label : BlockLabel} {b : Block S I}

theorem mem_of_blockAt (h : blockAt blocks label = some b) : b ∈ blocks :=
  List.mem_of_find?_eq_some h

theorem label_of_blockAt (h : blockAt blocks label = some b) : b.label = label := by
  have h := List.find?_some h
  exact of_decide_eq_true h

theorem blockAt_isSome : (blockAt blocks label).isSome ↔ label ∈ labels blocks := by
  unfold blockAt labels
  rw [List.find?_isSome]
  constructor
  · rintro ⟨b, hb, h⟩
    exact List.mem_map.mpr ⟨b, hb, of_decide_eq_true h⟩
  · intro h
    obtain ⟨b, hb, h⟩ := List.mem_map.mp h
    exact ⟨b, hb, decide_eq_true h⟩

theorem blockAt_eq_none : blockAt blocks label = none ↔ label ∉ labels blocks := by
  rw [← blockAt_isSome]
  cases blockAt blocks label <;> simp

/-- Distinct labels: every block is found under its label. -/
theorem blockAt_of_mem (hnodup : (labels blocks).Nodup) (hb : b ∈ blocks) :
    blockAt blocks b.label = some b := by
  induction blocks with
  | nil => cases hb
  | cons c blocks ih =>
    unfold labels at hnodup
    rw [List.map_cons, List.nodup_cons] at hnodup
    unfold blockAt
    rcases List.mem_cons.mp hb with rfl | hb
    · rw [List.find?_cons_of_pos (by simp)]
    · have hne : c.label ≠ b.label := fun heq =>
        hnodup.1 (heq ▸ List.mem_map.mpr ⟨b, hb, rfl⟩)
      rw [List.find?_cons_of_neg (by simpa using hne)]
      exact ih hnodup.2 hb

theorem blockAt_eq_some (hnodup : (labels blocks).Nodup) :
    blockAt blocks label = some b ↔ b ∈ blocks ∧ b.label = label := by
  constructor
  · exact fun h => ⟨mem_of_blockAt h, label_of_blockAt h⟩
  · rintro ⟨hb, rfl⟩
    exact blockAt_of_mem hnodup hb

/-- With distinct labels it does not matter whether the first or the last one counts. -/
theorem blockAt_reverse (hnodup : (labels blocks).Nodup) (label : BlockLabel) :
    blockAt blocks.reverse label = blockAt blocks label := by
  have hreverse : (labels blocks.reverse).Nodup := by
    unfold labels
    rw [List.map_reverse]
    exact List.nodup_reverse.mpr hnodup
  refine Option.ext fun b => ?_
  rw [blockAt_eq_some hreverse, blockAt_eq_some hnodup, List.mem_reverse]

/-- The same block, under a map that keeps labels. -/
theorem blockAt_map {S' I' : Type} {f : Block S I → Block S' I'} (hf : ∀ c, (f c).label = c.label)
    (blocks : List (Block S I)) (label : BlockLabel) :
    blockAt (blocks.map f) label = (blockAt blocks label).map f := by
  unfold blockAt
  rw [List.find?_map]
  refine congrArg (Option.map f) (congrArg (fun p => List.find? p blocks) (funext fun c => ?_))
  show decide ((f c).label = label) = decide (c.label = label)
  rw [hf]

theorem labels_map {S' I' : Type} {f : Block S I → Block S' I'} (hf : ∀ c, (f c).label = c.label)
    (blocks : List (Block S I)) : labels (blocks.map f) = labels blocks := by
  unfold labels
  rw [List.map_map]
  exact List.map_congr_left fun c _ => hf c

end BlockAt

/-- Entries with different keys: each is found under its key. -/
theorem lookup_eq_some {K α : Type} [BEq K] [LawfulBEq K] {entries : List (K × α)}
    (hnodup : (entries.map Prod.fst).Nodup) {key : K} {a : α} :
    entries.lookup key = some a ↔ (key, a) ∈ entries := by
  induction entries with
  | nil => simp
  | cons entry entries ih =>
    obtain ⟨k, c⟩ := entry
    rw [List.map_cons, List.nodup_cons] at hnodup
    rw [List.lookup_cons, List.mem_cons]
    by_cases hk : key = k
    · subst hk
      have hnot : (key, a) ∉ entries := fun h => hnodup.1 (List.mem_map.mpr ⟨_, h, rfl⟩)
      rw [beq_iff_eq.mpr rfl]
      constructor
      · intro h
        exact .inl (by rw [Option.some.inj h])
      · intro h
        rw [(Prod.mk.inj (h.resolve_right hnot)).2]
    · rw [beq_eq_false_iff_ne.mpr hk]
      constructor
      · exact fun h => .inr ((ih hnodup.2).mp h)
      · intro h
        exact (ih hnodup.2).mpr (h.resolve_left fun heq => hk (Prod.mk.inj heq).1)

end DietPython.Blocks
