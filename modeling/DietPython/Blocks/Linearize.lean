import DietPython.Blocks.Structured

/-!
# Linear blocks

A block with nested conditionals is split at the first one: the statements before it, a block for
each branch and, if statements follow, a block in which the branches join.
-/

namespace DietPython.Blocks

open Machines Meaning

variable {I : Type}

/-- What a block passes on to the blocks that are split off. -/
structure Origin where
  excEdge : Option BlockEdge
  blockParams : List String
  declaredParams : List BlockParam
  excTarget : Option BlockLabel

/-- The blocks so far with their parameters and exception edges, and the next new label. -/
structure Linearized (I : Type) where
  blocks : List (StructuredBlock I)
  blockParams : List (BlockLabel × List String)
  exceptionEdges : List (BlockLabel × Option BlockLabel)
  nextBlock : ℕ

def paramsForLinearizedNames (paramNames : List String) (declaredParams : List BlockParam) :
    List BlockParam :=
  declaredParams.filter fun param => paramNames.any (· == param.name)

namespace Linearized

def push (out : Linearized I) (o : Origin) (label : BlockLabel) (body : List (StructuredInstr I))
    (term : BlockTerm I) : Linearized I where
  blocks := out.blocks ++
    [⟨label, body, term, paramsForLinearizedNames o.blockParams o.declaredParams, o.excEdge⟩]
  blockParams := (label, o.blockParams) :: out.blockParams
  exceptionEdges := (label, o.excTarget) :: out.exceptionEdges
  nextBlock := out.nextBlock

/-- New labels: the first of them is `out.nextBlock`. -/
def reserve (out : Linearized I) (n : ℕ) : Linearized I :=
  { out with nextBlock := out.nextBlock + n }

end Linearized

/-- `linearize_blockpy_if_sequence`. The statements before the first conditional are collected in
`before`. -/
def linearizeBlockpyIfSequence (o : Origin) (label : BlockLabel)
    (before : List (StructuredInstr I)) :
    List (StructuredInstr I) → BlockTerm I → Linearized I → Linearized I
  | [], finalTerm, out => out.push o label before finalTerm
  | .expr e :: rest, finalTerm, out =>
    linearizeBlockpyIfSequence o label (before ++ [.expr e]) rest finalTerm out
  | .ifStmt test body bodyTerm orelse orelseTerm :: rest, finalTerm, out =>
    let thenLabel := out.nextBlock
    let elseLabel := out.nextBlock + 1
    let joinLabel := if rest.isEmpty then none else some (out.nextBlock + 2)
    let out₀ := (out.reserve (if rest.isEmpty then 2 else 3)).push o label before
      (.ifTerm test thenLabel elseLabel)
    let branchFallthrough :=
      (joinLabel.map fun nextLabel => BlockTerm.jump (BlockEdge.new nextLabel)).getD finalTerm
    let out₁ := linearizeBlockpyIfSequence o thenLabel [] body
      (bodyTerm.getD branchFallthrough) out₀
    let out₂ := linearizeBlockpyIfSequence o elseLabel [] orelse
      (orelseTerm.getD branchFallthrough) out₁
    match joinLabel with
    | some nextLabel => linearizeBlockpyIfSequence o nextLabel [] rest finalTerm out₂
    | none => out₂

def pushName (names : List String) (name : String) : List String :=
  if names.any (· == name) then names else names ++ [name]

theorem mem_pushName {names : List String} {x name : String} (h : x ∈ names ∨ x = name) :
    x ∈ pushName names name := by
  unfold pushName
  by_cases hany : names.any (· == name) = true
  · rw [if_pos hany]
    rcases h with h | rfl
    · exact h
    · obtain ⟨y, hy, heq⟩ := List.any_eq_true.mp hany
      exact beq_iff_eq.mp heq ▸ hy
  · rw [if_neg hany]
    rcases h with h | rfl
    · exact List.mem_append_left _ h
    · exact List.mem_append_right _ (List.mem_singleton_self _)

theorem mem_foldl_pushName {names given : List String} {x : String} (h : x ∈ given ∨ x ∈ names) :
    x ∈ names.foldl pushName given := by
  induction names generalizing given with
  | nil => exact h.resolve_right List.not_mem_nil
  | cons name names ih =>
    rw [List.foldl_cons]
    rcases h with h | h
    · exact ih (.inl (mem_pushName (.inl h)))
    · rcases List.mem_cons.mp h with rfl | h
      · exact ih (.inl (mem_pushName (.inr rfl)))
      · exact ih (.inr h)

/-- The names of the parameters of a block, after those it is given. -/
def linearizedParams (b : StructuredBlock I) (given : List String) : List String :=
  b.bbParamNames.foldl pushName given

def originOf (blockParams : List (BlockLabel × List String))
    (exceptionEdges : List (BlockLabel × Option BlockLabel)) (b : StructuredBlock I) : Origin where
  excEdge := b.excEdge
  blockParams := linearizedParams b ((blockParams.lookup b.label).getD [])
  declaredParams := b.params
  excTarget := (exceptionEdges.lookup b.label).getD none

def linearizeBlock (blockParams : List (BlockLabel × List String))
    (exceptionEdges : List (BlockLabel × Option BlockLabel)) (out : Linearized I)
    (b : StructuredBlock I) : Linearized I :=
  linearizeBlockpyIfSequence (originOf blockParams exceptionEdges b) b.label [] b.body b.term out

/-- `linearize_structured_ifs` -/
def linearizeStructuredIfs (nextBlock : ℕ) (blocks : List (StructuredBlock I))
    (blockParams : List (BlockLabel × List String))
    (exceptionEdges : List (BlockLabel × Option BlockLabel)) : Linearized I :=
  blocks.foldl (linearizeBlock blockParams exceptionEdges) ⟨[], [], [], nextBlock⟩

/-! ## Splitting at a conditional -/

section Equations

variable (o : Origin) (label : BlockLabel) (before : List (StructuredInstr I)) (test : I)
  (body : List (StructuredInstr I)) (bodyTerm : Option (BlockTerm I))
  (orelse : List (StructuredInstr I)) (orelseTerm : Option (BlockTerm I))
  (rest : List (StructuredInstr I)) (finalTerm : BlockTerm I) (out : Linearized I)

/-- The block with the statements before a conditional. -/
def headOf (n : ℕ) : Linearized I :=
  (out.reserve n).push o label before (.ifTerm test out.nextBlock (out.nextBlock + 1))

/-- The blocks of both branches, which go on with `next`. -/
def branchesOf (next : BlockTerm I) (n : ℕ) : Linearized I :=
  linearizeBlockpyIfSequence o (out.nextBlock + 1) [] orelse (orelseTerm.getD next)
    (linearizeBlockpyIfSequence o out.nextBlock [] body (bodyTerm.getD next)
      (headOf o label before test out n))

theorem linearize_last :
    linearizeBlockpyIfSequence o label before [.ifStmt test body bodyTerm orelse orelseTerm]
        finalTerm out =
      branchesOf o label before test body bodyTerm orelse orelseTerm out finalTerm 2 := by
  rw [linearizeBlockpyIfSequence]
  rfl

theorem linearize_join (stmt : StructuredInstr I) :
    linearizeBlockpyIfSequence o label before
        (.ifStmt test body bodyTerm orelse orelseTerm :: stmt :: rest) finalTerm out =
      linearizeBlockpyIfSequence o (out.nextBlock + 2) [] (stmt :: rest) finalTerm
        (branchesOf o label before test body bodyTerm orelse orelseTerm out
          (.jump (BlockEdge.new (out.nextBlock + 2))) 3) := by
  rw [linearizeBlockpyIfSequence]
  rfl

end Equations

/-! ## What a block is split into -/

/-- The output grows by `part`, the blocks that one body is split into. -/
structure Splits (o : Origin) (label : ℕ) (out out' : Linearized I)
    (part : List (StructuredBlock I)) : Prop where
  blocks : out'.blocks = out.blocks ++ part
  blockParams : out'.blockParams =
    (part.map fun b => (b.label, o.blockParams)).reverse ++ out.blockParams
  exceptionEdges : out'.exceptionEdges =
    (part.map fun b => (b.label, o.excTarget)).reverse ++ out.exceptionEdges
  le : out.nextBlock ≤ out'.nextBlock
  head : (labels part).head? = some label
  nodup : (labels part).Nodup
  fresh : ∀ l : ℕ, l ∈ labels part → l = label ∨ out.nextBlock ≤ l ∧ l < out'.nextBlock
  alike : ∀ b ∈ part, b.excEdge = o.excEdge ∧
    b.params = paramsForLinearizedNames o.blockParams o.declaredParams
  plain : ∀ b ∈ part, ∀ stmt ∈ b.body, ∃ e, stmt = .expr e

namespace Splits

variable {o : Origin} {label label' : ℕ} {out out₁ out₂ : Linearized I}
  {part part' : List (StructuredBlock I)}

theorem of_push (n : ℕ) {body : List (StructuredInstr I)}
    (hplain : ∀ stmt ∈ body, ∃ e, stmt = .expr e) (term : BlockTerm I) :
    Splits o label out ((out.reserve n).push o label body term)
      [⟨label, body, term, paramsForLinearizedNames o.blockParams o.declaredParams,
        o.excEdge⟩] where
  blocks := rfl
  blockParams := rfl
  exceptionEdges := rfl
  le := Nat.le_add_right _ _
  head := rfl
  nodup := List.pairwise_singleton _ _
  fresh l hl := .inl (List.mem_singleton.mp hl)
  alike b hb := by
    obtain rfl := List.mem_singleton.mp hb
    exact ⟨rfl, rfl⟩
  plain b hb := by
    obtain rfl := List.mem_singleton.mp hb
    exact hplain

/-- The blocks of the next body have other labels. -/
theorem append (h : Splits o label out out₁ part) (h' : Splits o label' out₁ out₂ part')
    (hlabel : label < out.nextBlock) (hle : out.nextBlock ≤ label') (hlt : label' < out₂.nextBlock)
    (hnew : label' ∉ labels part) : Splits o label out out₂ (part ++ part') where
  blocks := by rw [h'.blocks, h.blocks, List.append_assoc]
  blockParams := by
    rw [h'.blockParams, h.blockParams, List.map_append, List.reverse_append, List.append_assoc]
  exceptionEdges := by
    rw [h'.exceptionEdges, h.exceptionEdges, List.map_append, List.reverse_append,
      List.append_assoc]
  le := Nat.le_trans h.le h'.le
  head := by
    rw [labels_append, List.head?_append, h.head]
    rfl
  nodup := by
    rw [labels_append]
    refine List.nodup_append.mpr ⟨h.nodup, h'.nodup, ?_⟩
    rintro l hl _ hl' rfl
    rcases h'.fresh l hl' with rfl | ⟨hlo', -⟩
    · exact hnew hl
    · have hle := h.le
      rcases h.fresh l hl with rfl | ⟨-, hhi⟩
      · omega
      · omega
  fresh l hl := by
    have hmid := h.le
    have hend := h'.le
    rw [labels_append] at hl
    rcases List.mem_append.mp hl with hl | hl
    · rcases h.fresh l hl with rfl | ⟨hlo, hhi⟩
      · exact .inl rfl
      · exact .inr ⟨hlo, by omega⟩
    · rcases h'.fresh l hl with rfl | ⟨hlo, hhi⟩
      · exact .inr ⟨hle, hlt⟩
      · exact .inr ⟨by omega, hhi⟩
  alike b hb := (List.mem_append.mp hb).elim (h.alike b) (h'.alike b)
  plain b hb := (List.mem_append.mp hb).elim (h.plain b) (h'.plain b)

end Splits

/-- The head and the branches of a conditional, which leave the label of the join unused. -/
theorem branchesOf_splits {o : Origin} {label n : ℕ} {before body orelse : List (StructuredInstr I)}
    (hbody : ∀ (l : ℕ) (term : BlockTerm I) (out : Linearized I), l < out.nextBlock →
      ∃ part, Splits o l out (linearizeBlockpyIfSequence o l [] body term out) part)
    (horelse : ∀ (l : ℕ) (term : BlockTerm I) (out : Linearized I), l < out.nextBlock →
      ∃ part, Splits o l out (linearizeBlockpyIfSequence o l [] orelse term out) part)
    (hplain : ∀ stmt ∈ before, ∃ e, stmt = .expr e) (test : I)
    (bodyTerm orelseTerm : Option (BlockTerm I)) {out : Linearized I}
    (hlabel : label < out.nextBlock) (next : BlockTerm I) (hn : 2 ≤ n) :
    ∃ part, Splits o label out
      (branchesOf o label before test body bodyTerm orelse orelseTerm out next n) part ∧
      out.nextBlock + n ≤
        (branchesOf o label before test body bodyTerm orelse orelseTerm out next n).nextBlock ∧
      ∀ l : ℕ, l ∈ labels part → l = label ∨ l = out.nextBlock ∨ l = out.nextBlock + 1 ∨
        out.nextBlock + n ≤ l := by
  have hfirst : (headOf o label before test out n).nextBlock = out.nextBlock + n := rfl
  have hhead : Splits o label out (headOf o label before test out n) _ := .of_push n hplain _
  obtain ⟨thenPart, hthen⟩ := hbody out.nextBlock (bodyTerm.getD next)
    (headOf o label before test out n) (by omega)
  have hthenLe := hthen.le
  obtain ⟨elsePart, helse⟩ := horelse (out.nextBlock + 1) (orelseTerm.getD next)
    (linearizeBlockpyIfSequence o out.nextBlock [] body (bodyTerm.getD next)
      (headOf o label before test out n)) (by omega)
  have helseLe := helse.le
  have hthenLabels : ∀ l : ℕ, l ∈ labels thenPart → l = out.nextBlock ∨ out.nextBlock + n ≤ l := by
    intro l hl
    rcases hthen.fresh l hl with rfl | ⟨hlo, -⟩
    · exact .inl rfl
    · exact .inr (by omega)
  have hfront := hhead.append hthen hlabel (Nat.le_refl _) (by omega) (by
    intro hmem
    have heq : out.nextBlock = label := List.mem_singleton.mp hmem
    omega)
  have hall := hfront.append helse hlabel (Nat.le_succ _) (by omega) (by
    intro hmem
    rw [labels_append] at hmem
    rcases List.mem_append.mp hmem with hmem | hmem
    · have heq : out.nextBlock + 1 = label := List.mem_singleton.mp hmem
      omega
    · rcases hthenLabels _ hmem with heq | hle
      · omega
      · omega)
  refine ⟨_, hall, by unfold branchesOf; omega, fun l hl => ?_⟩
  rw [labels_append, labels_append] at hl
  rcases List.mem_append.mp hl with hl | hl
  · rcases List.mem_append.mp hl with hl | hl
    · exact .inl (List.mem_singleton.mp hl)
    · rcases hthenLabels l hl with heq | hle
      · exact .inr (.inl heq)
      · exact .inr (.inr (.inr hle))
  · rcases helse.fresh l hl with heq | ⟨hlo, -⟩
    · exact .inr (.inr (.inl heq))
    · exact .inr (.inr (.inr (by omega)))

theorem linearize_splits (o : Origin) (body : List (StructuredInstr I)) (label : ℕ)
    (before : List (StructuredInstr I)) (finalTerm : BlockTerm I) (out : Linearized I)
    (hlabel : label < out.nextBlock) (hplain : ∀ stmt ∈ before, ∃ e, stmt = .expr e) :
    ∃ part, Splits o label out
      (linearizeBlockpyIfSequence o label before body finalTerm out) part := by
  induction body using nestedLabels.induct generalizing label before finalTerm out with
  | case1 =>
    rw [linearizeBlockpyIfSequence]
    exact ⟨_, Splits.of_push 0 hplain finalTerm⟩
  | case2 e rest ih =>
    rw [linearizeBlockpyIfSequence]
    refine ih label (before ++ [.expr e]) finalTerm out hlabel fun stmt hstmt => ?_
    rcases List.mem_append.mp hstmt with hstmt | hstmt
    · exact hplain stmt hstmt
    · exact ⟨e, List.mem_singleton.mp hstmt⟩
  | case3 test body bodyTerm orelse orelseTerm rest ihBody ihOrelse ihRest =>
    have hnil : ∀ stmt ∈ ([] : List (StructuredInstr I)), ∃ e, stmt = .expr e :=
      fun stmt hstmt => by cases hstmt
    have hbody := fun l term out hl => ihBody l [] term out hl hnil
    have horelse := fun l term out hl => ihOrelse l [] term out hl hnil
    cases rest with
    | nil =>
      rw [linearize_last]
      obtain ⟨part, hpart, -⟩ := branchesOf_splits hbody horelse hplain test bodyTerm orelseTerm
        hlabel finalTerm (Nat.le_refl 2)
      exact ⟨part, hpart⟩
    | cons stmt rest =>
      rw [linearize_join]
      obtain ⟨part, hpart, hle, hlabels⟩ := branchesOf_splits hbody horelse hplain test bodyTerm
        orelseTerm hlabel (.jump (BlockEdge.new (out.nextBlock + 2))) (by omega : 2 ≤ 3)
      obtain ⟨joinPart, hjoin⟩ := ihRest (out.nextBlock + 2) [] finalTerm _
        (by omega : out.nextBlock + 2 < (branchesOf o label before test body bodyTerm orelse
          orelseTerm out (.jump (BlockEdge.new (out.nextBlock + 2))) 3).nextBlock) hnil
      have hjoinLe := hjoin.le
      refine ⟨_, hpart.append hjoin hlabel (by omega) (by omega) fun hmem => ?_⟩
      rcases hlabels _ hmem with heq | heq | heq | hle
      · omega
      · omega
      · omega
      · omega

end DietPython.Blocks
