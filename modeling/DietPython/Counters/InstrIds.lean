import DietPython.Blocks.Instr
import DietPython.Blocks.InstrMaps
import DietPython.Counters.Ids
import Mathlib

/-!
# Identifiers of instructions

The instructions of a block are numbered in the order in which they are visited, an instruction
before its operands. The number is 32 bits wide, and the pass stops the process when a block has no
number left. Otherwise the instructions of a block get the numbers from 0 on, all identifiers of a
callable are different, and nothing else changes.
-/

namespace DietPython.Counters

open Blocks (Block BlockLabel BlockTerm labels)

/-- An instruction: what it is, its identifier, and its operands in the order in which they are
visited. -/
inductive Instruction (A : Type)
  | mk (kind : A) (instrId : Option InstrId) (operands : List (Instruction A))

variable {A : Type}

/-! ## The pass -/

/-- The index behind this one, if it fits. -/
def checkedNextIndex (index : ℕ) : Option ℕ :=
  if index + 1 < 2 ^ 32 then some (index + 1) else none

def instrIdAt (label : BlockLabel) (index : ℕ) : InstrId :=
  ⟨UInt32.ofNat label, UInt32.ofNat index⟩

mutual

/-- `BlockInstrIdAssigner::visit_instr_mut` -/
def assignInstrId (label : BlockLabel) : Instruction A → ℕ → Option (Instruction A × ℕ)
  | .mk kind _ operands, index => do
    let next ← checkedNextIndex index
    let (operands, next) ← assignInstrIds label operands next
    return (.mk kind (some (instrIdAt label index)) operands, next)

def assignInstrIds (label : BlockLabel) :
    List (Instruction A) → ℕ → Option (List (Instruction A) × ℕ)
  | [], index => some ([], index)
  | e :: es, index => do
    let (e, next) ← assignInstrId label e index
    let (es, next) ← assignInstrIds label es next
    return (e :: es, next)

end

def assignTermInstrIds (label : BlockLabel) (term : BlockTerm (Instruction A)) :
    ℕ → Option (BlockTerm (Instruction A) × ℕ) :=
  BlockTerm.mapM (m := StateT ℕ Option) (assignInstrId label) term

def assignBlockInstrIds (b : Block (Instruction A) (Instruction A)) :
    Option (Block (Instruction A) (Instruction A)) := do
  let (body, next) ← assignInstrIds b.label b.body 0
  let (term, _) ← assignTermInstrIds b.label b.term next
  return { b with body := body, term := term }

/-- `assign_function_instr_ids` -/
def assignFunctionInstrIds (blocks : List (Block (Instruction A) (Instruction A))) :
    Option (List (Block (Instruction A) (Instruction A))) := blocks.mapM assignBlockInstrIds

/-! ## What is assigned -/

mutual

/-- The identifiers in an instruction, in the order in which they are visited. -/
def Instruction.ids : Instruction A → List (Option InstrId)
  | .mk _ instrId operands => instrId :: idsAll operands

def idsAll : List (Instruction A) → List (Option InstrId)
  | [] => []
  | e :: es => e.ids ++ idsAll es

end

mutual

/-- The instruction without identifiers. -/
def Instruction.erase : Instruction A → Instruction A
  | .mk kind _ operands => .mk kind none (eraseAll operands)

def eraseAll : List (Instruction A) → List (Instruction A)
  | [] => []
  | e :: es => e.erase :: eraseAll es

end

theorem eraseAll_eq_map (es : List (Instruction A)) : eraseAll es = es.map Instruction.erase := by
  induction es with
  | nil => rfl
  | cons e es ih => rw [eraseAll, ih, List.map_cons]

def termIds (term : BlockTerm (Instruction A)) : List (Option InstrId) :=
  (term.operand.map Instruction.ids).getD []

def blockIds (b : Block (Instruction A) (Instruction A)) : List (Option InstrId) :=
  idsAll b.body ++ termIds b.term

/-- This many identifiers of a block from an index on. -/
def idsFrom (label : BlockLabel) (index count : ℕ) : List (Option InstrId) :=
  (List.range' index count).map fun i => some (instrIdAt label i)

theorem idsFrom_succ (label : BlockLabel) (index count : ℕ) :
    idsFrom label index (count + 1) =
      some (instrIdAt label index) :: idsFrom label (index + 1) count := rfl

theorem idsFrom_append (label : BlockLabel) (index count more : ℕ) :
    idsFrom label index (count + more) =
      idsFrom label index count ++ idsFrom label (index + count) more := by
  unfold idsFrom
  rw [← List.map_append, List.range'_append_1]

/-- What numbering something from an index on gives: the numbers do not fit, or it has them and is
what it was otherwise. -/
inductive Numbered {T U : Type} (label : BlockLabel) (index : ℕ) (ids : T → List (Option InstrId))
    (erase : T → U) (t : T) : Option (T × ℕ) → Prop
  | fits {t' : T} {next : ℕ} (hnext : next = index + (ids t).length) (hfits : next < 2 ^ 32)
      (hids : ids t' = idsFrom label index (ids t).length) (herase : erase t' = erase t) :
      Numbered label index ids erase t (some (t', next))
  | overflows (h : 2 ^ 32 ≤ index + (ids t).length) : Numbered label index ids erase t none

mutual

/-- An instruction takes one number, and then its operands take theirs. -/
theorem assignInstrId_numbered (label : BlockLabel) :
    ∀ (e : Instruction A) {index : ℕ}, index < 2 ^ 32 →
      Numbered label index Instruction.ids Instruction.erase e (assignInstrId label e index)
  | .mk kind instrId operands, index, _ => by
    have hlength : (Instruction.mk kind instrId operands).ids.length =
        (idsAll operands).length + 1 := by
      rw [Instruction.ids, List.length_cons]
    rw [assignInstrId, checkedNextIndex]
    by_cases hnext : index + 1 < 2 ^ 32
    · rw [if_pos hnext]
      have hoperands := assignInstrIds_numbered label operands hnext
      show Numbered _ _ _ _ _ (assignInstrIds label operands (index + 1) >>= _)
      generalize assignInstrIds label operands (index + 1) = result at hoperands ⊢
      cases hoperands with
      | fits hnext hfits hids herase =>
        refine .fits ?_ hfits ?_ ?_
        · rw [hlength, hnext]
          omega
        · rw [hlength, Instruction.ids, hids, idsFrom_succ]
        · rw [Instruction.erase, Instruction.erase, herase]
      | overflows h =>
        refine .overflows ?_
        rw [hlength]
        omega
    · rw [if_neg hnext]
      refine .overflows ?_
      rw [hlength]
      omega

theorem assignInstrIds_numbered (label : BlockLabel) :
    ∀ (es : List (Instruction A)) {index : ℕ}, index < 2 ^ 32 →
      Numbered label index idsAll eraseAll es (assignInstrIds label es index)
  | [], index, hindex => .fits rfl hindex rfl rfl
  | e :: es, index, hindex => by
    have hlength : (idsAll (e :: es)).length = e.ids.length + (idsAll es).length := by
      rw [idsAll, List.length_append]
    have he := assignInstrId_numbered label e hindex
    rw [assignInstrIds]
    show Numbered _ _ _ _ _ (assignInstrId label e index >>= _)
    generalize assignInstrId label e index = result at he ⊢
    cases he with
    | fits hnext hfits hids herase =>
      have hes := assignInstrIds_numbered label es hfits
      show Numbered _ _ _ _ _ (assignInstrIds label es _ >>= _)
      generalize assignInstrIds label es _ = rest at hes ⊢
      cases hes with
      | fits hnext' hfits' hids' herase' =>
        refine .fits ?_ hfits' ?_ ?_
        · rw [hlength, hnext', hnext, Nat.add_assoc]
        · rw [hlength, idsAll, hids, hids', hnext, idsFrom_append]
        · rw [eraseAll, eraseAll, herase, herase']
      | overflows h =>
        refine .overflows ?_
        rw [hlength, ← Nat.add_assoc, ← hnext]
        exact h
    | overflows h =>
      refine .overflows ?_
      rw [hlength]
      omega

end

/-- A terminator with an operand, which is put back around the numbered one. -/
theorem Numbered.around {label : BlockLabel} {index : ℕ} {e : Instruction A}
    {result : Option (Instruction A × ℕ)}
    (h : Numbered label index Instruction.ids Instruction.erase e result)
    (around : Instruction A → BlockTerm (Instruction A)) (hids : ∀ e, termIds (around e) = e.ids)
    (herase : ∀ e, (around e).mapInstr Instruction.erase = around e.erase) :
    Numbered label index termIds (BlockTerm.mapInstr Instruction.erase) (around e)
      (result.map fun r => (around r.1, r.2)) := by
  cases h with
  | fits hnext hfits hids' herase' =>
    refine .fits ?_ hfits ?_ ?_
    · rw [hids, hnext]
    · rw [hids, hids, hids']
    · rw [herase, herase, herase']
  | overflows h =>
    refine .overflows ?_
    rw [hids]
    exact h

theorem assignTermInstrIds_numbered (label : BlockLabel) (term : BlockTerm (Instruction A))
    {index : ℕ} (hindex : index < 2 ^ 32) :
    Numbered label index termIds (BlockTerm.mapInstr Instruction.erase) term
      (assignTermInstrIds label term index) := by
  have hnumbered := fun e => assignInstrId_numbered (A := A) label e hindex
  cases term with
  | jump edge => exact .fits rfl hindex rfl rfl
  | ifTerm test thenLabel elseLabel =>
    have h := (hnumbered test).around (fun e => .ifTerm e thenLabel elseLabel)
      (fun _ => rfl) fun _ => rfl
    show Numbered _ _ _ _ _ (assignInstrId label test index >>= _)
    cases hresult : assignInstrId label test index <;> rw [hresult] at h <;> exact h
  | branchTable branch targets defaultLabel =>
    have h := (hnumbered branch).around (fun e => .branchTable e targets defaultLabel)
      (fun _ => rfl) fun _ => rfl
    show Numbered _ _ _ _ _ (assignInstrId label branch index >>= _)
    cases hresult : assignInstrId label branch index <;> rw [hresult] at h <;> exact h
  | raiseTerm exc =>
    cases exc with
    | none => exact .fits rfl hindex rfl rfl
    | some exc =>
      have h := (hnumbered exc).around (fun e => .raiseTerm (some e)) (fun _ => rfl)
        fun _ => rfl
      show Numbered _ _ _ _ _ (assignInstrId label exc index >>= _)
      cases hresult : assignInstrId label exc index <;> rw [hresult] at h <;> exact h
  | ret value =>
    have h := (hnumbered value).around .ret (fun _ => rfl) fun _ => rfl
    show Numbered _ _ _ _ _ (assignInstrId label value index >>= _)
    cases hresult : assignInstrId label value index <;> rw [hresult] at h <;> exact h

/-- What becomes of a block whose numbers fit. -/
structure BlockNumbered (b b' : Block (Instruction A) (Instruction A)) : Prop where
  fits : (blockIds b).length < 2 ^ 32
  ids : blockIds b' = idsFrom b.label 0 (blockIds b).length
  erase : b'.mapInstr Instruction.erase = b.mapInstr Instruction.erase

theorem assignBlockInstrIds_numbered (b : Block (Instruction A) (Instruction A)) :
    (∃ b', assignBlockInstrIds b = some b' ∧ BlockNumbered b b') ∨
      assignBlockInstrIds b = none ∧ 2 ^ 32 ≤ (blockIds b).length := by
  have hlength : (blockIds b).length = (idsAll b.body).length + (termIds b.term).length :=
    List.length_append
  have hbody := assignInstrIds_numbered b.label b.body (by decide : 0 < 2 ^ 32)
  rw [assignBlockInstrIds]
  generalize assignInstrIds b.label b.body 0 = result at hbody ⊢
  cases hbody with
  | @fits body next hnext hfits hids herase =>
    have hterm := assignTermInstrIds_numbered b.label b.term hfits
    show (∃ b', (assignTermInstrIds b.label b.term next >>= _) = some b' ∧ _) ∨
      (assignTermInstrIds b.label b.term next >>= _) = none ∧ _
    generalize assignTermInstrIds b.label b.term next = result at hterm ⊢
    cases hterm with
    | @fits term next' hnext' hfits' hids' herase' =>
      refine .inl ⟨_, rfl, ?_, ?_, ?_⟩
      · rw [hlength]
        omega
      · show idsAll body ++ termIds term = _
        rw [hids, hids', hlength, idsFrom_append, hnext]
      · rw [eraseAll_eq_map, eraseAll_eq_map] at herase
        show Block.mk b.label (body.map _) (term.mapInstr _) b.params b.excEdge = _
        rw [herase, herase']
        rfl
    | overflows h =>
      refine .inr ⟨rfl, ?_⟩
      rw [hlength]
      omega
  | overflows h =>
    refine .inr ⟨rfl, ?_⟩
    rw [hlength]
    omega

/-! ## A callable -/

theorem assignFunctionInstrIds_numbered (blocks : List (Block (Instruction A) (Instruction A))) :
    (∃ blocks', assignFunctionInstrIds blocks = some blocks' ∧
        List.Forall₂ BlockNumbered blocks blocks') ∨
      assignFunctionInstrIds blocks = none ∧ ∃ b ∈ blocks, 2 ^ 32 ≤ (blockIds b).length := by
  unfold assignFunctionInstrIds
  induction blocks with
  | nil => exact .inl ⟨[], rfl, .nil⟩
  | cons b blocks ih =>
    rw [List.mapM_cons]
    rcases assignBlockInstrIds_numbered b with ⟨b', hb', hnumbered⟩ | ⟨hnone, hmany⟩
    · rw [hb']
      rcases ih with ⟨blocks', hblocks', hall⟩ | ⟨hnone, c, hc, hmany⟩
      · rw [hblocks']
        exact .inl ⟨_, rfl, .cons hnumbered hall⟩
      · rw [hnone]
        exact .inr ⟨rfl, c, List.mem_cons_of_mem _ hc, hmany⟩
    · rw [hnone]
      exact .inr ⟨rfl, b, List.mem_cons_self, hmany⟩

theorem instrIdAt_inj {label label' : BlockLabel} {index index' : ℕ} (hlabel : label < 2 ^ 32)
    (hlabel' : label' < 2 ^ 32) (hindex : index < 2 ^ 32) (hindex' : index' < 2 ^ 32)
    (h : instrIdAt label index = instrIdAt label' index') : label = label' ∧ index = index' := by
  have hlabels := congrArg (UInt32.toNat ∘ InstrId.blockLabel) h
  have hindexes := congrArg (UInt32.toNat ∘ InstrId.instrIndexInBlock) h
  simp only [Function.comp_apply, instrIdAt] at hlabels hindexes
  rw [UInt32.toNat_ofNat', UInt32.toNat_ofNat', Nat.mod_eq_of_lt hlabel,
    Nat.mod_eq_of_lt hlabel'] at hlabels
  rw [UInt32.toNat_ofNat', UInt32.toNat_ofNat', Nat.mod_eq_of_lt hindex,
    Nat.mod_eq_of_lt hindex'] at hindexes
  exact ⟨hlabels, hindexes⟩

theorem mem_idsFrom {label : BlockLabel} {count : ℕ} {id : Option InstrId}
    (h : id ∈ idsFrom label 0 count) : ∃ index < count, id = some (instrIdAt label index) := by
  obtain ⟨index, hindex, rfl⟩ := List.mem_map.mp h
  obtain ⟨-, hlt⟩ := List.mem_range'_1.mp hindex
  exact ⟨index, by omega, rfl⟩

theorem nodup_idsFrom {label : BlockLabel} {count : ℕ} (hlabel : label < 2 ^ 32)
    (hcount : count < 2 ^ 32) : (idsFrom label 0 count).Nodup := by
  refine List.Nodup.map_on (fun i hi j hj heq => ?_) List.nodup_range'
  obtain ⟨-, hi⟩ := List.mem_range'_1.mp hi
  obtain ⟨-, hj⟩ := List.mem_range'_1.mp hj
  exact (instrIdAt_inj hlabel hlabel (by omega) (by omega) (Option.some.inj heq)).2

theorem mem_blockIds_of_numbered {blocks blocks' : List (Block (Instruction A) (Instruction A))}
    (h : List.Forall₂ BlockNumbered blocks blocks') {id : Option InstrId}
    (hid : id ∈ blocks'.flatMap blockIds) :
    ∃ label ∈ labels blocks, ∃ index < 2 ^ 32, id = some (instrIdAt label index) := by
  induction h with
  | nil => cases hid
  | @cons b b' blocks blocks' hb hall ih =>
    rcases List.mem_append.mp hid with hid | hid
    · rw [hb.ids] at hid
      obtain ⟨index, hindex, rfl⟩ := mem_idsFrom hid
      exact ⟨b.label, List.mem_cons_self, index, Nat.lt_trans hindex hb.fits, rfl⟩
    · obtain ⟨label, hlabel, hindex⟩ := ih hid
      exact ⟨label, List.mem_cons_of_mem _ hlabel, hindex⟩

/-- Blocks with different labels have no identifier in common. -/
theorem nodup_blockIds_of_numbered {blocks blocks' : List (Block (Instruction A) (Instruction A))}
    (h : List.Forall₂ BlockNumbered blocks blocks') (hnodup : (labels blocks).Nodup)
    (hlabels : ∀ label ∈ labels blocks, label < 2 ^ 32) : (blocks'.flatMap blockIds).Nodup := by
  induction h with
  | nil => exact List.nodup_nil
  | @cons b b' blocks blocks' hb hall ih =>
    obtain ⟨hfresh, hnodup⟩ := List.nodup_cons.mp hnodup
    obtain ⟨hlabel, hlabels⟩ := List.forall_mem_cons.mp hlabels
    rw [List.flatMap_cons, List.nodup_append', hb.ids]
    refine ⟨nodup_idsFrom hlabel hb.fits, ih hnodup hlabels, fun id hid hid' => ?_⟩
    obtain ⟨index, hindex, rfl⟩ := mem_idsFrom hid
    obtain ⟨label, hmem, index', hindex', heq⟩ := mem_blockIds_of_numbered hall hid'
    obtain ⟨rfl, -⟩ := instrIdAt_inj hlabel (hlabels label hmem) (Nat.lt_trans hindex hb.fits)
      hindex' (Option.some.inj heq)
    exact hfresh hmem

/-- **Identifiers of instructions.** The pass goes through exactly when no block has `2 ^ 32`
instructions. Each block is then what it was, with the identifiers of its label from `0` on in the
order in which its instructions are visited, and those of blocks with different labels differ. -/
theorem assignFunctionInstrIds_distinct (blocks : List (Block (Instruction A) (Instruction A))) :
    ((assignFunctionInstrIds blocks).isSome ↔ ∀ b ∈ blocks, (blockIds b).length < 2 ^ 32) ∧
      ∀ blocks', assignFunctionInstrIds blocks = some blocks' →
        List.Forall₂ (fun b b' => blockIds b' = idsFrom b.label 0 (blockIds b).length ∧
          b'.mapInstr Instruction.erase = b.mapInstr Instruction.erase) blocks blocks' ∧
        ((labels blocks).Nodup → (∀ label ∈ labels blocks, label < 2 ^ 32) →
          (blocks'.flatMap blockIds).Nodup) := by
  rcases assignFunctionInstrIds_numbered blocks with ⟨blocks', heq, hall⟩ | ⟨hnone, b, hb, hmany⟩
  · rw [heq]
    refine ⟨⟨fun _ b hb => ?_, fun _ => rfl⟩, ?_⟩
    · obtain ⟨i, hi, rfl⟩ := List.mem_iff_getElem.mp hb
      exact (hall.get hi (hall.length_eq ▸ hi)).fits
    · intro _ heq
      cases heq
      exact ⟨hall.imp fun _ _ hb => ⟨hb.ids, hb.erase⟩,
        fun hnodup hlabels => nodup_blockIds_of_numbered hall hnodup hlabels⟩
  · rw [hnone]
    refine ⟨⟨fun h => (by cases h), fun h => absurd (h b hb) (Nat.not_lt.mpr hmany)⟩,
      fun blocks' h => (by cases h)⟩

/-- A call of a call, and what a block returns. -/
example : (assignFunctionInstrIds (A := String)
    [⟨3, [.mk "call" none [.mk "call" none [.mk "load" none []], .mk "load" none []]],
      .ret (.mk "load" none []), [], none⟩]).map (List.flatMap blockIds) =
    some [some ⟨3, 0⟩, some ⟨3, 1⟩, some ⟨3, 2⟩, some ⟨3, 3⟩, some ⟨3, 4⟩] := by decide

end DietPython.Counters
