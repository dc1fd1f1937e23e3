import DietPython.Generators.ResumeMachine
import DietPython.Lib.Labels

/-!
# Where the blocks are

`Emitted` says that a graph of blocks, with the jump table of its dispatch, has the code of a
fragment and of everything that follows its yields. The lowering puts it there for each block of
the callable.
-/

namespace DietPython.Generators

open Labelled

section Emitted

variable {n : ℕ} {L : Lang} (g : List (ResumeBlock L)) (targets : List ℕ)

/-- The blocks are in the graph, under their labels. -/
def Placed (blocks : List (ResumeBlock L)) : Prop := ∀ b ∈ blocks, blockAt g b.label = some b

theorem Placed.of_mem {g : List (ResumeBlock L)} {blocks : List (ResumeBlock L)}
    (h : Placed g blocks) {b : ResumeBlock L} (hb : b ∈ blocks) : Placed g [b] := by
  intro b' hb'
  obtain rfl := List.mem_singleton.mp hb'
  exact h b' hb

/-- A completion, in front of which `body` runs. -/
def CompletionAt (params : List (BlockParam L)) (exc : Option ℕ) (label : ℕ)
    (body : List (ResumeStmt L)) (value : Completion L) : Prop :=
  ∃ l, Placed g [pushedBlock label params body (.goto l) exc,
    pushedBlock l params [] (.complete value) none]

/-- The resume point of a plain yield. -/
def YieldPlaced (params : List (BlockParam L)) (exc : Option ℕ) (y : YieldSite) : Prop :=
  targets[y.pc]? = some y.label ∧ Placed g (y.blocks params exc)

/-- The resume point of a delegation. -/
def DelegatePlaced (params : List (BlockParam L)) (exc : Option ℕ) (d : DelegateSite) : Prop :=
  targets[d.pc]? = some d.label ∧ Placed g (d.blocks params exc)

/-- The completion behind a `return` of a plain yield. -/
def YieldSite.CompletesAt (params : List (BlockParam L)) (exc : Option ℕ) (y : YieldSite) : Prop :=
  CompletionAt g params exc y.continueLabel [] .sendValue

/-- The completion behind a `return` of a delegation. -/
def DelegateSite.CompletesAt (params : List (BlockParam L)) (exc : Option ℕ) (d : DelegateSite) :
    Prop :=
  CompletionAt g params exc d.done [.clearYieldfrom, .storeYieldFromValue d.yieldedValue]
    .yieldFromValue

variable (params : List (BlockParam L)) (exc : Option (Fin (n + 1)))

/-- The code of a terminator. -/
def EmittedTerm : YieldTerm n L → List (ResumeStmt L) → ResumeTerm L → Prop
  | .jump l args, code, t => code = [] ∧ t = .jump l args
  | .ifTerm test l l', code, t => code = [] ∧ t = .ifTerm test l l'
  | .branchTable index ls l, code, t => code = [] ∧ t = .branchTable index (ls.map Fin.val) l
  | .raiseTerm x, code, t => code = [] ∧ t = .raiseTerm params x
  | .ret x, code, t =>
    ∃ l, code = [] ∧ t = .goto l ∧ Placed g [pushedBlock l params [] (.complete (.expr x)) none]
  | .retYield value, code, t =>
    ∃ y : YieldSite, code = [.storePc y.pc, .clearYieldfrom] ∧ t = .ret value ∧
      YieldPlaced g targets params (exc.map Fin.val) y ∧ y.CompletesAt g params (exc.map Fin.val)
  | .retYieldFrom value, code, t =>
    ∃ d : DelegateSite, code = [.storeIter value.lowerAwait, .storePc d.pc] ∧ t = .goto d.label ∧
      DelegatePlaced g targets params (exc.map Fin.val) d ∧
      d.CompletesAt g params (exc.map Fin.val)

/-- The code of a fragment, up to its first yield, and what follows it. -/
def Emitted : List (YieldStmt L) → YieldTerm n L → List (ResumeStmt L) → ResumeTerm L → Prop
  | [], term, code, t => EmittedTerm g targets params exc term code t
  | .plain s :: body, term, code, t => ∃ code', code = .plain s :: code' ∧ Emitted body term code' t
  | .yieldValue x value :: body, term, code, t =>
    ∃ y : YieldSite, code = [.storePc y.pc, .clearYieldfrom] ∧ t = .ret value ∧
      YieldPlaced g targets params (exc.map Fin.val) y ∧
      ∃ code' t', Placed g [pushedBlock y.continueLabel params (afterYield x ++ code') t'
        (exc.map Fin.val)] ∧ Emitted body term code' t'
  | .yieldFrom x value :: body, term, code, t =>
    ∃ d : DelegateSite, code = [.storeIter value.lowerAwait, .storePc d.pc] ∧ t = .goto d.label ∧
      DelegatePlaced g targets params (exc.map Fin.val) d ∧
      ∃ code' t', Placed g [pushedBlock d.done params
        (afterYieldFrom d.yieldedValue x ++ code') t' (exc.map Fin.val)] ∧
        Emitted body term code' t'

end Emitted

section Rest

variable {n : ℕ} {L : Lang} (g : List (ResumeBlock L)) (targets : List ℕ)

/-- What follows a plain yield. -/
def YieldSite.RestAt (y : YieldSite) : Rest n L → Prop
  | .block place x body term =>
    ∃ code t, Placed g [pushedBlock y.continueLabel place.params (afterYield x ++ code) t
      (place.exc.map Fin.val)] ∧ Emitted g targets place.params place.exc body term code t
  | .ret place => y.CompletesAt g place.params (place.exc.map Fin.val)

/-- What follows a delegation. -/
def DelegateSite.RestAt (d : DelegateSite) : Rest n L → Prop
  | .block place x body term =>
    ∃ code t, Placed g [pushedBlock d.done place.params
      (afterYieldFrom d.yieldedValue x ++ code) t (place.exc.map Fin.val)] ∧
      Emitted g targets place.params place.exc body term code t
  | .ret place => d.CompletesAt g place.params (place.exc.map Fin.val)

/-- The graph has the code of the callable. -/
def Lowers (p : YieldProgram n L) : Prop :=
  ∀ l : Fin (n + 1), ∃ code t,
    Placed g [pushedBlock l (p l).params code t ((p l).exc.map Fin.val)] ∧
      Emitted g targets (p l).params (p l).exc (p l).body (p l).term code t

end Rest

/-! ## What a fragment pushes -/

section Pushed

variable {n : ℕ} {L : Lang}

/-- Blocks and resume points that are added for a fragment: one block has its label, and the other
labels and the resume points are drawn from the counters. -/
structure Pushed (label : ℕ) (st st' : ResumeLoweringState L) : Prop where
  label_le : st.nextLabel ≤ st'.nextLabel
  pc_le : st.nextResumePc ≤ st'.nextResumePc
  blocks : ∃ b rest, st'.blocks = st.blocks ++ b :: rest ∧ b.label = label ∧
    Span ResumeBlock.label st.nextLabel st'.nextLabel rest
  targets : ∃ new, st'.resumeTargets = st.resumeTargets ++ new ∧
    Span Prod.fst st.nextResumePc st'.nextResumePc new

variable {st st' : ResumeLoweringState L}

/-- One block. -/
theorem pushed_push {label : ℕ} {b : ResumeBlock L} (hb : b.label = label) :
    Pushed label st (st.push [b]) where
  label_le := Nat.le_refl _
  pc_le := Nat.le_refl _
  blocks := ⟨b, [], rfl, hb, Span.nil _ _⟩
  targets := ⟨[], (List.append_nil _).symm, Span.nil _ _⟩

theorem pushed_completion (st : ResumeLoweringState L) (label : ℕ) (body : List (ResumeStmt L))
    (value : Completion L) (params : List (BlockParam L)) (exc : Option ℕ) :
    Pushed label st (st.pushCompletionRaiseBlock label body value params exc) where
  label_le := Nat.le_succ _
  pc_le := Nat.le_refl _
  blocks := ⟨pushedBlock label params body (.goto st.nextLabel) exc, _, rfl, rfl,
    Span.singleton _ (Nat.le_refl _) (Nat.lt_succ_self _)⟩
  targets := ⟨[], (List.append_nil _).symm, Span.nil _ _⟩

/-- A suspension, and its continuation. -/
theorem Pushed.of_suspension {label next count : ℕ} {b : ResumeBlock L} (hb : b.label = label)
    {site : List (ResumeBlock L)} {st₁ : ResumeLoweringState L} {target : ℕ}
    (hblocks : st₁.blocks = st.blocks ++ b :: site) (hlabel : st₁.nextLabel = st.nextLabel + count)
    (hpc : st₁.nextResumePc = st.nextResumePc + 1)
    (htargets : st₁.resumeTargets = st.resumeTargets ++ [(st.nextResumePc, target)])
    (hsite : ∀ c : ResumeBlock L, c.label = next →
      Span ResumeBlock.label st.nextLabel (st.nextLabel + count) (site ++ [c]))
    (h : Pushed next st₁ st') : Pushed label st st' := by
  obtain ⟨hle, hpcle, ⟨c, rest, hblocks', hc, hrest⟩, new, hnew, hspan⟩ := h
  rw [hlabel] at hle hrest
  rw [hpc] at hpcle hspan
  have hone : Span Prod.fst st.nextResumePc (st.nextResumePc + 1) [(st.nextResumePc, target)] :=
    Span.singleton _ (Nat.le_refl _) (Nat.lt_succ_self _)
  refine ⟨by omega, by omega, ⟨b, site ++ c :: rest, ?_, hb, ?_⟩,
    (st.nextResumePc, target) :: new, ?_, ?_⟩
  · rw [hblocks', hblocks, List.append_assoc]
    rfl
  · have hspan := (hsite c hc).append hrest (Nat.le_add_right _ _) hle
    rwa [List.append_assoc] at hspan
  · rw [hnew, htargets, List.append_assoc]
    rfl
  · exact hone.append hspan (Nat.le_succ _) hpcle

section Sites

variable {label : ℕ} {body : List (ResumeStmt L)} {params : List (BlockParam L)} {exc : Option ℕ}

theorem Pushed.of_emitYield {value : Option L.Expr}
    (h : Pushed st.yieldSite.continueLabel (st.emitYield label body value params exc) st') :
    Pushed label st st' := by
  refine .of_suspension rfl rfl rfl rfl rfl (fun c hc => ?_) h
  refine Span.of_offsets [0, 1, 2] ?_ (by decide) (by decide)
  rw [List.map_append, List.map_singleton, hc]
  rfl

theorem Pushed.of_emitYieldFrom {value : L.Expr}
    (h : Pushed st.delegateSite.done (st.emitYieldFrom label body value params exc) st') :
    Pushed label st st' := by
  refine .of_suspension rfl rfl rfl rfl rfl (fun c hc => ?_) h
  refine Span.of_offsets [0, 1, 3, 4, 2, 7, 8, 5, 6, 10, 11, 12, 13, 9, 14] ?_ (by decide)
    (by decide)
  rw [List.map_append, List.map_singleton, hc]
  rfl

end Sites

/-- A fragment. -/
theorem lowerResumeFragment_pushed (params : List (BlockParam L)) (exc : Option ℕ)
    (st : ResumeLoweringState L) (label : ℕ) (front : List (ResumeStmt L))
    (body : List (YieldStmt L)) (term : YieldTerm n L) :
    Pushed label st (lowerResumeFragment params exc st label front body term) := by
  fun_induction lowerResumeFragment params exc st label front body term with
  | case1 st label front s body term ih => exact ih
  | case2 st label front x value body term ih => exact ih.of_emitYield
  | case3 st label front x value body term ih => exact ih.of_emitYieldFrom
  | case4 st label front value => exact (pushed_completion ..).of_emitYield
  | case5 st label front value => exact (pushed_completion ..).of_emitYieldFrom
  | case6 st label front value => exact pushed_completion ..
  | case7 => exact pushed_push rfl
  | case8 => exact pushed_push rfl
  | case9 => exact pushed_push rfl
  | case10 => exact pushed_push rfl

theorem Pushed.blocks_subset {label : ℕ} (h : Pushed label st st') : st.blocks ⊆ st'.blocks := by
  obtain ⟨b, rest, hblocks, -⟩ := h.blocks
  rw [hblocks]
  exact List.subset_append_left ..

theorem Pushed.targets_subset {label : ℕ} (h : Pushed label st st') :
    st.resumeTargets ⊆ st'.resumeTargets := by
  obtain ⟨new, hnew, -⟩ := h.targets
  rw [hnew]
  exact List.subset_append_left ..

end Pushed

/-! ## What a fragment has pushed -/

section Fragments

variable {n : ℕ} {L : Lang} {g : List (ResumeBlock L)} {targets : List ℕ}

variable (g targets) in
/-- The graph has what a state has pushed. -/
structure Holds (st : ResumeLoweringState L) : Prop where
  blocks : Placed g st.blocks
  targets : ∀ e ∈ st.resumeTargets, targets[e.1]? = some e.2

theorem Holds.of_pushed {st st' : ResumeLoweringState L} (h : Holds g targets st') {label : ℕ}
    (hpushed : Pushed label st st') : Holds g targets st :=
  ⟨fun b hb => h.blocks b (hpushed.blocks_subset hb),
    fun e he => h.targets e (hpushed.targets_subset he)⟩

/-- A part of a graph that ends with these blocks. -/
theorem Placed.of_append {front blocks : List (ResumeBlock L)} (h : Placed g (front ++ blocks)) :
    Placed g blocks := fun b hb => h b (List.mem_append_right _ hb)

section Sites

variable {st : ResumeLoweringState L} {label : ℕ} {body : List (ResumeStmt L)}
  {params : List (BlockParam L)} {exc : Option ℕ}

theorem Holds.push {b : ResumeBlock L} (h : Holds g targets (st.push [b])) : Placed g [b] :=
  h.blocks.of_append

theorem Holds.completion {value : Completion L}
    (h : Holds g targets (st.pushCompletionRaiseBlock label body value params exc)) :
    CompletionAt g params exc label body value := ⟨st.nextLabel, h.blocks.of_append⟩

theorem Holds.emitYield {value : Option L.Expr}
    (h : Holds g targets (st.emitYield label body value params exc)) :
    Placed g [pushedBlock label params
        (body ++ [.storePc st.yieldSite.pc, .clearYieldfrom]) (.ret value) exc] ∧
      YieldPlaced g targets params exc st.yieldSite := by
  have hblocks := h.blocks.of_append
  have htarget := h.targets (st.yieldSite.pc, st.yieldSite.label)
    (List.mem_append_right _ (List.mem_singleton_self _))
  exact ⟨hblocks.of_mem (List.mem_cons_self ..), htarget,
    fun b hb => hblocks b (List.mem_cons_of_mem _ hb)⟩

theorem Holds.emitYieldFrom {value : L.Expr}
    (h : Holds g targets (st.emitYieldFrom label body value params exc)) :
    Placed g [pushedBlock label params
        (body ++ [.storeIter value, .storePc st.delegateSite.pc])
        (.goto st.delegateSite.label) exc] ∧
      DelegatePlaced g targets params exc st.delegateSite := by
  have hblocks := h.blocks.of_append
  have htarget := h.targets (st.delegateSite.pc, st.delegateSite.label)
    (List.mem_append_right _ (List.mem_singleton_self _))
  exact ⟨hblocks.of_mem (List.mem_cons_self ..), htarget,
    fun b hb => hblocks b (List.mem_cons_of_mem _ hb)⟩

end Sites

/-- A fragment is emitted behind the statements that have been passed. -/
theorem lowerResumeFragment_emitted {params : List (BlockParam L)} {exc : Option (Fin (n + 1))}
    {e : Option ℕ} (he : e = exc.map Fin.val) (st : ResumeLoweringState L) (label : ℕ)
    (front : List (ResumeStmt L)) (body : List (YieldStmt L)) (term : YieldTerm n L)
    (h : Holds g targets (lowerResumeFragment params e st label front body term)) :
    ∃ code t, Placed g [pushedBlock label params (front ++ code) t (exc.map Fin.val)] ∧
      Emitted g targets params exc body term code t := by
  fun_induction lowerResumeFragment params e st label front body term with
  | case1 st label front s body term ih =>
    obtain ⟨code, t, hplaced, hcode⟩ := ih h
    rw [List.append_assoc] at hplaced
    exact ⟨.plain s :: code, t, hplaced, code, rfl, hcode⟩
  | case2 st label front x value body term ih =>
    subst he
    obtain ⟨hfront, hsite⟩ := (h.of_pushed (lowerResumeFragment_pushed ..)).emitYield
    exact ⟨_, _, hfront, st.yieldSite, rfl, rfl, hsite, ih h⟩
  | case3 st label front x value body term ih =>
    subst he
    obtain ⟨hfront, hsite⟩ := (h.of_pushed (lowerResumeFragment_pushed ..)).emitYieldFrom
    exact ⟨_, _, hfront, st.delegateSite, rfl, rfl, hsite, ih h⟩
  | case4 st label front value =>
    subst he
    obtain ⟨hfront, hsite⟩ := (h.of_pushed (pushed_completion ..)).emitYield
    exact ⟨_, _, hfront, st.yieldSite, rfl, rfl, hsite, h.completion⟩
  | case5 st label front value =>
    subst he
    obtain ⟨hfront, hsite⟩ := (h.of_pushed (pushed_completion ..)).emitYieldFrom
    exact ⟨_, _, hfront, st.delegateSite, rfl, rfl, hsite, h.completion⟩
  | case6 st label front value =>
    subst he
    obtain ⟨l, hplaced⟩ := h.completion
    refine ⟨[], .goto l, ?_, l, rfl, rfl, hplaced.of_mem (.tail _ (.head _))⟩
    rw [List.append_nil]
    exact hplaced.of_mem (.head _)
  | case7 st label front l args =>
    subst he
    refine ⟨[], _, ?_, rfl, rfl⟩
    rw [List.append_nil]
    exact h.push
  | case8 st label front test l l' =>
    subst he
    refine ⟨[], _, ?_, rfl, rfl⟩
    rw [List.append_nil]
    exact h.push
  | case9 st label front index ls l =>
    subst he
    refine ⟨[], _, ?_, rfl, rfl⟩
    rw [List.append_nil]
    exact h.push
  | case10 st label front x =>
    subst he
    refine ⟨[], _, ?_, rfl, rfl⟩
    rw [List.append_nil]
    exact h.push

end Fragments

/-! ## What the loop has pushed -/

section Blocks

variable {n : ℕ} {L : Lang}

/-- Blocks and resume points that are added for the blocks of the callable: the labels of these, and
others that are drawn from the counters. -/
structure PushedAll (labels : List ℕ) (st st' : ResumeLoweringState L) : Prop where
  label_le : st.nextLabel ≤ st'.nextLabel
  pc_le : st.nextResumePc ≤ st'.nextResumePc
  blocks : ∃ new heads drawn, st'.blocks = st.blocks ++ new ∧ new.Perm (heads ++ drawn) ∧
    heads.map ResumeBlock.label = labels ∧
    Span ResumeBlock.label st.nextLabel st'.nextLabel drawn
  targets : ∃ new, st'.resumeTargets = st.resumeTargets ++ new ∧
    Span Prod.fst st.nextResumePc st'.nextResumePc new

variable {st st₁ st' : ResumeLoweringState L}

theorem PushedAll.nil (st : ResumeLoweringState L) : PushedAll [] st st where
  label_le := Nat.le_refl _
  pc_le := Nat.le_refl _
  blocks := ⟨[], [], [], (List.append_nil _).symm, .nil, rfl, Span.nil _ _⟩
  targets := ⟨[], (List.append_nil _).symm, Span.nil _ _⟩

theorem PushedAll.cons {label : ℕ} {labels : List ℕ} (h : Pushed label st st₁)
    (h' : PushedAll labels st₁ st') : PushedAll (label :: labels) st st' := by
  obtain ⟨b, rest, hblocks, hb, hrest⟩ := h.blocks
  obtain ⟨new, heads, drawn, hblocks', hperm, hheads, hdrawn⟩ := h'.blocks
  obtain ⟨ts, hts, hspan⟩ := h.targets
  obtain ⟨ts', hts', hspan'⟩ := h'.targets
  refine ⟨Nat.le_trans h.label_le h'.label_le, Nat.le_trans h.pc_le h'.pc_le,
    ⟨b :: (rest ++ new), b :: heads, rest ++ drawn, ?_, ?_, ?_, ?_⟩, ts ++ ts', ?_, ?_⟩
  · rw [hblocks', hblocks, List.append_assoc]
    rfl
  · rw [List.cons_append]
    refine .cons b (.trans (hperm.append_left rest) ?_)
    rw [← List.append_assoc, ← List.append_assoc]
    exact List.perm_append_comm.append_right drawn
  · rw [List.map_cons, hb, hheads]
  · exact hrest.append hdrawn h.label_le h'.label_le
  · rw [hts', hts, List.append_assoc]
  · exact hspan.append hspan' h.pc_le h'.pc_le

theorem Holds.of_pushedAll {g : List (ResumeBlock L)} {targets : List ℕ}
    (h : Holds g targets st') {labels : List ℕ} (hpushed : PushedAll labels st st') :
    Holds g targets st := by
  obtain ⟨new, heads, drawn, hblocks, -⟩ := hpushed.blocks
  obtain ⟨ts, hts, -⟩ := hpushed.targets
  refine ⟨fun b hb => h.blocks b ?_, fun e he => h.targets e ?_⟩
  · rw [hblocks]
    exact List.mem_append_left _ hb
  · rw [hts]
    exact List.mem_append_left _ he

theorem lowerBlocks_pushed (p : YieldProgram n L) (ls : List (Fin (n + 1)))
    (st : ResumeLoweringState L) : PushedAll (ls.map Fin.val) st (lowerBlocks p ls st) := by
  induction ls generalizing st with
  | nil => exact .nil st
  | cons l ls ih => exact .cons (lowerResumeFragment_pushed ..) (ih _)

end Blocks

/-! ## The dispatch -/

section Dispatch

/-- An entry of the jump table that is not set any more. -/
theorem foldl_set_getElem?_of_notMem {entries : List (ℕ × ℕ)} {i : ℕ}
    (hi : i ∉ entries.map Prod.fst) (table : List ℕ) :
    (entries.foldl (fun table e => table.set e.1 e.2) table)[i]? = table[i]? := by
  induction entries generalizing table with
  | nil => rfl
  | cons e entries ih =>
    rw [List.map_cons, List.mem_cons, not_or] at hi
    rw [List.foldl_cons, ih hi.2, List.getElem?_set_ne (Ne.symm hi.1)]

/-- The jump table has every entry. -/
theorem foldl_set_getElem?_of_mem {entries : List (ℕ × ℕ)}
    (hnodup : (entries.map Prod.fst).Nodup) {table : List ℕ} {e : ℕ × ℕ} (he : e ∈ entries)
    (hlt : e.1 < table.length) :
    (entries.foldl (fun table e => table.set e.1 e.2) table)[e.1]? = some e.2 := by
  induction entries generalizing table with
  | nil => cases he
  | cons e' entries ih =>
    rw [List.map_cons, List.nodup_cons] at hnodup
    rw [List.foldl_cons]
    rcases List.mem_cons.mp he with rfl | he
    · rw [foldl_set_getElem?_of_notMem hnodup.1, List.getElem?_set_self hlt]
    · exact ih hnodup.2 he (by rwa [List.length_set])

theorem init_le_foldl_max (xs : List ℕ) (init : ℕ) : init ≤ xs.foldl max init := by
  induction xs generalizing init with
  | nil => exact Nat.le_refl _
  | cons y xs ih => exact Nat.le_trans (Nat.le_max_left init y) (ih _)

theorem le_foldl_max_of_mem {xs : List ℕ} {x : ℕ} (hx : x ∈ xs) (init : ℕ) :
    x ≤ xs.foldl max init := by
  induction xs generalizing init with
  | nil => cases hx
  | cons y xs ih =>
    rcases List.mem_cons.mp hx with rfl | hx
    · exact Nat.le_trans (Nat.le_max_right init x) (init_le_foldl_max xs _)
    · exact ih hx _

theorem dispatchTargets_getElem? {entries : List (ℕ × ℕ)}
    (hnodup : (entries.map Prod.fst).Nodup) {e : ℕ × ℕ} (he : e ∈ entries) (exhausted : ℕ) :
    (dispatchTargets entries exhausted)[e.1]? = some e.2 := by
  refine foldl_set_getElem?_of_mem hnodup he ?_
  rw [List.length_replicate]
  exact Nat.lt_succ_of_le (le_foldl_max_of_mem (List.mem_map_of_mem he) 1)

end Dispatch

/-! ## The function -/

section Function

variable {n : ℕ} {L : Lang} (p : YieldProgram n L)

theorem loweredState_pushed :
    PushedAll (List.range (n + 1)) (.initial n L) (loweredState p) := by
  have h := lowerBlocks_pushed p (List.finRange (n + 1)) (.initial n L)
  rwa [List.map_coe_finRange_eq_range] at h

/-- Every block has a label of its own. -/
theorem lowerResumeBlocks_nodup : ((lowerResumeBlocks p).map ResumeBlock.label).Nodup := by
  obtain ⟨hle, -, ⟨new, heads, drawn, hblocks, hperm, hheads, hdrawn⟩, -⟩ := loweredState_pushed p
  have hle : n + 2 ≤ (loweredState p).nextLabel := hle
  have hrange : heads.map ResumeBlock.label = (List.range (n + 1)).map (0 + ·) := by
    rw [hheads]
    simp
  have hheads := Span.of_offsets (List.range (n + 1)) hrange List.nodup_range
    (fun _ => List.mem_range.mp)
  rw [Nat.zero_add] at hheads
  have hexhausted : Span ResumeBlock.label (n + 1) (n + 2)
      [(⟨exhaustedLabel n, [], none, [], .complete .nothing, none⟩ : ResumeBlock L)] :=
    Span.singleton _ (Nat.le_refl _) (Nat.lt_succ_self _)
  -- the entry blocks, then the others, then `exhausted_label`
  have hall := hheads.append (hdrawn.append_reserved hexhausted (Nat.le_succ _) hle)
    (Nat.zero_le _) (Nat.le_of_succ_le hle)
  rw [← List.append_assoc] at hall
  have hall := hall.perm (hperm.symm.append_right _)
  have hdispatch : Span ResumeBlock.label (loweredState p).nextLabel
      ((loweredState p).nextLabel + 1) [(⟨dispatchLabel p, [], none, [],
        .dispatch (jumpTable p) (exhaustedLabel n), none⟩ : ResumeBlock L)] :=
    Span.singleton _ (Nat.le_refl _) (Nat.lt_succ_self _)
  have hall := hdispatch.append_reserved hall (Nat.zero_le _) (Nat.le_succ _)
  unfold lowerResumeBlocks
  rw [hblocks]
  exact hall.nodup

/-- The function has everything that the loop has pushed. -/
theorem lowerResumeBlocks_holds :
    Holds (lowerResumeBlocks p) (jumpTable p) (loweredState p) := by
  obtain ⟨-, -, -, new, hnew, hspan⟩ := loweredState_pushed p
  have hentry : Span Prod.fst 1 2 [((1, 0) : ℕ × ℕ)] :=
    Span.singleton _ (Nat.le_refl _) (Nat.lt_succ_self _)
  have hpcs := hentry.append hspan (Nat.le_succ _) (loweredState_pushed p).pc_le
  refine ⟨fun b hb => ?_, fun e he => ?_⟩
  · refine find?_label_of_mem (lowerResumeBlocks_nodup p) ?_
    exact List.mem_append_left _ (List.mem_cons_of_mem _ hb)
  · refine dispatchTargets_getElem? ?_ he _
    rw [hnew]
    exact hpcs.nodup

theorem lowerBlocks_emitted {g : List (ResumeBlock L)} {targets : List ℕ}
    (ls : List (Fin (n + 1))) (st : ResumeLoweringState L)
    (h : Holds g targets (lowerBlocks p ls st)) (l : Fin (n + 1)) (hl : l ∈ ls) :
    ∃ code t, Placed g [pushedBlock l (p l).params code t ((p l).exc.map Fin.val)] ∧
      Emitted g targets (p l).params (p l).exc (p l).body (p l).term code t := by
  induction ls generalizing st with
  | nil => cases hl
  | cons l' ls ih =>
    rcases List.mem_cons.mp hl with rfl | hl
    · have hfragment := h.of_pushedAll (lowerBlocks_pushed p ls _)
      rw [generatorResumeDeclaredParams_eq] at hfragment
      exact lowerResumeFragment_emitted rfl _ _ _ _ _ hfragment
    · exact ih _ h hl

/-- **Placement.** The resume function has the code of the callable. -/
theorem lowerResumeBlocks_lowers :
    Lowers (lowerResumeBlocks p) (jumpTable p) p := fun l =>
  lowerBlocks_emitted p _ _ (lowerResumeBlocks_holds p) l (List.mem_finRange l)

/-- Resume point 1 is the entry block. -/
theorem jumpTable_entry : (jumpTable p)[1]? = some 0 := by
  obtain ⟨-, -, -, new, hnew, -⟩ := loweredState_pushed p
  refine (lowerResumeBlocks_holds p).targets (1, 0) ?_
  rw [hnew]
  exact List.mem_append_left _ (List.mem_singleton_self _)

end Function

end DietPython.Generators
