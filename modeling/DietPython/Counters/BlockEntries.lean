import DietPython.Blocks.EnteredBlocks
import DietPython.Counters.Storage

/-!
# Counters of block entries

The instrumentation gives every block of a module a counter and puts its increment in front of the
block. Increments do nothing else, and no instruction looks at counters, so an instrumented callable
ends like the callable does, and each of its counters has gone up once for every time that a run has
entered its block. The counters of other blocks are as the callable leaves them.

What called functions count is in the meaning of the instruction that calls them.
-/

namespace DietPython.Counters

open Blocks Machines

/-! ## The pass -/

/-- A callable of a module. -/
structure CountedFunction (I : Type) where
  functionId : FunctionId
  blocks : List (Block I I)

section Instrument

variable {I : Type} (increment : Usize → I)

/-- A block with the increment of a counter in front. -/
def countEntry (id : Usize) (b : Block I I) : Block I I := { b with body := increment id :: b.body }

def blockEntrySite (functionId : FunctionId) (label : BlockLabel) : CounterSite :=
  .blockEntry functionId (UInt32.ofNat label)

def instrumentBlocks (functionId : FunctionId) :
    CounterBuilder → List (Block I I) → CounterBuilder × List (Block I I)
  | builder, [] => (builder, [])
  | builder, b :: blocks =>
    let defined := builder.define .this "block_entry" (blockEntrySite functionId b.label)
    let rest := instrumentBlocks functionId defined.1 blocks
    (rest.1, countEntry increment defined.2 b :: rest.2)

/-- `instrument_bb_module_with_block_entry_counters` -/
def instrumentModule :
    CounterBuilder → List (CountedFunction I) → CounterBuilder × List (CountedFunction I)
  | builder, [] => (builder, [])
  | builder, f :: functions =>
    let blocks := instrumentBlocks increment f.functionId builder f.blocks
    let rest := instrumentModule blocks.1 functions
    (rest.1, { f with blocks := blocks.2 } :: rest.2)

end Instrument

/-! ### The counters of a callable -/

section Definitions

variable {I : Type}

def entryDef (counter : BlockLabel → Usize) (functionId : FunctionId) (label : BlockLabel) :
    CounterDef :=
  ⟨counter label, .this, "block_entry", blockEntrySite functionId label⟩

/-- The counters of the blocks of a callable. -/
def entryDefs (counter : BlockLabel → Usize) (f : CountedFunction I) : List CounterDef :=
  (labels f.blocks).map (entryDef counter f.functionId)

/-- The callable with the increments of these counters. -/
def CountedFunction.counted (increment : Usize → I) (counter : BlockLabel → Usize)
    (f : CountedFunction I) : CountedFunction I :=
  { f with blocks := f.blocks.map fun b => countEntry increment (counter b.label) b }

variable {initial : List CounterDef}

/-- **The blocks of a callable.** -/
theorem instrumentBlocks_spec (increment : Usize → I) (functionId : FunctionId)
    {builder : CounterBuilder} {added : List CounterDef} (h : builder.Grown initial added)
    {blocks : List (Block I I)} (hlabels : (labels blocks).Nodup) :
    ∃ counter : BlockLabel → Usize,
      (instrumentBlocks increment functionId builder blocks).1.Grown initial
        (added ++ entryDefs counter ⟨functionId, blocks⟩) ∧
      (instrumentBlocks increment functionId builder blocks).2 =
        (CountedFunction.counted increment counter ⟨functionId, blocks⟩).blocks := by
  induction blocks generalizing builder added with
  | nil =>
    refine ⟨fun _ => 0, ?_, rfl⟩
    show builder.Grown initial (added ++ [])
    rw [List.append_nil]
    exact h
  | cons b blocks ih =>
    obtain ⟨hfresh, hnodup⟩ := List.nodup_cons.mp hlabels
    obtain ⟨counter, hgrown, hblocks⟩ :=
      ih (h.define .this "block_entry" (blockEntrySite functionId b.label)) hnodup
    -- the other blocks have other labels
    have hother : ∀ c ∈ blocks, Function.update counter b.label builder.nextId c.label =
        counter c.label := by
      intro c hc
      refine Function.update_of_ne (fun heq => hfresh ?_) _ _
      exact heq ▸ List.mem_map_of_mem hc
    refine ⟨Function.update counter b.label builder.nextId, ?_, ?_⟩
    · have hdefs : entryDefs (Function.update counter b.label builder.nextId)
          ⟨functionId, b :: blocks⟩ =
          ⟨builder.nextId, .this, "block_entry", blockEntrySite functionId b.label⟩ ::
            entryDefs counter ⟨functionId, blocks⟩ := by
        unfold entryDefs labels
        rw [List.map_cons, List.map_cons, entryDef, Function.update_self, List.map_map,
          List.map_map]
        refine congrArg (_ :: ·) (List.map_congr_left fun c hc => ?_)
        show entryDef _ _ c.label = entryDef _ _ c.label
        rw [entryDef, entryDef, hother c hc]
      rw [hdefs, List.append_cons]
      exact hgrown
    · have hrest : (CountedFunction.counted increment
          (Function.update counter b.label builder.nextId) ⟨functionId, b :: blocks⟩).blocks =
          countEntry increment builder.nextId b ::
            (CountedFunction.counted increment counter ⟨functionId, blocks⟩).blocks := by
        unfold CountedFunction.counted
        rw [List.map_cons, Function.update_self]
        refine congrArg (_ :: ·) (List.map_congr_left fun c hc => ?_)
        rw [hother c hc]
      rw [hrest, ← hblocks]
      rfl

/-- A callable is instrumented with counters that are among these. -/
def Instrumented (increment : Usize → I) (defs : List CounterDef) (f f' : CountedFunction I) :
    Prop :=
  ∃ counter, (entryDefs counter f).Sublist defs ∧ f' = f.counted increment counter

/-- **The callables of a module.** -/
theorem instrumentModule_spec (increment : Usize → I) {builder : CounterBuilder}
    {added : List CounterDef} (h : builder.Grown initial added)
    {functions : List (CountedFunction I)}
    (hlabels : ∀ f ∈ functions, (labels f.blocks).Nodup) :
    ∃ more, (instrumentModule increment builder functions).1.Grown initial (added ++ more) ∧
      more.length = (functions.flatMap CountedFunction.blocks).length ∧
      List.Forall₂ (Instrumented increment more) functions
        (instrumentModule increment builder functions).2 := by
  induction functions generalizing builder added with
  | nil => exact ⟨[], by rw [List.append_nil]; exact h, rfl, .nil⟩
  | cons f functions ih =>
    obtain ⟨counter, hblocks, heq⟩ := instrumentBlocks_spec increment f.functionId h
      (hlabels f List.mem_cons_self)
    obtain ⟨more, hgrown, hlength, hall⟩ :=
      ih hblocks fun g hg => hlabels g (List.mem_cons_of_mem _ hg)
    refine ⟨entryDefs counter f ++ more, ?_, ?_, ?_⟩
    · rw [← List.append_assoc]
      exact hgrown
    · rw [List.length_append, hlength, List.flatMap_cons, List.length_append]
      refine congrArg (· + _) ?_
      unfold entryDefs labels
      rw [List.length_map, List.length_map]
    · refine .cons ⟨counter, List.sublist_append_left _ _, ?_⟩ ?_
      · show CountedFunction.mk f.functionId _ = _
        rw [heq]
        rfl
      · refine hall.imp fun g g' hg => ?_
        obtain ⟨counter', hsub, heq'⟩ := hg
        exact ⟨counter', hsub.trans (List.sublist_append_right _ _), heq'⟩

end Definitions

/-! ## Increments -/

namespace Storage

/-- The storage after an increment. -/
def tick (st : Storage) (id : Usize) : Storage := (st.increment id).getD st

theorem tick_eq (st : Storage) (id : Usize) :
    st.tick id = (st.counterPtrs.bind fun ptrs => ptrs[id.val]?).elim st fun slot =>
      { st with counterValues := st.counterValues.modify slot succCount } := by
  unfold tick increment
  cases st.counterPtrs with
  | none => rfl
  | some ptrs =>
    cases hslot : ptrs[id.val]? with
    | none => simp [hslot]
    | some slot => simp [hslot]

/-- An increment leaves the pointers. -/
theorem counterPtrs_tick (st : Storage) (id : Usize) :
    (st.tick id).counterPtrs = st.counterPtrs := by
  rw [tick_eq]
  cases st.counterPtrs.bind fun ptrs => ptrs[id.val]? with
  | none => rfl
  | some slot =>
    show counterPtrs _ = _
    unfold counterPtrs
    rw [Option.elim_some, List.length_modify]

theorem tick_comm (st : Storage) (id id' : Usize) :
    (st.tick id).tick id' = (st.tick id').tick id := by
  rw [(st.tick id).tick_eq, (st.tick id').tick_eq, counterPtrs_tick, counterPtrs_tick, st.tick_eq,
    st.tick_eq]
  cases st.counterPtrs.bind fun ptrs => ptrs[id.val]? with
  | none => rfl
  | some slot =>
    cases st.counterPtrs.bind fun ptrs => ptrs[id'.val]? with
    | none => rfl
    | some slot' =>
      show Storage.mk _ _ _ = Storage.mk _ _ _
      refine congrArg (Storage.mk _ _) ?_
      by_cases hslot : slot = slot'
      · rw [hslot]
      · exact List.modify_modify_ne succCount succCount st.counterValues hslot

variable {defs : List CounterDef} {st : Storage}

/-- **All increments**: a number goes up once for those of its own identifier and of the shared
ones. -/
theorem Placed.ticks (h : Placed defs st) {calls : List CounterDef} (hcalls : calls ⊆ defs)
    {counter : CounterDef} (hcounter : counter ∈ defs) :
    ((ids calls).foldl tick st).counterValue counter.id =
      succCount^[calls.countP fun call => call.id = counter.id ∨ Shared call counter]
        (st.counterValue counter.id) := by
  induction calls generalizing st with
  | nil => rfl
  | cons call calls ih =>
    obtain ⟨st', hstep, hplaced, hvalues⟩ := h.increment (hcalls List.mem_cons_self)
    have htick : st.tick call.id = st' := by
      rw [tick, hstep]
      rfl
    show ((ids calls).foldl tick (st.tick call.id)).counterValue counter.id = _
    rw [htick, ih hplaced (fun other hother => hcalls (List.mem_cons_of_mem _ hother)),
      hvalues counter hcounter, List.countP_cons]
    by_cases hreach : call.id = counter.id ∨ Shared call counter
    · rw [if_pos hreach, if_pos (decide_eq_true hreach), Function.iterate_succ_apply]
    · rw [if_neg hreach, if_neg fun h => hreach (of_decide_eq_true h), Nat.add_zero]

end Storage

/-- An increment next to anything else. -/
def tickBeside {α : Type} (id : Usize) (a : α × Storage) : α × Storage := (a.1, a.2.tick id)

theorem changes_tickBeside {α : Type} (counter : BlockLabel → Usize) (seen : List BlockLabel)
    (a : α × Storage) :
    Meaning.changes (fun label => tickBeside (counter label)) seen a =
      (a.1, (seen.map counter).foldl Storage.tick a.2) := by
  induction seen generalizing a with
  | nil => rfl
  | cons label seen ih => exact ih (tickBeside (counter label) a)

section Runs

variable {I V W H : Type}

/-- Increments do nothing else, and nothing looks at the counters. -/
structure Counts (m : Meaning I V (W × Storage) (H × Storage)) (increment : Usize → I) : Prop where
  eval : ∀ id w, ∃ v, m.eval (increment id) w = (.ok v, tickBeside id w)
  unseen : ∀ id, m.Unseen (tickBeside id) (tickBeside id)

/-- What a run of an instrumented callable leaves, next to what one of the callable leaves that has
entered these blocks. -/
structure EntriesCounted (defs : List CounterDef) (counter : BlockLabel → Usize)
    (f : CountedFunction I) (r : Final I V (H × Storage) × List BlockLabel)
    (r' : Final I V (H × Storage)) : Prop where
  ending : r'.ending = r.1.ending
  left : r'.left.1 = r.1.left.1
  counted : r.1.left.2.Placed defs → ∀ label ∈ labels f.blocks,
    r'.left.2.counterValue (counter label) =
      succCount^[r.2.count label] (r.1.left.2.counterValue (counter label))
  others : r.1.left.2.Placed defs → ∀ other ∈ defs, other ∉ entryDefs counter f →
    r'.left.2.counterValue other.id = r.1.left.2.counterValue other.id

variable {m : Meaning I V (W × Storage) (H × Storage)} {increment : Usize → I}
  {defs : List CounterDef} {counter : BlockLabel → Usize} {f : CountedFunction I}

/-- A counter of a block is shared with no other one. -/
theorem countP_entryDef (hdefs : entryDefs counter f ⊆ defs) (hnodup : (ids defs).Nodup)
    {seen : List BlockLabel} (hseen : seen ⊆ labels f.blocks) {other : CounterDef}
    (hother : other ∈ defs) :
    ((seen.map (entryDef counter f.functionId)).countP fun call =>
        call.id = other.id ∨ Shared call other) =
      seen.countP fun label => entryDef counter f.functionId label = other := by
  rw [List.countP_map]
  refine List.countP_congr fun label hlabel => ?_
  have hmem := hdefs (List.mem_map_of_mem (f := entryDef counter f.functionId) (hseen hlabel))
  simp only [Function.comp_apply, decide_eq_true_eq]
  constructor
  · rintro (hid | hshared)
    · exact List.inj_on_of_nodup_map hnodup hmem hother hid
    · exact absurd rfl hshared.1
  · rintro rfl
    exact .inl rfl

theorem EntriesCounted.of_changes (hsub : (entryDefs counter f).Sublist defs)
    (hnodup : (ids defs).Nodup) {r : Final I V (H × Storage) × List BlockLabel}
    {r' : Final I V (H × Storage)}
    (hending : r'.ending = r.1.ending)
    (hleft : r'.left = Meaning.changes (fun label => tickBeside (counter label)) r.2 r.1.left)
    (hseen : r.2 ⊆ labels f.blocks) : EntriesCounted defs counter f r r' := by
  rw [changes_tickBeside] at hleft
  have hdefs := hsub.subset
  have hcalls : r.2.map (entryDef counter f.functionId) ⊆ defs :=
    fun call hcall => hdefs (List.map_subset _ hseen hcall)
  have hids : ∀ seen : List BlockLabel,
      ids (seen.map (entryDef counter f.functionId)) = seen.map counter := by
    intro seen
    unfold ids
    rw [List.map_map]
    rfl
  have hvalue : r.1.left.2.Placed defs → ∀ other ∈ defs, r'.left.2.counterValue other.id =
      succCount^[r.2.countP fun label => entryDef counter f.functionId label = other]
        (r.1.left.2.counterValue other.id) := by
    intro hplaced other hother
    rw [hleft, ← countP_entryDef hdefs hnodup hseen hother, ← hplaced.ticks hcalls hother,
      hids]
  refine ⟨hending, by rw [hleft], fun hplaced label hlabel => ?_,
    fun hplaced other hother hnot => ?_⟩
  · have hmem := hdefs (List.mem_map_of_mem (f := entryDef counter f.functionId) hlabel)
    have hcount : (r.2.countP fun seen => entryDef counter f.functionId seen =
        entryDef counter f.functionId label) = r.2.count label := by
      -- identifiers are different, so blocks with other labels have other counters
      have hcounters : ((labels f.blocks).map counter).Nodup :=
        hids (labels f.blocks) ▸ hnodup.sublist (hsub.map CounterDef.id)
      refine List.countP_congr fun seen hin => ?_
      simp only [decide_eq_true_eq, beq_iff_eq]
      refine ⟨fun heq => ?_, fun heq => heq ▸ rfl⟩
      exact List.inj_on_of_nodup_map hcounters (hseen hin) hlabel (congrArg CounterDef.id heq)
    rw [← hcount]
    exact hvalue hplaced _ hmem
  · have hzero : (r.2.countP fun label => entryDef counter f.functionId label = other) = 0 := by
      refine List.countP_eq_zero.mpr fun label hlabel heq => hnot ?_
      rw [← of_decide_eq_true heq]
      exact List.mem_map_of_mem (hseen hlabel)
    rw [hvalue hplaced other hother, hzero]
    rfl

/-- **A run of a callable.** -/
theorem outcome_counted (h : Counts m increment) (hsub : (entryDefs counter f).Sublist defs)
    (hnodup : (ids defs).Nodup) {b : Block I I} (hb : b ∈ f.blocks) (args : List BlockArg)
    (exc : Option V) (w : W × Storage) :
    Option.Rel (EntriesCounted defs counter f)
      ((m.watched (f.blocks.map Block.structured)).outcome
        (m.start b.structured args exc w [], [b.label]))
      ((m.runs ((f.counted increment counter).blocks.map Block.structured)).outcome
        (m.start (countEntry increment (counter b.label) b).structured args exc w [])) := by
  have hticks : m.Ticks (fun label => increment (counter label))
      (fun label => tickBeside (counter label)) (fun label => tickBeside (counter label)) :=
    ⟨fun label w => h.eval (counter label) w, fun label => h.unseen (counter label)⟩
  have hblocks : (f.counted increment counter).blocks.map Block.structured =
      (f.blocks.map Block.structured).map
        (StructuredBlock.withFront fun label => increment (counter label)) := by
    unfold CountedFunction.counted
    rw [List.map_map, List.map_map]
    rfl
  have hlabels : labels (f.blocks.map Block.structured) = labels f.blocks :=
    labels_map (f := Block.structured) (fun _ => rfl) f.blocks
  have hrun := hticks.outcome_withFront (List.mem_map_of_mem (f := Block.structured) hb) args exc w
    [] []
  rw [← hblocks, hlabels] at hrun
  exact Machine.rel_outcome_imp
    (fun r r' hr => .of_changes hsub hnodup hr.1 hr.2.1 hr.2.2) hrun

/-- **Block entry counters.** The counters that the pass defines are different from each other and
from those before. Each callable is the one that it was with the increments of its counters, and a
run of it ends like a run of the callable, with every counter one up for each time that its block
has been entered. -/
theorem instrumentModule_counts (h : Counts m increment) {initial : List CounterDef}
    (hdistinct : (ids initial).Nodup) {functions : List (CountedFunction I)}
    (hlabels : ∀ f ∈ functions, (labels f.blocks).Nodup)
    (hroom : Room initial (functions.flatMap CountedFunction.blocks).length) :
    let module := instrumentModule increment (CounterBuilder.new initial) functions
    (ids module.1.defs).Nodup ∧ initial <+: module.1.defs ∧
      List.Forall₂ (fun f f' => ∃ counter, (entryDefs counter f).Sublist module.1.defs ∧
        f' = f.counted increment counter ∧ ∀ b ∈ f.blocks, ∀ args exc w,
          Option.Rel (EntriesCounted module.1.defs counter f)
            ((m.watched (f.blocks.map Block.structured)).outcome
              (m.start b.structured args exc w [], [b.label]))
            ((m.runs (f'.blocks.map Block.structured)).outcome
              (m.start (countEntry increment (counter b.label) b).structured args exc w [])))
        functions module.2 := by
  obtain ⟨added, hgrown, hlength, hall⟩ := instrumentModule_spec increment
    (CounterBuilder.grown_new initial) hlabels
  rw [List.nil_append] at hgrown
  have hnodup := hgrown.nodup hdistinct (hlength ▸ hroom)
  refine ⟨hnodup, hgrown.defs ▸ List.prefix_append _ _, hall.imp fun f f' hf => ?_⟩
  obtain ⟨counter, hsub, rfl⟩ := hf
  have hsub' : (entryDefs counter f).Sublist
      (instrumentModule increment (CounterBuilder.new initial) functions).1.defs := by
    rw [hgrown.defs]
    exact hsub.trans (List.sublist_append_right _ _)
  exact ⟨counter, hsub', rfl, fun b hb args exc w => outcome_counted h hsub' hnodup hb args exc w⟩

end Runs

/-! ## A loop -/

/-- Instructions are increments, and a test that answers what the world is and turns it around. -/
def alternating : Meaning (Option Usize) Bool (Bool × Storage) (Bool × Storage) where
  eval
    | none, w => (.ok w.1, (!w.1, w.2))
    | some id, w => (.ok false, tickBeside id w)
  truth v w := (.ok v, w)
  index v w := (.ok v.toNat, w)
  raised exc w := (exc.getD false, w)
  enter _ _ _ w := w
  left w := w
  enter_nil _ _ := rfl
  left_enter _ _ _ _ := rfl

theorem alternating_counts : Counts alternating some where
  eval id w := ⟨false, rfl⟩
  unseen id :=
    { eval := fun e w => by
        cases e with
        | none => rfl
        | some id' =>
          exact congrArg (fun st => (Except.ok false, (w.1, st))) (w.2.tick_comm id id')
      truth := fun _ _ => rfl
      index := fun _ _ => rfl
      raised := fun _ _ => rfl
      enter := fun _ _ _ _ => rfl
      left := fun _ => rfl }

/-- A block that is repeated as long as the test holds. -/
def loopHead : Block (Option Usize) (Option Usize) := ⟨0, [], .ifTerm none 0 1, [], none⟩

def loop : CountedFunction (Option Usize) where
  functionId := FunctionId.new 1 0
  blocks := [loopHead, ⟨1, [], .ret none, [], none⟩]

/-- When the test holds once, the first block is entered twice. -/
theorem instrumentModule_counts_loop :
    let module := instrumentModule some (CounterBuilder.new []) [loop]
    ∃ f' ∈ module.2, ∃ counter, ∀ st, ∃ r r', r.2 = [0, 0, 1] ∧
      (alternating.runs (f'.blocks.map Block.structured)).outcome (alternating.start
        (countEntry some (counter 0) loopHead).structured [] none (true, st) []) = some r' ∧
      EntriesCounted module.1.defs counter loop r r' := by
  have hroom : Room [] 2 := ⟨by decide, fun value h => (by cases h)⟩
  obtain ⟨-, -, hall⟩ := @instrumentModule_counts _ _ _ _ _ _ alternating_counts [] (by decide)
    [loop] (by decide) hroom
  obtain ⟨f', rest, ⟨counter, -, -, hrun⟩, -, hmodule⟩ := List.forall₂_cons_left_iff.mp hall
  refine ⟨f', by rw [hmodule]; exact List.mem_cons_self, counter, fun st => ?_⟩
  have hloop := hrun loopHead List.mem_cons_self [] none (true, st)
  have hwatched : ((alternating.watched (loop.blocks.map Block.structured)).run 3
      (alternating.start loopHead.structured [] none (true, st) [], [loopHead.label])).map
        Prod.snd = some [0, 0, 1] := rfl
  obtain ⟨r, hr, hseen⟩ := Option.map_eq_some_iff.mp hwatched
  rw [Machine.Finishes.outcome_eq ⟨3, hr⟩] at hloop
  generalize hout : (alternating.runs (f'.blocks.map Block.structured)).outcome _ = out at hloop
  cases hloop with
  | some hcounted => exact ⟨r, _, hseen, hout, hcounted⟩

end DietPython.Counters
