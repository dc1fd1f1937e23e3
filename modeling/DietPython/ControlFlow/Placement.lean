import DietPython.ControlFlow.Passes

/-!
# Where the code of a program stands in its graph

`Surrounds` relates a continuation to the targets and passes under which the code in front of it
was lowered, and to the slots of the frame that the enclosing statements still need: the iterator
of a loop, the kind and payload of a `finally` body.
-/

namespace DietPython.ControlFlow

open Labelled

variable {E T V X St : Type} {rt : Runtime E T V X St} {G : Graph E T}

/-! ## Blocks in a graph -/

/-- The labels of a graph are pairwise different, and none is the exit. -/
structure Graph.Ok (G : Graph E T) : Prop where
  nodup : (G.blocks.map Block.label).Nodup
  exit_fresh : ∀ b ∈ G.blocks, b.label ≠ G.exit

/-- The graph holds the blocks, with the passes made on them. -/
def Placed (G : Graph E T) (ms : List Pass) (blocks : List (Block E T)) : Prop :=
  ∀ b ∈ blocks, applyAll ms b ∈ G.blocks

theorem Placed.mono {ms : List Pass} {xs ys : List (Block E T)} (h : Placed G ms ys)
    (hsub : xs ⊆ ys) : Placed G ms xs := fun b hb => h b (hsub hb)

theorem Placed.left {ms : List Pass} {xs ys : List (Block E T)} (h : Placed G ms (xs ++ ys)) :
    Placed G ms xs := h.mono (List.subset_append_left xs ys)

theorem Placed.right {ms : List Pass} {xs ys : List (Block E T)} (h : Placed G ms (xs ++ ys)) :
    Placed G ms ys := h.mono (List.subset_append_right xs ys)

theorem Placed.pass {p : Pass} {ms : List Pass} {xs : List (Block E T)}
    (h : Placed G ms (applyPass p xs)) : Placed G (p :: ms) xs := fun b hb => by
  have := h _ (List.mem_map.mpr ⟨b, hb, rfl⟩)
  rwa [← applyAll_cons] at this

/-- The pass of `finalize_try_regions` on the returns of a region. -/
def retPass : Option (ℕ × Name) → List Pass
  | none => []
  | some (label, payload) => [.returnsToFinally label payload]

theorem Placed.returnsTo {target : Option (ℕ × Name)} {ms : List Pass} {xs : List (Block E T)}
    (h : Placed G ms (returnsTo target xs)) : Placed G (retPass target ++ ms) xs := by
  cases target with
  | none => exact h
  | some target => exact Placed.pass h

theorem Graph.Ok.find (hG : G.Ok) {b : Block E T} (hb : b ∈ G.blocks) :
    G.find b.label = some b := find?_label_of_mem hG.nodup hb

theorem Graph.Ok.find_placed (hG : G.Ok) {ms : List Pass} {blocks : List (Block E T)}
    (h : Placed G ms blocks) {b : Block E T} (hb : b ∈ blocks) :
    G.find b.label = some (applyAll ms b) := by
  have := hG.find (h b hb)
  rwa [applyAll_label] at this

theorem Graph.Ok.find_exit (hG : G.Ok) : G.find G.exit = none := by
  unfold Graph.find
  rw [List.find?_eq_none]
  intro b hb heq
  exact hG.exit_fresh b hb (beq_iff_eq.mp heq)

/-! ## Marks -/

/-- No block from the label `lo` on is a `finally` entry of a region around. -/
def Below (ms : List Pass) (lo : ℕ) : Prop := ∀ f ∈ marks ms, f < lo

/-- The same, but for the block at `entry`. -/
def BelowBut (ms : List Pass) (lo entry : ℕ) : Prop := ∀ f ∈ marks ms, f < lo ∨ f = entry

theorem Below.mono {ms : List Pass} {lo lo' : ℕ} (h : Below ms lo) (hlo : lo ≤ lo') :
    Below ms lo' := fun f hf => Nat.lt_of_lt_of_le (h f hf) hlo

theorem Below.but {ms : List Pass} {lo : ℕ} (h : Below ms lo) (entry : ℕ) :
    BelowBut ms lo entry := fun f hf => .inl (h f hf)

theorem BelowBut.below {ms : List Pass} {lo entry lo' : ℕ} (h : BelowBut ms lo entry)
    (hlo : lo ≤ lo') (hentry : entry < lo') : Below ms lo' := fun f hf => by
  rcases h f hf with hf | hf <;> omega

theorem Below.notMem {ms : List Pass} {lo label : ℕ} (h : Below ms lo) (hl : lo ≤ label) :
    label ∉ marks ms := fun hmem => by
  have := h _ hmem
  omega

theorem BelowBut.notMem {ms : List Pass} {lo entry label : ℕ} (h : BelowBut ms lo entry)
    (hl : lo ≤ label) (hne : label ≠ entry) : label ∉ marks ms := fun hmem => by
  rcases h _ hmem with h | h
  · omega
  · exact hne h

@[simp] theorem marks_append (ps qs : List Pass) : marks (ps ++ qs) = marks ps ++ marks qs := by
  induction ps with
  | nil => rfl
  | cons p ps ih => rw [List.cons_append, marks_cons, ih, ← List.append_assoc, ← marks_cons]

@[simp] theorem marks_retPass (target : Option (ℕ × Name)) : marks (retPass target) = [] := by
  cases target <;> rfl

theorem excOf_retPass (target : Option (ℕ × Name)) (ms : List Pass) (o : Option Name) :
    excOf (retPass target ++ ms) o = excOf ms o := by
  cases target <;> rfl

/-! ## Entry blocks -/

/-- A statement inside a loop is lowered with loop labels. -/
def Fits (l : Bool) (t : RegionTargets) : Prop := l = true → t.loopLabels.isSome

/-- The block at the entry label, which begins with the linear prefix. -/
structure IsEntry (lower : Lower E T) (linear : List (Op E T)) (t : RegionTargets) (g : Gen)
    (b : Block E T) : Prop where
  mem : b ∈ (lower linear t g).blocks
  label : b.label = (lower linear t g).entry
  params : b.params = []
  excEdge : b.excEdge = t.activeExc
  body : linear <+: b.body

theorem IsEntry.of {lower : Lower E T} {linear : List (Op E T)} {t : RegionTargets} {g : Gen}
    {b : Block E T} (hmem : b ∈ (lower linear t g).blocks)
    (hlabel : b.label = (lower linear t g).entry) (hparams : b.params = [])
    (hexc : b.excEdge = t.activeExc) (hbody : b.body = linear) : IsEntry lower linear t g b :=
  ⟨hmem, hlabel, hparams, hexc, hbody ▸ List.prefix_refl _⟩

theorem lowerEnd_entry {linear : List (Op E T)} (h : linear ≠ []) (t : RegionTargets) (g : Gen) :
    ∃ b, IsEntry lowerEnd linear t g b := by
  have hne : ¬ linear.isEmpty = true := by simpa using h
  refine ⟨sequenceJumpBlock g.label linear t.normalCont t.activeExc, .of ?_ ?_ rfl rfl rfl⟩ <;>
    simp [lowerEnd, hne, sequenceJumpBlock]

section Entry

variable {body orelse rest lower : Lower E T} {handler : Option (Lower E T)}
  (linear : List (Op E T)) (t : RegionTargets) (g : Gen)

theorem lowerIf_entry (test : E) : ∃ b, IsEntry (lowerIf test body orelse rest) linear t g b :=
  ⟨_, .of (List.mem_append_right _ (List.mem_singleton.mpr rfl)) rfl rfl rfl rfl⟩

theorem lowerWhile_entry (test : E) :
    ∃ b, IsEntry (lowerWhile test body orelse rest) linear t g b := by
  cases linear with
  | nil => exact ⟨_, .of (List.mem_append_right _ (List.mem_singleton.mpr rfl)) rfl rfl rfl rfl⟩
  | cons op linear =>
    exact ⟨_, .of (List.mem_append_right _ (List.mem_singleton.mpr rfl)) rfl rfl rfl rfl⟩

theorem lowerFor_entry (isAsync : Bool) (target : T) (iterable : E) :
    ∃ b, IsEntry (lowerFor isAsync target iterable body orelse rest) linear t g b :=
  ⟨_, List.mem_append_right _ (List.mem_cons_of_mem _ (List.mem_cons_of_mem _
    (List.mem_singleton.mpr rfl))), rfl, rfl, rfl, List.prefix_append _ _⟩

theorem lowerTryExcept_entry :
    ∃ b, IsEntry (lowerTryExcept body orelse handler rest) linear t g b :=
  ⟨_, .of (List.mem_append_right _ (List.mem_singleton.mpr rfl)) rfl rfl rfl rfl⟩

theorem lowerTryFinally_entry :
    ∃ b, IsEntry (lowerTryFinally body orelse handler lower rest) linear t g b :=
  ⟨_, .of (List.mem_append_right _ (List.mem_singleton.mpr rfl)) rfl rfl rfl rfl⟩

theorem lowerLoopJump_entry (label : LoopLabels → ℕ) (h : t.loopLabels.isSome) :
    ∃ b, IsEntry (lowerLoopJump label : Lower E T) linear t g b := by
  obtain ⟨loopLabels, hloop⟩ := Option.isSome_iff_exists.mp h
  refine ⟨sequenceJumpBlock g.label linear (label loopLabels) t.activeExc,
    .of ?_ ?_ rfl rfl rfl⟩ <;> simp [lowerLoopJump, hloop, sequenceJumpBlock]

theorem lowerHead_entry {l : Bool} (stmt : Stmt E T l)
    (hrest : ∀ linear, linear ≠ [] → ∃ b, IsEntry rest linear t g b) (hfits : Fits l t) :
    ∃ b, IsEntry (lowerHead stmt rest) linear t g b := by
  cases stmt with
  | simple e =>
    obtain ⟨b, hb⟩ := hrest (linear ++ [.simple e]) (by simp)
    exact ⟨b, hb.mem, hb.label, hb.params, hb.excEdge, (List.prefix_append _ _).trans hb.body⟩
  | raiseStmt exc => exact ⟨_, .of (List.mem_singleton.mpr rfl) rfl rfl rfl rfl⟩
  | returnStmt value => exact ⟨_, .of (List.mem_singleton.mpr rfl) rfl rfl rfl rfl⟩
  | ifStmt test body orelse => exact lowerIf_entry linear t g test
  | whileStmt test body orelse => exact lowerWhile_entry linear t g test
  | forStmt isAsync target iter body orelse => exact lowerFor_entry linear t g isAsync target iter
  | breakStmt => exact lowerLoopJump_entry linear t g _ (hfits rfl)
  | continueStmt => exact lowerLoopJump_entry linear t g _ (hfits rfl)
  | tryExcept body first more orelse finalbody =>
    unfold lowerHead
    split
    · exact lowerTryExcept_entry linear t g
    · exact lowerTryFinally_entry linear t g
  | tryFinally body first more => exact lowerTryFinally_entry linear t g

theorem lowerExpanded_entry (h : ∀ linear, ∃ b, IsEntry lower linear t g b) :
    ∃ b, IsEntry (lowerExpanded lower) linear t g b := by
  cases linear with
  | nil =>
    obtain ⟨b, hb⟩ := h []
    exact ⟨b, hb.mem, hb.label, hb.params, hb.excEdge, hb.body⟩
  | cons op linear =>
    exact ⟨_, .of (List.mem_append_right _ (List.mem_singleton.mpr rfl)) rfl rfl rfl rfl⟩

end Entry

theorem lowerStmts_entry : {l : Bool} → (linear : List (Op E T)) → (t : RegionTargets) →
    (g : Gen) → (stmts : Stmts E T l) → Fits l t → linear ≠ [] ∨ stmts ≠ .nil →
    ∃ b, IsEntry (lowerStmts stmts) linear t g b
  | _, _, t, g, .nil, _, hne => lowerEnd_entry (hne.resolve_right (fun h => h rfl)) t g
  | _, linear, t, g, .cons expanded stmt rest, hfits, _ => by
    have hhead : ∀ linear, ∃ b, IsEntry (lowerHead stmt (lowerStmts rest)) linear t g b :=
      fun linear => lowerHead_entry linear t g stmt
        (fun linear hl => lowerStmts_entry linear t g rest hfits (.inl hl)) hfits
    cases expanded with
    | false => exact hhead linear
    | true => exact lowerExpanded_entry linear t g hhead

/-! ## Continuations -/

/-- A sequence lowered without a prefix stands in the graph. -/
structure Lies (G : Graph E T) (ms : List Pass) (n : ℕ) {l : Bool} (stmts : Stmts E T l)
    (t : RegionTargets) (g : Gen) : Prop where
  placed : Placed G ms (lowerStmts stmts [] t g).blocks
  below : Below ms g.label
  names : n ≤ g.tmp

/-- Where the regions of a `try` continue and send their exceptions, by its `finally` body, and
the bound of the names that belong to the `try`. -/
inductive Cleanup (G : Graph E T) (t : RegionTargets) (ms : List Pass) (n : ℕ) :
    {l : Bool} → Stmts E T l → Name → ℕ → Option ℕ → Option (ℕ × Name) → ℕ → Prop
  | noFinal {l : Bool} (y : ℕ) :
      Cleanup G t ms n (.nil : Stmts E T l) (.tryExc y) t.normalCont t.activeExc none n
  | withFinal {l : Bool} {x : Bool} {first : Stmt E T l} {more : Stmts E T l} (g g₁ : Gen)
      (hregion : Placed G ms (lowerFinallyRegion (lowerStmts (.cons x first more))
        (exceptExcName g) (finallyPlan g) t g₁).blocks)
      (hdispatch : Placed G ms (finallyDispatchBlocks (finallyPlan g) t.normalCont t.activeExc))
      (hbelow : BelowBut ms g.label (g.label + 3)) (hlabel : g.label + 4 ≤ g₁.label)
      (hn : n ≤ g.tmp)
      (htmp : g.tmp + 3 ≤ g₁.tmp) :
      Cleanup G t ms n (.cons x first more) (exceptExcName g)
        (lowerFinallyRegion (lowerStmts (.cons x first more)) (exceptExcName g)
          (finallyPlan g) t g₁).normalEntry
        (some (lowerFinallyRegion (lowerStmts (.cons x first more)) (exceptExcName g)
          (finallyPlan g) t g₁).exceptionEntry)
        (some ((lowerFinallyRegion (lowerStmts (.cons x first more)) (exceptExcName g)
          (finallyPlan g) t g₁).finallyLabel, (finallyPlan g).abruptPayload))
        (g.tmp + 3)

/-- The slots of a `finally` body hold the signal that it was entered with. -/
def PendingSlots (rt : Runtime E T V X St) (slots : Name → Slot V X) (plan : FinallyPlan)
    {l : Bool} : Signal V X l → Prop
  | .normal =>
    slots plan.abruptKind = .kind .fallthrough ∧ slots plan.abruptPayload = .obj rt.noneValue
  | .exc e => slots plan.abruptKind = .kind .exception ∧ slots plan.abruptPayload = .exc e
  | .ret v => slots plan.abruptKind = .kind .ret ∧ slots plan.abruptPayload = .obj v
  | .brk | .cont => False

/-- The slots that continuations with names below `n` rely on are the same. -/
def AgreeBelow (n : ℕ) (s s' : Name → Slot V X) : Prop :=
  ∀ m < n, s (.iter m) = s' (.iter m) ∧ s (.tryAbruptKind m) = s' (.tryAbruptKind m) ∧
    s (.tryAbruptPayload m) = s' (.tryAbruptPayload m)

namespace AgreeBelow

variable {n : ℕ} {s s' : Name → Slot V X}

theorem mono {m : ℕ} (h : AgreeBelow n s s') (hm : m ≤ n) : AgreeBelow m s s' :=
  fun i hi => h i (Nat.lt_of_lt_of_le hi hm)

/-- A slot of a name that no continuation below `n` relies on. -/
theorem update (s : Name → Slot V X) {x : Name} (v : Slot V X)
    (hx : ∀ m < n, x ≠ .iter m ∧ x ≠ .tryAbruptKind m ∧ x ≠ .tryAbruptPayload m) :
    AgreeBelow n s (Function.update s x v) := fun m hm =>
  ⟨(Function.update_of_ne (hx m hm).1.symm v s).symm,
    (Function.update_of_ne (hx m hm).2.1.symm v s).symm,
    (Function.update_of_ne (hx m hm).2.2.symm v s).symm⟩

theorem update_tryExc (s : Name → Slot V X) (y : ℕ) (v : Slot V X) :
    AgreeBelow n s (Function.update s (.tryExc y) v) := update s v fun m _ => by simp

theorem update_tmp (s : Name → Slot V X) (y : ℕ) (v : Slot V X) :
    AgreeBelow n s (Function.update s (.tmp y) v) := update s v fun m _ => by simp

theorem update_iter (s : Name → Slot V X) {i : ℕ} (v : Slot V X) (hi : n ≤ i) :
    AgreeBelow n s (Function.update s (.iter i) v) := update s v fun m hm => by
  refine ⟨fun h => ?_, by simp, by simp⟩
  injection h with h
  omega

theorem update_payload (s : Name → Slot V X) {i : ℕ} (v : Slot V X) (hi : n ≤ i) :
    AgreeBelow n s (Function.update s (.tryAbruptPayload i) v) := update s v fun m hm => by
  refine ⟨by simp, by simp, fun h => ?_⟩
  injection h with h
  omega

end AgreeBelow

/-- At the label stands a block whose only parameter is an exception parameter. -/
def HandlerAt (G : Graph E T) (label : ℕ) : Prop :=
  ∃ b n, G.find label = some b ∧ b.params = [⟨.tryExc n, .exception⟩]

/-- The frames that end a segment of a continuation. -/
def Kont.isFloor {l : Bool} : Kont E T V X l → Bool
  | .done | .finalBody _ _ => true
  | _ => false

/-- What the frames of a continuation stand on: nothing, or frames that the code does not leave. The
code in front of these was lowered with the targets and under the passes. -/
structure Floor (G : Graph E T) (V X : Type) where
  depth : ℕ
  holds : (Name → Slot V X) → {l : Bool} → Kont E T V X l → RegionTargets → List Pass → ℕ → Prop
  depth_eq : ∀ {slots l} {k : Kont E T V X l} {t ms n}, holds slots k t ms n → k.depth = depth
  isFloor : ∀ {slots l} {k : Kont E T V X l} {t ms n}, holds slots k t ms n → k.isFloor = true
  wellNamed : ∀ {slots l} {k : Kont E T V X l} {t ms n}, holds slots k t ms n →
    ∀ p ∈ ms, p.WellNamed
  fits : ∀ {slots l} {k : Kont E T V X l} {t ms n}, holds slots k t ms n → Fits l t
  inRegion_eq : ∀ {slots l} {k : Kont E T V X l} {t ms n}, holds slots k t ms n →
    (excOf ms none).isSome = k.inRegion
  congr : ∀ {slots slots' l} {k : Kont E T V X l} {t ms n}, holds slots k t ms n →
    AgreeBelow n slots slots' → holds slots' k t ms n
  ret_name : ∀ {slots l} {k : Kont E T V X l} {t ms n}, holds slots k t ms n →
    ∀ {label payload}, retOf ms = some (label, payload) → ∃ m < n, payload = .tryAbruptPayload m
  store : ∀ {slots l} {k : Kont E T V X l} {t ms n}, holds slots k t ms n →
    ∀ {label payload}, retOf ms = some (label, payload) → ∀ v,
      holds (Function.update slots payload v) k t ms n
  handlerAt : ∀ {slots l} {k : Kont E T V X l} {t ms n}, holds slots k t ms n →
    ∀ label, t.activeExc = some label → HandlerAt G label

/-- The end of the callable. -/
def Floor.callable (G : Graph E T) (V X : Type) : Floor G V X where
  depth := 0
  holds _ l k t ms n :=
    (⟨l, k⟩ : Σ l, Kont E T V X l) = ⟨false, .done⟩ ∧ t = ⟨G.exit, none, none⟩ ∧ ms = [] ∧ n = 0
  depth_eq := by
    rintro _ _ _ _ _ _ ⟨⟨⟩, -⟩
    rfl
  isFloor := by
    rintro _ _ _ _ _ _ ⟨⟨⟩, -⟩
    rfl
  wellNamed := by
    rintro _ _ _ _ _ _ ⟨-, -, rfl, -⟩ p hp
    cases hp
  fits := by
    rintro _ _ _ _ _ _ ⟨⟨⟩, -⟩ h
    cases h
  inRegion_eq := by
    rintro _ _ _ _ _ _ ⟨⟨⟩, -, rfl, -⟩
    rfl
  congr h _ := h
  ret_name := by
    rintro _ _ _ _ _ _ ⟨-, -, rfl, -⟩ _ _ h
    cases h
  store h _ _ _ _ := h
  handlerAt := by
    rintro _ _ _ _ _ _ ⟨-, rfl, -, -⟩ label h
    cases h

/-- The code in front of a continuation was lowered with these targets, under these passes, and
the names below the bound belong to the continuation. -/
inductive Surrounds (rt : Runtime E T V X St) (G : Graph E T) (F : Floor G V X)
    (slots : Name → Slot V X) :
    {l : Bool} → Kont E T V X l → RegionTargets → List Pass → ℕ → Prop
  | floor {l : Bool} {k : Kont E T V X l} {t : RegionTargets} {ms : List Pass} {n : ℕ}
      (h : F.holds slots k t ms n) : Surrounds rt G F slots k t ms n
  | seq {l : Bool} {k : Kont E T V X l} {t : RegionTargets} {ms : List Pass} {n : ℕ}
      {rest : Stmts E T l} {g : Gen} (hk : Surrounds rt G F slots k t ms n)
      (hrest : Lies G ms n rest t g) :
      Surrounds rt G F slots (.seq rest k) (t.nested (lowerStmts rest [] t g).entry) ms n
  | whileLoop {l : Bool} {k : Kont E T V X l} {t : RegionTargets} {ms : List Pass} {n : ℕ}
      {opens : Bool} {test : E} {body : Stmts E T true} {orelse : Stmts E T l} {head : ℕ}
      {go gb : Gen} (hk : Surrounds rt G F slots k t ms n) (horelse : Lies G ms n orelse t go)
      (hbody : Lies G ms n body (t.nestedWithLoop head ⟨t.normalCont, head⟩) gb)
      (hhead : Placed G ms [ifBranchBlock head [] (.expr test)
        (lowerStmts body [] (t.nestedWithLoop head ⟨t.normalCont, head⟩) gb).entry
        (lowerStmts orelse [] t go).entry t.activeExc])
      (hopens : opens = false → head ∉ marks ms) :
      Surrounds rt G F slots (.whileLoop opens test body orelse k)
        (t.nestedWithLoop head ⟨t.normalCont, head⟩) ms n
  | forLoop {l : Bool} {k : Kont E T V X l} {t : RegionTargets} {ms : List Pass} {n : ℕ}
      {isAsync : Bool} {it : V} {target : T} {body : Stmts E T true} {orelse : Stmts E T l}
      {head assign i : ℕ} {go gb : Gen} (hk : Surrounds rt G F slots k t ms n) (hi : n ≤ i)
      (horelse : Lies G ms (i + 2) orelse t go)
      (hbody : Lies G ms (i + 2) body (t.nestedWithLoop head ⟨t.normalCont, head⟩) gb)
      (hblocks : Placed G ms
        [sequenceJumpBlock assign [.assignTarget target (.tmp (i + 1))]
          (lowerStmts body [] (t.nestedWithLoop head ⟨t.normalCont, head⟩) gb).entry t.activeExc,
        ifBranchBlock head [.storeNext (.tmp (i + 1)) (.iter i) isAsync]
          (.iterComplete (.tmp (i + 1))) (lowerStmts orelse [] t go).entry assign t.activeExc])
      (hhead : head ∉ marks ms) (hiter : slots (.iter i) = .obj it) :
      Surrounds rt G F slots (.forLoop isAsync it target body orelse k)
        (t.nestedWithLoop head ⟨t.normalCont, head⟩) ms (i + 2)
  | tryBody {l : Bool} {k : Kont E T V X l} {t : RegionTargets} {ms : List Pass} {n : ℕ}
      {first : Stmt E T l} {more orelse finalbody : Stmts E T l} {y : Name} {cleanup : ℕ}
      {cleanupExc : Option ℕ} {ret : Option (ℕ × Name)} {bound : ℕ} {go gh : Gen}
      (hk : Surrounds rt G F slots k t ms n)
      (hcleanup : Cleanup G t ms n finalbody y cleanup cleanupExc ret bound)
      (horelse : Lies G (retPass ret ++ ms) bound orelse ⟨cleanup, t.loopLabels, cleanupExc⟩ go)
      (hhandler : Lies G (retPass ret ++ .regionExcParam y :: ms) bound (.cons false first more)
        ⟨cleanup, t.loopLabels, cleanupExc⟩ gh) :
      Surrounds rt G F slots (.tryBody first more orelse finalbody k)
        ⟨(lowerStmts orelse [] ⟨cleanup, t.loopLabels, cleanupExc⟩ go).entry, t.loopLabels,
          some (lowerStmts (.cons false first more) []
            ⟨cleanup, t.loopLabels, cleanupExc⟩ gh).entry⟩
        (retPass ret ++ ms) bound
  | guarded {l : Bool} {k : Kont E T V X l} {t : RegionTargets} {ms : List Pass} {n : ℕ}
      {finalbody : Stmts E T l} {y : Name} {cleanup : ℕ} {cleanupExc : Option ℕ}
      {ret : Option (ℕ × Name)} {bound : ℕ} (hk : Surrounds rt G F slots k t ms n)
      (hcleanup : Cleanup G t ms n finalbody y cleanup cleanupExc ret bound) :
      Surrounds rt G F slots (.guarded finalbody k) ⟨cleanup, t.loopLabels, cleanupExc⟩
        (retPass ret ++ ms) bound
  | handling {l : Bool} {k : Kont E T V X l} {t : RegionTargets} {ms : List Pass} {n : ℕ}
      {e : X} {finalbody : Stmts E T l} {y : Name} {cleanup : ℕ} {cleanupExc : Option ℕ}
      {ret : Option (ℕ × Name)} {bound : ℕ} (hk : Surrounds rt G F slots k t ms n)
      (hcleanup : Cleanup G t ms n finalbody y cleanup cleanupExc ret bound) :
      Surrounds rt G F slots (.handling e finalbody k) ⟨cleanup, t.loopLabels, cleanupExc⟩
        (retPass ret ++ .regionExcParam y :: ms) bound
  | finalBody {l : Bool} {k : Kont E T V X l} {t : RegionTargets} {ms : List Pass} {n : ℕ}
      {pending : Signal V X l} {label : ℕ} {g : Gen} (hk : Surrounds rt G F slots k t ms n)
      (hdispatch : Placed G ms (finallyDispatchBlocks (finallyPlan g) t.normalCont t.activeExc))
      (hbelow : BelowBut ms g.label (g.label + 3)) (hn : n ≤ g.tmp)
      (hpending : PendingSlots rt slots (finallyPlan g) pending) :
      Surrounds rt G F slots (.finalBody pending k) (t.nested (finallyPlan g).dispatchLabel)
        (.finallyParams label (finallyPlan g).abruptKind (finallyPlan g).abruptPayload ::
          .regionExcParam (exceptExcName g) :: ms) (g.tmp + 3)

section Cleanup

variable {t : RegionTargets} {ms : List Pass} {n : ℕ} {l : Bool} {finalbody : Stmts E T l}
  {y : Name} {cleanup : ℕ} {cleanupExc : Option ℕ} {ret : Option (ℕ × Name)} {bound : ℕ}

theorem Cleanup.tryExc (h : Cleanup G t ms n finalbody y cleanup cleanupExc ret bound) :
    ∃ m, y = .tryExc m := by
  cases h with
  | noFinal y => exact ⟨y, rfl⟩
  | withFinal g g₁ => exact ⟨g.tmp, rfl⟩

theorem Cleanup.le_bound (h : Cleanup G t ms n finalbody y cleanup cleanupExc ret bound) :
    n ≤ bound := by
  cases h with
  | noFinal y => exact Nat.le_refl n
  | withFinal g g₁ _ _ _ _ hn => omega

theorem Cleanup.guarded_wellNamed (h : Cleanup G t ms n finalbody y cleanup cleanupExc ret bound)
    (hw : ∀ p ∈ ms, p.WellNamed) : ∀ p ∈ retPass ret ++ ms, p.WellNamed := by
  intro p hp
  rcases List.mem_append.mp hp with hp | hp
  · cases h with
    | noFinal y => cases hp
    | withFinal g g₁ =>
      rw [List.mem_singleton.mp hp]
      exact ⟨g.tmp + 2, rfl⟩
  · exact hw p hp

theorem Cleanup.region_wellNamed (h : Cleanup G t ms n finalbody y cleanup cleanupExc ret bound)
    (hw : ∀ p ∈ ms, p.WellNamed) :
    ∀ p ∈ retPass ret ++ .regionExcParam y :: ms, p.WellNamed := by
  intro p hp
  rcases List.mem_append.mp hp with hp | hp
  · exact h.guarded_wellNamed hw p (List.mem_append_left _ hp)
  · rcases List.mem_cons.mp hp with rfl | hp
    · exact h.tryExc
    · exact hw p hp

end Cleanup

namespace Surrounds

variable {F : Floor G V X} {slots : Name → Slot V X} {l : Bool} {k : Kont E T V X l}
  {t : RegionTargets} {ms : List Pass} {n : ℕ}

theorem wellNamed (h : Surrounds rt G F slots k t ms n) : ∀ p ∈ ms, p.WellNamed := by
  induction h with
  | floor h => exact F.wellNamed h
  | seq _ _ ih | whileLoop _ _ _ _ _ ih | forLoop _ _ _ _ _ _ _ ih => exact ih
  | tryBody _ hcleanup _ _ ih | guarded _ hcleanup ih => exact hcleanup.guarded_wellNamed ih
  | handling _ hcleanup ih => exact hcleanup.region_wellNamed ih
  | @finalBody _ _ _ _ _ _ _ g _ _ _ _ _ ih =>
    intro p hp
    rcases List.mem_cons.mp hp with rfl | hp
    · exact ⟨⟨g.tmp + 1, rfl⟩, g.tmp + 2, rfl⟩
    · rcases List.mem_cons.mp hp with rfl | hp
      · exact ⟨g.tmp, rfl⟩
      · exact ih p hp

theorem fits (h : Surrounds rt G F slots k t ms n) : Fits l t := by
  induction h with
  | floor h => exact F.fits h
  | seq _ _ ih | tryBody _ _ _ _ ih | guarded _ _ ih | handling _ _ ih
  | finalBody _ _ _ _ _ ih => exact ih
  | whileLoop | forLoop => exact fun _ => rfl

/-- Blocks in a handler or a `finally` body have an exception parameter, and no others. -/
theorem inRegion_eq (h : Surrounds rt G F slots k t ms n) :
    (excOf ms none).isSome = k.inRegion := by
  induction h with
  | floor h => exact F.inRegion_eq h
  | seq _ _ ih | whileLoop _ _ _ _ _ ih | forLoop _ _ _ _ _ _ _ ih => exact ih
  | tryBody _ _ _ _ ih | guarded _ _ ih => rw [excOf_retPass]; exact ih
  | handling =>
    rw [excOf_retPass, excOf_cons, Pass.excAfter, excOf_eq]
    simp [Kont.inRegion]
  | finalBody =>
    rw [excOf_cons, excOf_cons, Pass.excAfter, excOf_eq]
    simp [Kont.inRegion]

end Surrounds

end DietPython.ControlFlow
