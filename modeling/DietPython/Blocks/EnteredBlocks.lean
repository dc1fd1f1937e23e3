import DietPython.Blocks.Structured

/-!
# Entered blocks

A run of blocks with the labels of the blocks that it enters, and the same blocks with an
instruction in front of each. If this instruction only changes what nothing else looks at, the
blocks with it run like those without, and what it does is done once for every block that is
entered, in this order.
-/

namespace DietPython.Blocks

open Machines

/-- A block with an instruction in front. -/
def StructuredBlock.withFront {I : Type} (front : BlockLabel → I) (b : StructuredBlock I) :
    StructuredBlock I :=
  { b with body := .expr (front b.label) :: b.body }

/-- The label of the block that a move enters, if there is such a block. -/
def Move.entered {I V W H : Type} (blocks : List (StructuredBlock I)) :
    Move I V W H → List BlockLabel
  | .enter edge _ _ _ => if (blockAt blocks edge.target).isSome then [edge.target] else []
  | .on _ | .off _ => []

theorem Move.entered_of_blockAt {I V W H : Type} {blocks : List (StructuredBlock I)}
    {edge : BlockEdge} {b : StructuredBlock I} (hb : blockAt blocks edge.target = some b)
    (exc : Option V) (w : W) (log : List (Event I)) :
    (Move.enter (H := H) edge exc w log).entered blocks = [b.label] := by
  rw [Move.entered, hb, label_of_blockAt hb]
  rfl

theorem Move.entered_of_noBlock {I V W H : Type} {blocks : List (StructuredBlock I)}
    {edge : BlockEdge} (hb : blockAt blocks edge.target = none) (exc : Option V) (w : W)
    (log : List (Event I)) : (Move.enter (H := H) edge exc w log).entered blocks = [] := by
  rw [Move.entered, hb]
  rfl

namespace Meaning

variable {I V W H : Type} (m : Meaning I V W H)

/-- Runs with the labels of the blocks that they have entered. -/
def watched (blocks : List (StructuredBlock I)) :
    Machine (Place I W × List BlockLabel) (Final I V H × List BlockLabel) where
  step s := ((m.runs blocks).step s.1).map (·, s.2 ++ (m.move s.1).entered blocks)
    (·, s.2 ++ (m.move s.1).entered blocks)

/-! ## What nothing looks at -/

/-- Nothing looks at what `f` changes in a world, which is what `g` changes in what is left. -/
structure Unseen (f : W → W) (g : H → H) : Prop where
  eval : ∀ e w, m.eval e (f w) = Prod.map id f (m.eval e w)
  truth : ∀ v w, m.truth v (f w) = Prod.map id f (m.truth v w)
  index : ∀ v w, m.index v (f w) = Prod.map id f (m.index v w)
  raised : ∀ exc w, m.raised exc (f w) = Prod.map id f (m.raised exc w)
  enter : ∀ params args exc w, m.enter params args exc (f w) = f (m.enter params args exc w)
  left : ∀ w, m.left (f w) = g (m.left w)

variable {m}

theorem unseen_id : m.Unseen id id :=
  ⟨fun _ _ => rfl, fun _ _ => rfl, fun _ _ => rfl, fun _ _ => rfl, fun _ _ _ _ => rfl, fun _ => rfl⟩

theorem Unseen.comp {f f' : W → W} {g g' : H → H} (h' : m.Unseen f' g') (h : m.Unseen f g) :
    m.Unseen (f' ∘ f) (g' ∘ g) where
  eval e w := (h'.eval e (f w)).trans (congrArg (Prod.map id f') (h.eval e w))
  truth v w := (h'.truth v (f w)).trans (congrArg (Prod.map id f') (h.truth v w))
  index v w := (h'.index v (f w)).trans (congrArg (Prod.map id f') (h.index v w))
  raised exc w := (h'.raised exc (f w)).trans (congrArg (Prod.map id f') (h.raised exc w))
  enter params args exc w :=
    (h'.enter params args exc (f w)).trans (congrArg f' (h.enter params args exc w))
  left w := (h'.left (f w)).trans (congrArg g' (h.left w))

/-- The same place, but for what `f` changes and for what has been written. -/
structure Changed (f : W → W) (p q : Place I W) : Prop where
  excEdge : q.excEdge = p.excEdge
  rest : q.rest = p.rest
  term : q.term = p.term
  world : q.world = f p.world

/-- The same move, but for these. -/
inductive ChangedMove (f : W → W) (g : H → H) : Move I V W H → Move I V W H → Prop
  | on {p q : Place I W} (h : Changed f p q) : ChangedMove f g (.on p) (.on q)
  | enter (edge : BlockEdge) (exc : Option V) (w : W) (log log' : List (Event I)) :
    ChangedMove f g (.enter edge exc w log) (.enter edge exc (f w) log')
  | off {r r' : Final I V H} (hending : r'.ending = r.ending) (hleft : r'.left = g r.left) :
    ChangedMove f g (.off r) (.off r')

namespace Changed

variable {f : W → W} {g : H → H} {p q : Place I W} (h : Changed f p q) (hunseen : m.Unseen f g)
  {log log' : List (Event I)}

include h hunseen

theorem throw (x : V) (w : W) :
    ChangedMove f g (m.throw p x w log) (m.throw q x (f w) log') := by
  unfold Meaning.throw
  rw [h.excEdge]
  cases p.excEdge with
  | none => exact .off rfl (hunseen.left w)
  | some edge => exact .enter edge (some x) w log log'

theorem proceed {α : Type} {next next' : α → W → Move I V W H}
    (hnext : ∀ a w, ChangedMove f g (next a w) (next' a (f w))) (r : Except V α × W) :
    ChangedMove f g (m.proceed p log next r) (m.proceed q log' next' (Prod.map id f r)) := by
  obtain ⟨x | a, w⟩ := r
  · exact h.throw hunseen x w
  · exact hnext a w

theorem evaluate (e : I) {next next' : V → W → Move I V W H}
    (hnext : ∀ v w, ChangedMove f g (next v w) (next' v (f w))) :
    ChangedMove f g (m.evaluate p e log next) (m.evaluate q e log' next') := by
  unfold Meaning.evaluate
  rw [h.world, hunseen.eval]
  exact h.proceed hunseen hnext _

theorem branch (e : I) {next next' : Bool → W → Move I V W H}
    (hnext : ∀ b w, ChangedMove f g (next b w) (next' b (f w))) :
    ChangedMove f g (m.branch p e log next) (m.branch q e log' next') := by
  refine h.evaluate hunseen e fun v w => ?_
  rw [hunseen.truth]
  exact h.proceed hunseen hnext _

theorem raise (exc : Option V) (w : W) :
    ChangedMove f g (m.raise p exc w log) (m.raise q exc (f w) log') := by
  unfold Meaning.raise
  rw [hunseen.raised]
  exact h.throw hunseen _ _

theorem terminate (term : BlockTerm I) :
    ChangedMove f g (m.terminate p term) (m.terminate q term) := by
  cases term with
  | jump edge =>
    show ChangedMove f g (.enter edge none p.world p.log) (.enter edge none q.world q.log)
    rw [h.world]
    exact .enter edge none p.world p.log q.log
  | ifTerm test thenLabel elseLabel =>
    exact h.branch hunseen test fun b w => .enter _ none w _ _
  | branchTable index targets defaultLabel =>
    refine h.evaluate hunseen index fun v w => ?_
    rw [hunseen.index]
    exact h.proceed hunseen (fun i w => .enter _ none w _ _) _
  | raiseTerm exc =>
    cases exc with
    | none =>
      show ChangedMove f g (m.raise p none p.world _) (m.raise q none q.world _)
      rw [h.world]
      exact h.raise hunseen none p.world
    | some exc => exact h.evaluate hunseen exc fun v w => h.raise hunseen (some v) w
  | ret value => exact h.evaluate hunseen value fun v w => .off rfl (hunseen.left w)

omit hunseen in
theorem fragment (body : List (StructuredInstr I)) (term : Option (BlockTerm I))
    (rest : List (StructuredInstr I)) (w : W) :
    Changed f (fragment p body term rest w log) (fragment q body term rest (f w) log') :=
  ⟨h.excEdge, rfl, congrArg term.getD h.term, rfl⟩

/-- **One move.** -/
theorem move : ChangedMove f g (m.move p) (m.move q) := by
  unfold Meaning.move
  rw [h.rest, h.term]
  cases p.rest with
  | nil => exact h.terminate hunseen p.term
  | cons stmt rest =>
    cases stmt with
    | expr e => exact h.evaluate hunseen e fun _ _ => .on ⟨h.excEdge, rfl, rfl, rfl⟩
    | ifStmt test body bodyTerm orelse orelseTerm =>
      refine h.branch hunseen test fun b w => .on ?_
      cases b with
      | true => exact h.fragment body bodyTerm rest w
      | false => exact h.fragment orelse orelseTerm rest w

end Changed

/-! ## Blocks with an instruction in front -/

/-- What the instructions in front of these blocks do, one after the other. -/
def changes {α : Type} (tick : BlockLabel → α → α) (seen : List BlockLabel) (a : α) : α :=
  seen.foldl (fun a label => tick label a) a

theorem changes_append {α : Type} (tick : BlockLabel → α → α) (seen seen' : List BlockLabel)
    (a : α) : changes tick (seen ++ seen') a = changes tick seen' (changes tick seen a) :=
  List.foldl_append

variable (m) in
/-- Each instruction only does what nothing looks at. -/
structure Ticks (front : BlockLabel → I) (tick : BlockLabel → W → W)
    (tickLeft : BlockLabel → H → H) : Prop where
  eval : ∀ label w, ∃ v, m.eval (front label) w = (.ok v, tick label w)
  unseen : ∀ label, m.Unseen (tick label) (tickLeft label)

namespace Ticks

variable {front : BlockLabel → I} {tick : BlockLabel → W → W} {tickLeft : BlockLabel → H → H}
  (h : m.Ticks front tick tickLeft)

include h

theorem unseen_changes (seen : List BlockLabel) :
    m.Unseen (changes tick seen) (changes tickLeft seen) := by
  induction seen with
  | nil => exact unseen_id
  | cons label seen ih => exact ih.comp (h.unseen label)

/-- A block with the instruction in front gets to where the block starts. -/
theorem step_withFront (blocks : List (StructuredBlock I)) (b : StructuredBlock I)
    (args : List BlockArg) (exc : Option V) (w : W) (log log' : List (Event I)) :
    ∃ q, (m.runs blocks).step (m.start (b.withFront front) args exc w log') = .inl q ∧
      Changed (tick b.label) (m.start b args exc w log) q := by
  obtain ⟨v, hv⟩ := h.eval b.label (m.enter b.params args exc w)
  refine ⟨⟨b.excEdge, b.body, b.term, tick b.label (m.enter b.params args exc w),
    log' ++ [.stmt (front b.label)]⟩, ?_, rfl, rfl, rfl, rfl⟩
  show m.resolve blocks (m.proceed _ _ _ (m.eval (front b.label) _)) = _
  have hworld : (m.start (b.withFront front) args exc w log').world =
      m.enter b.params args exc w := rfl
  rw [hworld, hv]
  rfl

/-- **One step** of the blocks without the instructions. -/
theorem answers (blocks : List (StructuredBlock I)) {p q : Place I W} {seen : List BlockLabel}
    (hpq : Changed (changes tick seen) p q) (hseen : seen ⊆ labels blocks) :
    (m.runs (blocks.map (StructuredBlock.withFront front))).Answers
      (fun s q => Changed (changes tick s.2) s.1 q ∧ s.2 ⊆ labels blocks)
      (fun r r' => r'.ending = r.1.ending ∧ r'.left = changes tickLeft r.2 r.1.left ∧
        r.2 ⊆ labels blocks) (fun _ => 0)
      (p, seen) q ((m.watched blocks).step (p, seen)) := by
  have hmove := hpq.move (h.unseen_changes seen)
  have hstep : (m.runs (blocks.map (StructuredBlock.withFront front))).step q =
    m.resolve (blocks.map (StructuredBlock.withFront front)) (m.move q) := rfl
  show Machine.Answers _ _ _ _ _ _ ((m.resolve blocks (m.move p)).map
    (·, seen ++ (m.move p).entered blocks) (·, seen ++ (m.move p).entered blocks))
  generalize m.move p = mv, m.move q = mv' at hmove hstep
  cases hmove with
  | on hnext =>
    refine .arrive hstep ?_
    show Changed (changes tick (seen ++ [])) _ _ ∧ seen ++ [] ⊆ _
    rw [List.append_nil]
    exact ⟨hnext, hseen⟩
  | off hending hleft =>
    refine .finish hstep ⟨hending, ?_⟩
    show _ = changes tickLeft (seen ++ []) _ ∧ seen ++ [] ⊆ _
    rw [List.append_nil]
    exact ⟨hleft, hseen⟩
  | enter edge exc w log log' =>
    have hat : blockAt (blocks.map (StructuredBlock.withFront front)) edge.target =
        (blockAt blocks edge.target).map (StructuredBlock.withFront front) :=
      blockAt_map (fun c => (rfl : (StructuredBlock.withFront front c).label = c.label)) blocks _
    cases hb : blockAt blocks edge.target with
    | none =>
      rw [hb] at hat
      rw [m.resolve_noBlock hat] at hstep
      rw [m.resolve_noBlock hb, Move.entered_of_noBlock hb, List.append_nil]
      exact .finish hstep ⟨rfl, (h.unseen_changes seen).left w, hseen⟩
    | some b =>
      rw [hb] at hat
      rw [m.resolve_enter edge hat] at hstep
      rw [m.resolve_enter edge hb, Move.entered_of_blockAt hb]
      obtain ⟨q', hq', hchanged⟩ := h.step_withFront (blocks.map (StructuredBlock.withFront front))
        b edge.args exc (changes tick seen w) log log'
      have hlabel : b.label ∈ labels blocks := List.mem_map_of_mem (mem_of_blockAt hb)
      refine .step hstep (.arrive hq' ⟨⟨hchanged.excEdge, hchanged.rest, hchanged.term,
        hchanged.world.trans ?_⟩, List.append_subset.mpr
        ⟨hseen, List.cons_subset.mpr ⟨hlabel, List.nil_subset _⟩⟩⟩)
      show _ = changes tick (seen ++ [b.label]) _
      rw [changes_append]
      exact congrArg (tick b.label) ((h.unseen_changes seen).enter b.params edge.args exc w)

/-- **Instructions in front of blocks.** A run with them ends like the run without, or both run
forever, and what is left differs by what they have done in front of the blocks entered. -/
theorem outcome_withFront {blocks : List (StructuredBlock I)} {b : StructuredBlock I}
    (hb : b ∈ blocks) (args : List BlockArg) (exc : Option V) (w : W) (log log' : List (Event I)) :
    Option.Rel
      (fun r r' => r'.ending = r.1.ending ∧ r'.left = changes tickLeft r.2 r.1.left ∧
        r.2 ⊆ labels blocks)
      ((m.watched blocks).outcome (m.start b args exc w log, [b.label]))
      ((m.runs (blocks.map (StructuredBlock.withFront front))).outcome
        (m.start (b.withFront front) args exc w log')) := by
  obtain ⟨q, hstep, hchanged⟩ := h.step_withFront (blocks.map (StructuredBlock.withFront front))
    b args exc w log log'
  have hlabel : [b.label] ⊆ labels blocks :=
    List.cons_subset.mpr ⟨List.mem_map_of_mem hb, List.nil_subset _⟩
  have hguard : (m.watched blocks).GuardedFrom (fun _ => True)
    (m.start b args exc w log, [b.label]) := fun _ _ => trivial
  rw [Machine.outcome_eq_of_step hstep]
  exact Machine.simulates_outcome (fun _ _ hsq _ => h.answers blocks hsq.1 hsq.2)
    ⟨hchanged, hlabel⟩ hguard

end Ticks

end Meaning

end DietPython.Blocks
