import DietPython.Blocks.Linearize

/-!
# Runs of linear blocks

`Stands` says that blocks stand for a structured rest of a block. A step of the structured run is
answered by the same step, after the jumps to the blocks in which branches join.
-/

namespace DietPython.Blocks

open Machines Machine Meaning

variable {I V W H : Type}

/-- Linear statements and a terminator stand for structured ones: the labels of branches and joins
are those of blocks with the same exception edge and the same parameters. -/
inductive Stands (blocks : List (StructuredBlock I)) (excEdge : Option BlockEdge)
    (params : List BlockParam) :
    List (StructuredInstr I) → BlockTerm I → List (StructuredInstr I) → BlockTerm I → Prop
  | done (term : BlockTerm I) : Stands blocks excEdge params [] term [] term
  | expr (e : I) {linear rest : List (StructuredInstr I)} {linearTerm term : BlockTerm I}
      (h : Stands blocks excEdge params linear linearTerm rest term) :
      Stands blocks excEdge params (.expr e :: linear) linearTerm (.expr e :: rest) term
  | join {label : BlockLabel} {b : StructuredBlock I} {rest : List (StructuredInstr I)}
      {term : BlockTerm I} (hb : blockAt blocks label = some b)
      (halike : b.excEdge = excEdge ∧ b.params = params)
      (h : Stands blocks excEdge params b.body b.term rest term) :
      Stands blocks excEdge params [] (.jump (BlockEdge.new label)) rest term
  | branch (test : I) {thenLabel elseLabel : BlockLabel} {t e : StructuredBlock I}
      {body orelse rest : List (StructuredInstr I)} {bodyTerm orelseTerm : Option (BlockTerm I)}
      {term : BlockTerm I} (ht : blockAt blocks thenLabel = some t)
      (htalike : t.excEdge = excEdge ∧ t.params = params)
      (he : blockAt blocks elseLabel = some e)
      (healike : e.excEdge = excEdge ∧ e.params = params)
      (hthen : Stands blocks excEdge params t.body t.term (followed body bodyTerm rest)
        (bodyTerm.getD term))
      (helse : Stands blocks excEdge params e.body e.term (followed orelse orelseTerm rest)
        (orelseTerm.getD term)) :
      Stands blocks excEdge params [] (.ifTerm test thenLabel elseLabel)
        (.ifStmt test body bodyTerm orelse orelseTerm :: rest) term

/-- What blocks stand for does not change when blocks that are alike get other parameters and
another exception edge. -/
theorem Stands.map {blocks : List (StructuredBlock I)} {excEdge excEdge' : Option BlockEdge}
    {params params' : List BlockParam} {body rest : List (StructuredInstr I)}
    {bodyTerm term : BlockTerm I} (h : Stands blocks excEdge params body bodyTerm rest term)
    {f : StructuredBlock I → StructuredBlock I} (hlabel : ∀ c, (f c).label = c.label)
    (hbody : ∀ c, (f c).body = c.body) (hterm : ∀ c, (f c).term = c.term)
    (hf : ∀ c, c.excEdge = excEdge ∧ c.params = params →
      (f c).excEdge = excEdge' ∧ (f c).params = params') :
    Stands (blocks.map f) excEdge' params' body bodyTerm rest term := by
  have hat : ∀ {label c}, blockAt blocks label = some c →
      blockAt (blocks.map f) label = some (f c) := by
    intro label c hc
    rw [blockAt_map hlabel, hc]
    rfl
  induction h with
  | done term => exact .done term
  | expr e h ih => exact .expr e ih
  | @join label b rest term hb halike h ih =>
    refine .join (hat hb) (hf b halike) ?_
    rw [hbody, hterm]
    exact ih
  | @branch test thenLabel elseLabel t e body orelse rest bodyTerm orelseTerm term ht htalike he
      healike hthen helse ihThen ihElse =>
    refine .branch test (hat ht) (hf t htalike) (hat he) (hf e healike) ?_ ?_
    · rw [hbody, hterm]
      exact ihThen
    · rw [hbody, hterm]
      exact ihElse

/-! ## Linearised bodies stand for the body -/

/-- The parameters of the blocks that are split off. -/
def Origin.params (o : Origin) : List BlockParam :=
  paramsForLinearizedNames o.blockParams o.declaredParams

/-- The block at a label of the output, and what it stands for. -/
def StandsAt (blocks : List (StructuredBlock I)) (o : Origin) (label : BlockLabel)
    (before rest : List (StructuredInstr I)) (term : BlockTerm I) : Prop :=
  ∃ b linear, blockAt blocks label = some b ∧ (b.excEdge = o.excEdge ∧ b.params = o.params) ∧
    b.body = before ++ linear ∧ Stands blocks o.excEdge o.params linear b.term rest term

/-- A branch that goes on with `next` stands for its statements and what follows. -/
theorem stands_branch {blocks : List (StructuredBlock I)} {o : Origin} {label : BlockLabel}
    {body rest : List (StructuredInstr I)} (bodyTerm : Option (BlockTerm I))
    {next term : BlockTerm I}
    (hbody : ∀ (finalTerm : BlockTerm I) rest term, bodyTerm.getD next = finalTerm →
      Stands blocks o.excEdge o.params [] finalTerm rest term →
      StandsAt blocks o label [] (body ++ rest) term)
    (hnext : Stands blocks o.excEdge o.params [] next rest term) :
    ∃ b, blockAt blocks label = some b ∧ (b.excEdge = o.excEdge ∧ b.params = o.params) ∧
      Stands blocks o.excEdge o.params b.body b.term (followed body bodyTerm rest)
        (bodyTerm.getD term) := by
  cases bodyTerm with
  | none =>
    obtain ⟨b, linear, hb, halike, hlinear, hstands⟩ := hbody next rest term rfl hnext
    rw [List.nil_append] at hlinear
    exact ⟨b, hb, halike, hlinear ▸ hstands⟩
  | some t =>
    obtain ⟨b, linear, hb, halike, hlinear, hstands⟩ := hbody t [] t rfl (.done t)
    rw [List.nil_append] at hlinear
    rw [List.append_nil] at hstands
    exact ⟨b, hb, halike, hlinear ▸ hstands⟩

theorem linearize_mono (o : Origin) (body : List (StructuredInstr I)) (label : BlockLabel)
    (before : List (StructuredInstr I)) (finalTerm : BlockTerm I) (out : Linearized I) :
    out.blocks ⊆ (linearizeBlockpyIfSequence o label before body finalTerm out).blocks := by
  induction body using nestedLabels.induct generalizing label before finalTerm out with
  | case1 =>
    rw [linearizeBlockpyIfSequence]
    exact List.subset_append_left _ _
  | case2 e rest ih =>
    rw [linearizeBlockpyIfSequence]
    exact ih label _ finalTerm out
  | case3 test body bodyTerm orelse orelseTerm rest ihBody ihOrelse ihRest =>
    have hbranches : ∀ next n, out.blocks ⊆
        (branchesOf o label before test body bodyTerm orelse orelseTerm out next n).blocks := by
      intro next n
      have hhead : out.blocks ⊆ (headOf o label before test out n).blocks :=
        List.subset_append_left _ _
      exact List.Subset.trans (List.Subset.trans hhead (ihBody _ _ _ _)) (ihOrelse _ _ _ _)
    cases rest with
    | nil =>
      rw [linearize_last]
      exact hbranches _ _
    | cons stmt rest =>
      rw [linearize_join]
      exact List.Subset.trans (hbranches _ _) (ihRest _ _ _ _)

section LinearizeStands

variable {blocks : List (StructuredBlock I)} {o : Origin}

/-- What is found at the labels of the linearised body of a branch. -/
def BodyStands (blocks : List (StructuredBlock I)) (o : Origin) (body : List (StructuredInstr I)) :
    Prop :=
  ∀ (label : BlockLabel) (before : List (StructuredInstr I)) (finalTerm : BlockTerm I)
    (out : Linearized I),
    (∀ b ∈ (linearizeBlockpyIfSequence o label before body finalTerm out).blocks,
      blockAt blocks b.label = some b) →
    ∀ {rest : List (StructuredInstr I)} {term : BlockTerm I},
      Stands blocks o.excEdge o.params [] finalTerm rest term →
      StandsAt blocks o label before (body ++ rest) term

/-- The head of a conditional stands for it, when what follows the branches is stood for. -/
theorem branchesOf_stands {label : BlockLabel} {before body orelse rest : List (StructuredInstr I)}
    (hbody : BodyStands blocks o body) (horelse : BodyStands blocks o orelse) (test : I)
    {bodyTerm orelseTerm : Option (BlockTerm I)} {out : Linearized I} {next term : BlockTerm I}
    {n : ℕ} (hfind : ∀ b ∈
      (branchesOf o label before test body bodyTerm orelse orelseTerm out next n).blocks,
      blockAt blocks b.label = some b)
    (hnext : Stands blocks o.excEdge o.params [] next rest term) :
    StandsAt blocks o label before (.ifStmt test body bodyTerm orelse orelseTerm :: rest) term := by
  have hthenFind := fun b hb => hfind b (linearize_mono o orelse _ _ _ _ hb)
  have hheadFind := fun b hb => hthenFind b (linearize_mono o body _ _ _ _ hb)
  obtain ⟨t, ht, htalike, hthen⟩ := stands_branch bodyTerm
    (fun finalTerm rest term hterm h => by
      subst hterm
      exact hbody out.nextBlock [] _ _ hthenFind h) hnext
  obtain ⟨e, he, healike, helse⟩ := stands_branch orelseTerm
    (fun finalTerm rest term hterm h => by
      subst hterm
      exact horelse (out.nextBlock + 1) [] _ _ hfind h) hnext
  refine ⟨_, [], hheadFind _ (List.mem_append_right _ (List.mem_singleton_self _)),
    ⟨rfl, rfl⟩, (List.append_nil before).symm, ?_⟩
  exact .branch test ht htalike he healike hthen helse

/-- What a body is linearised to stands for it, and for whatever its final terminator stands. -/
theorem linearize_stands (o : Origin) (body : List (StructuredInstr I)) :
    BodyStands blocks o body := by
  induction body using nestedLabels.induct with
  | case1 =>
    intro label before finalTerm out hfind rest term hfinal
    rw [linearizeBlockpyIfSequence] at hfind
    exact ⟨_, [], hfind _ (List.mem_append_right _ (List.mem_singleton_self _)),
      ⟨rfl, rfl⟩, (List.append_nil before).symm, hfinal⟩
  | case2 e body ih =>
    intro label before finalTerm out hfind rest term hfinal
    rw [linearizeBlockpyIfSequence] at hfind
    obtain ⟨b, linear, hb, halike, hlinear, hstands⟩ := ih label _ finalTerm out hfind hfinal
    refine ⟨b, .expr e :: linear, hb, halike, ?_, .expr e hstands⟩
    rw [hlinear, List.append_assoc]
    rfl
  | case3 test body bodyTerm orelse orelseTerm more ihBody ihOrelse ihMore =>
    intro label before finalTerm out hfind rest term hfinal
    cases more with
    | nil =>
      rw [linearize_last] at hfind
      exact branchesOf_stands ihBody ihOrelse test hfind hfinal
    | cons stmt more =>
      rw [linearize_join] at hfind
      obtain ⟨j, linear, hj, halike, hlinear, hstands⟩ :=
        ihMore (out.nextBlock + 2) [] finalTerm _ hfind hfinal
      rw [List.nil_append] at hlinear
      have hjoin : Stands blocks o.excEdge o.params [] (.jump (BlockEdge.new (out.nextBlock + 2)))
          ((stmt :: more) ++ rest) term := .join hj halike (hlinear ▸ hstands)
      exact branchesOf_stands ihBody ihOrelse test
        (fun b hb => hfind b (linearize_mono o _ _ _ _ _ hb)) hjoin

end LinearizeStands

/-! ## Simulation -/

/-- Each block of the first list is stood for by the block of the second list at its label. Other
blocks of the second list have labels that the first list does not mention. -/
structure LinearFor (blocks linear : List (StructuredBlock I)) (n : ℕ) : Prop where
  block : ∀ label b, blockAt blocks label = some b → ∃ b', blockAt linear label = some b' ∧
    b'.params = b.params ∧ b'.excEdge = b.excEdge ∧
    Stands linear b.excEdge b.params b'.body b'.term b.body b.term
  missing : ∀ label : ℕ, label < n → blockAt blocks label = none → blockAt linear label = none
  mentions : ∀ b ∈ blocks, ∀ l : ℕ, l ∈ b.mentions → l < n

/-- The places of two runs that correspond. -/
structure LinearPlace (linear : List (StructuredBlock I)) (n : ℕ) (p q : Place I W) : Prop where
  excEdge : q.excEdge = p.excEdge
  world : q.world = p.world
  log : q.log = p.log
  stands : ∃ params, Stands linear p.excEdge params q.rest q.term p.rest p.term
  labels : ∀ l : ℕ, l ∈ p.labels → l < n

section Simulation

variable (m : Meaning I V W H) {blocks linear : List (StructuredBlock I)} {n : ℕ}
  (hfor : LinearFor blocks linear n)

/-- The linear run catches up from a move of its own. -/
def LinearMoves (blocks linear : List (StructuredBlock I)) (n : ℕ) (mv mv' : Move I V W H) : Prop :=
  (m.runs linear).CatchesUp (LinearPlace linear n) Eq (m.resolve blocks mv) (m.resolve linear mv')

include hfor

theorem linearMoves_enter (edge : BlockEdge) (exc : Option V) (w : W) (log : List (Event I))
    (hlt : (edge.target : ℕ) < n) :
    LinearMoves m blocks linear n (.enter edge exc w log) (.enter edge exc w log) := by
  unfold LinearMoves
  cases hb : blockAt blocks edge.target with
  | some b =>
    obtain ⟨b', hb', hparams, hexc, hstands⟩ := hfor.block _ b hb
    rw [m.resolve_enter edge hb, m.resolve_enter edge hb']
    refine CatchesUp.of_rel ⟨hexc, ?_, rfl, ⟨_, hstands⟩, ?_⟩
    · show m.enter b'.params edge.args exc w = m.enter b.params edge.args exc w
      rw [hparams]
    · exact fun l hl => hfor.mentions b (mem_of_blockAt hb) l hl
  | none =>
    rw [m.resolve_noBlock hb, m.resolve_noBlock (hfor.missing edge.target hlt hb)]
    exact rfl

theorem linearMoves_throw {p q : Place I W} (hexc : q.excEdge = p.excEdge)
    (hlabels : ∀ l : ℕ, l ∈ p.labels → l < n) (x : V) (w : W) (log : List (Event I)) :
    LinearMoves m blocks linear n (m.throw p x w log) (m.throw q x w log) := by
  rw [Meaning.throw, Meaning.throw, hexc]
  cases hedge : p.excEdge with
  | none => exact rfl
  | some edge =>
    refine linearMoves_enter m hfor edge _ w log (hlabels _ ?_)
    unfold Place.labels
    rw [hedge]
    exact List.mem_append_right _ (List.mem_singleton_self _)

/-- **A step.** The linear run jumps to where the branches have joined, and makes the same move. -/
theorem step_catchesUp {excEdge : Option BlockEdge} {params : List BlockParam}
    {body rest : List (StructuredInstr I)}
    {bodyTerm term : BlockTerm I} (h : Stands linear excEdge params body bodyTerm rest term)
    (w : W) (log : List (Event I))
    (hlabels : ∀ l : ℕ, l ∈ (Place.mk excEdge rest term w log).labels → l < n) :
    (m.runs linear).CatchesUp (LinearPlace linear n) Eq
      (m.resolve blocks (m.move ⟨excEdge, rest, term, w, log⟩))
      ((m.runs linear).step ⟨excEdge, body, bodyTerm, w, log⟩) := by
  induction h generalizing w log with
  | done term =>
    have hrel := terminate_rel (m := m) (C := LinearMoves m blocks linear n)
      (p := ⟨excEdge, [], term, w, log⟩) (q := ⟨excEdge, [], term, w, log⟩)
      (linearMoves_throw m hfor rfl hlabels) rfl rfl id term (fun r => rfl)
      fun edge w log hedge => linearMoves_enter m hfor edge none w log
        (hlabels _ (List.mem_append_left _ (List.mem_append_right _ hedge)))
    rw [BlockTerm.mapLabels_id] at hrel
    exact hrel
  | @expr e body rest bodyTerm term h ih =>
    refine evaluate_rel (C := LinearMoves m blocks linear n) (linearMoves_throw m hfor rfl hlabels)
      rfl e fun v w => ?_
    have hrest : ∀ l : ℕ, l ∈ (Place.mk excEdge rest term w (log ++ [.stmt e])).labels → l < n := by
      intro l hl
      refine hlabels l ?_
      unfold Place.labels
      rw [nestedLabels]
      exact hl
    exact CatchesUp.of_rel ⟨rfl, rfl, rfl, ⟨params, h⟩, hrest⟩
  | @join label b rest term hb halike h ih =>
    have hjump : (m.runs linear).step ⟨excEdge, [], .jump (BlockEdge.new label), w, log⟩ =
        .inl ⟨b.excEdge, b.body, b.term, w, log⟩ := m.resolve_goto hb w log
    rw [hjump, halike.1]
    exact CatchesUp.step rfl (ih w log hlabels)
  | @branch test thenLabel elseLabel t e body orelse rest bodyTerm orelseTerm term ht htalike he
      healike hthen helse ihThen ihElse =>
    refine branch_rel (C := LinearMoves m blocks linear n) (linearMoves_throw m hfor rfl hlabels)
      rfl test fun b w => ?_
    have hplace : ∀ l : ℕ, l ∈ nestedLabels rest ++ term.labels ++
        (excEdge.map BlockEdge.target).toList → l < n := by
      intro l hl
      refine hlabels l ?_
      unfold Place.labels
      rw [nestedLabels, List.append_assoc, List.append_assoc]
      rw [List.append_assoc] at hl
      exact List.mem_append_right _ hl
    have hnested : ∀ l : ℕ, l ∈ nestedLabels body ++ (bodyTerm.map BlockTerm.labels).getD [] ∨
        l ∈ nestedLabels orelse ++ (orelseTerm.map BlockTerm.labels).getD [] → l < n := by
      intro l hl
      refine hlabels l ?_
      unfold Place.labels
      rw [nestedLabels]
      refine List.mem_append_left _ (List.mem_append_left _ (List.mem_append_left _ ?_))
      exact hl.elim (List.mem_append_left _) (List.mem_append_right _)
    unfold LinearMoves
    cases b with
    | true =>
      show (m.runs linear).CatchesUp _ _ _ (m.resolve linear (goto thenLabel w _))
      rw [m.resolve_goto ht, htalike.1]
      refine CatchesUp.of_rel ⟨rfl, rfl, rfl, ⟨params, hthen⟩, fun l hl => ?_⟩
      exact (fragment_labels _ _ _ _ _ _ hl).elim (fun h => hnested l (.inl h)) (hplace l)
    | false =>
      show (m.runs linear).CatchesUp _ _ _ (m.resolve linear (goto elseLabel w _))
      rw [m.resolve_goto he, healike.1]
      refine CatchesUp.of_rel ⟨rfl, rfl, rfl, ⟨params, helse⟩, fun l hl => ?_⟩
      exact (fragment_labels _ _ _ _ _ _ hl).elim (fun h => hnested l (.inr h)) (hplace l)

/-- **Runs.** A block and the block that stands for it do the same. -/
theorem sameBehaviour_of_linearFor {label : BlockLabel} {b b' : StructuredBlock I}
    (hb : blockAt blocks label = some b) (hb' : blockAt linear label = some b') :
    m.SameBehaviour blocks linear b b' := by
  obtain ⟨c, hc, hparams, hexc, hstands⟩ := hfor.block label b hb
  obtain rfl := Option.some.inj (hb'.symm.trans hc)
  have hstart : ∀ args exc w, LinearPlace linear n (m.start b args exc w [])
      (m.start b' args exc w []) := by
    intro args exc w
    refine ⟨hexc, ?_, rfl, ⟨_, hstands⟩, fun l hl => hfor.mentions b (mem_of_blockAt hb) l hl⟩
    show m.enter b'.params args exc w = m.enter b.params args exc w
    rw [hparams]
  have hstep : ∀ p q, LinearPlace linear n p q → True →
      (m.runs linear).Answers (LinearPlace linear n) Eq (fun _ => 0) p q
        ((m.runs blocks).step p) := by
    intro p q hplace _
    obtain ⟨hexc, hworld, hlog, ⟨params, hstands⟩, hlabels⟩ := hplace
    obtain ⟨excEdge, rest, term, w, l⟩ := p
    obtain ⟨excEdge', rest', term', w', l'⟩ := q
    cases hexc
    cases hworld
    cases hlog
    exact (step_catchesUp m hfor hstands w l hlabels).answers rfl
  exact ⟨fun args exc w => simulates hstep (hstart args exc w) fun _ _ => trivial,
    fun args exc w l => simulates_writes hstep (fun p q h => h.log.symm) (m.runs_appends linear)
      (hstart args exc w) (fun _ _ => trivial) l⟩

end Simulation

end DietPython.Blocks
