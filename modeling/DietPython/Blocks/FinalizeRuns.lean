import DietPython.Blocks.Finalize

/-!
# Runs of the blocks that are kept

A run in the kept blocks is at the same place as a run in all blocks, with a folded terminator. Only
when a folded jump is taken, the run in all blocks has entered the block that returns the implicit
`None`, and the other one is still before the same return.
-/

namespace DietPython.Blocks

open Machines Machine Meaning

variable {I V W H : Type} {isNone : I → Bool}

/-- A meaning in which an implicit `None` is a value without effects. -/
structure NoneMeaning (isNone : I → Bool) (V W H : Type) extends Meaning I V W H where
  noneValue : V
  eval_none : ∀ e, isNone e = true → ∀ w, eval e w = (.ok noneValue, w)

/-- The kept blocks are the folded ones, and mention only labels of kept blocks. -/
structure FoldedInto (isNone : I → Bool) (terms : List (BlockLabel × BlockTerm I))
    (blocks kept : List (StructuredBlock I)) (K : BlockLabel → Prop) : Prop where
  block : ∀ l, K l → ∃ b, blockAt blocks l = some b ∧ blockAt kept l = some (foldBlock terms b) ∧
    ∀ l' ∈ (foldBlock terms b).mentions, K l'
  trivial : ∀ l term, terms.lookup l = some term →
    ∃ b, blockAt blocks l = some b ∧ trivialReturn isNone b = some term

/-- The places of a run in all blocks and of a run in the kept blocks. -/
inductive FoldedPlace (m : Meaning I V W H) (isNone : I → Bool)
    (terms : List (BlockLabel × BlockTerm I)) (K : BlockLabel → Prop) :
    Place I W → Place I W → Prop
  | same (p : Place I W) (term : BlockTerm I)
      (hterm : term = p.term ∨ ∃ edge, p.term = .jump edge ∧ terms.lookup edge.target = some term)
      (hkept : ∀ l ∈ ({ p with term } : Place I W).labels, K l) :
      FoldedPlace m isNone terms K p { p with term }
  | ahead (e : I) (hnone : isNone e = true) (excEdge excEdge' : Option BlockEdge)
      (params : List BlockParam) (args : List BlockArg) (w : W) (log : List (Event I)) :
      FoldedPlace m isNone terms K ⟨excEdge, [], .ret e, m.enter params args none w, log⟩
        ⟨excEdge', [], .ret e, w, log⟩

/-- A folded jump is a step to which the other run has no answer yet. -/
def jumpsLeft (p : Place I W) : ℕ :=
  match p.rest, p.term with
  | [], .jump _ => 1
  | _, _ => 0

section Simulation

variable (m : NoneMeaning isNone V W H) {terms : List (BlockLabel × BlockTerm I)}
  {blocks kept : List (StructuredBlock I)} {K : BlockLabel → Prop}
  (hfold : FoldedInto isNone terms blocks kept K)

/-- What a move of the first run is answered by. -/
def FoldedMoves (terms : List (BlockLabel × BlockTerm I)) (blocks kept : List (StructuredBlock I))
    (K : BlockLabel → Prop) (mv mv' : Move I V W H) : Prop :=
  (m.runs kept).CatchesUp (FoldedPlace m.toMeaning isNone terms K) Eq (m.resolve blocks mv)
    (m.resolve kept mv')

/-- The place at the start of a block. -/
theorem foldedPlace_start {b : StructuredBlock I}
    (hkept : ∀ l ∈ (foldBlock terms b).mentions, K l) (args : List BlockArg)
    (exc : Option V) (w : W)
    (log : List (Event I)) :
    FoldedPlace m.toMeaning isNone terms K (m.start b args exc w log)
      (m.start (foldBlock terms b) args exc w log) := by
  have hstart : m.start (foldBlock terms b) args exc w log =
      { m.start b args exc w log with term := (foldBlock terms b).term } := by
    unfold Meaning.start
    rw [foldBlock_excEdge, foldBlock_body, foldBlock_params]
  rw [hstart]
  refine .same _ _ ?_ fun l hl => hkept l ?_
  · rcases foldBlock_cases terms b with ⟨h, -⟩ | ⟨edge, term, hjump, hlookup, h⟩
    · exact .inl (by rw [h]; rfl)
    · exact .inr ⟨edge, hjump, by rw [h]; exact hlookup⟩
  · unfold Block.mentions
    rw [foldBlock_body, foldBlock_excEdge]
    exact hl

include hfold

theorem foldedMoves_enter (edge : BlockEdge) (exc : Option V) (w : W) (log : List (Event I))
    (hkept : K edge.target) :
    FoldedMoves m terms blocks kept K (.enter edge exc w log) (.enter edge exc w log) := by
  obtain ⟨b, hb, hb', hmentions⟩ := hfold.block edge.target hkept
  unfold FoldedMoves
  rw [m.resolve_enter edge hb, m.resolve_enter edge hb']
  exact CatchesUp.of_rel (foldedPlace_start m hmentions edge.args exc w log)

theorem foldedMoves_throw {p : Place I W} (term : BlockTerm I)
    (hkept : ∀ l ∈ (p.excEdge.map BlockEdge.target).toList, K l) (x : V) (w : W)
    (log : List (Event I)) :
    FoldedMoves m terms blocks kept K (m.throw p x w log) (m.throw { p with term } x w log) := by
  rw [Meaning.throw, Meaning.throw]
  cases hedge : p.excEdge with
  | none => exact rfl
  | some edge =>
    refine foldedMoves_enter m hfold edge _ w log (hkept _ ?_)
    rw [hedge]
    exact List.mem_singleton_self _

omit hfold in
/-- A chosen fragment ends with its own terminator, or with the one that follows. -/
theorem foldedPlace_fragment {excEdge : Option BlockEdge} {rest body : List (StructuredInstr I)}
    {pterm term : BlockTerm I} {bodyTerm : Option (BlockTerm I)} {stmts : List (StructuredInstr I)}
    {w₀ : W} {log₀ : List (Event I)}
    (hterm : term = pterm ∨ ∃ edge, pterm = .jump edge ∧ terms.lookup edge.target = some term)
    (hnested : ∀ l ∈ nestedLabels body ++ (bodyTerm.map BlockTerm.labels).getD [], K l)
    (hrest : ∀ l ∈ nestedLabels rest ++ term.labels ++ (excEdge.map BlockEdge.target).toList, K l)
    (w : W) (log : List (Event I)) :
    FoldedPlace m.toMeaning isNone terms K
      (fragment ⟨excEdge, stmts, pterm, w₀, log₀⟩ body bodyTerm rest w log)
      (fragment ⟨excEdge, stmts, term, w₀, log₀⟩ body bodyTerm rest w log) := by
  refine .same (fragment ⟨excEdge, stmts, pterm, w₀, log₀⟩ body bodyTerm rest w log)
    (bodyTerm.getD term) ?_ fun l hl => ?_
  · cases bodyTerm with
    | some t => exact .inl rfl
    | none => exact hterm
  · exact (fragment_labels ⟨excEdge, stmts, term, w₀, log₀⟩ body bodyTerm rest w log hl).elim
      (hnested l) (hrest l)

/-- **A step.** The run in the kept blocks makes the same step, unless the jump is folded. -/
theorem folded_answers {p q : Place I W} (h : FoldedPlace m.toMeaning isNone terms K p q) :
    (m.runs kept).Answers (FoldedPlace m.toMeaning isNone terms K) Eq jumpsLeft p q
      ((m.runs blocks).step p) := by
  cases h with
  | ahead e hnone excEdge excEdge' params args w log =>
    refine CatchesUp.answers rfl ?_
    show FoldedMoves m terms blocks kept K (m.evaluate _ e _ _) (m.evaluate _ e _ _)
    unfold evaluate
    rw [m.eval_none e hnone, m.eval_none e hnone]
    show (⟨.ret m.noneValue, m.left (m.enter params args none w), _⟩ : Final I V H) =
      ⟨.ret m.noneValue, m.left w, _⟩
    rw [m.left_enter]
  | same p term hterm hkept =>
    obtain ⟨excEdge, rest, pterm, w, log⟩ := p
    have hthrow : ∀ x w' log', FoldedMoves m terms blocks kept K
        (m.throw ⟨excEdge, rest, pterm, w, log⟩ x w' log')
        (m.throw ⟨excEdge, rest, term, w, log⟩ x w' log') := fun x w' log' =>
      foldedMoves_throw m hfold (p := ⟨excEdge, rest, pterm, w, log⟩) term
        (fun l hl => hkept l (List.mem_append_right _ hl)) x w' log'
    cases rest with
    | nil =>
      rcases hterm with heq | ⟨edge, hjump, hlookup⟩
      · obtain rfl : term = pterm := heq
        have hrel := terminate_rel (m := m.toMeaning)
          (C := FoldedMoves m terms blocks kept K) hthrow
          rfl rfl id term (fun r => rfl) fun edge w' log' hedge =>
            foldedMoves_enter m hfold edge none w' log'
              (hkept _ (List.mem_append_left _ (List.mem_append_right _ hedge)))
        rw [BlockTerm.mapLabels_id] at hrel
        exact CatchesUp.answers rfl hrel
      · obtain rfl : pterm = .jump edge := hjump
        obtain ⟨b, hb, htrivial⟩ := hfold.trivial edge.target term hlookup
        obtain ⟨hbody, e, hret, hnone, rfl⟩ := trivialReturn_eq_some.mp htrivial
        have hstart : m.start b edge.args none w log =
            ⟨b.excEdge, [], .ret e, m.enter b.params edge.args none w, log⟩ := by
          unfold Meaning.start
          rw [hbody, hret]
        have hstep : (m.runs blocks).step ⟨excEdge, [], .jump edge, w, log⟩ =
            .inl ⟨b.excEdge, [], .ret e, m.enter b.params edge.args none w, log⟩ := by
          rw [← hstart]
          exact m.resolve_enter edge hb none w log
        rw [hstep]
        exact Answers.stay (.ahead e hnone _ _ _ _ w log) (Nat.zero_lt_one)
    | cons stmt rest =>
      cases stmt with
      | expr e =>
        refine CatchesUp.answers rfl (evaluate_rel
          (C := FoldedMoves m terms blocks kept K) hthrow rfl
          e fun v w' => CatchesUp.of_rel ?_)
        refine .same ⟨excEdge, rest, pterm, w', log ++ [.stmt e]⟩ term hterm fun l hl => hkept l ?_
        unfold Place.labels
        rw [nestedLabels]
        exact hl
      | ifStmt test body bodyTerm orelse orelseTerm =>
        refine CatchesUp.answers rfl (branch_rel (C := FoldedMoves m terms blocks kept K) hthrow rfl
          test fun b w' => CatchesUp.of_rel ?_)
        have hall : ∀ l, l ∈ (nestedLabels body ++ (bodyTerm.map BlockTerm.labels).getD []) ++
            (nestedLabels orelse ++ (orelseTerm.map BlockTerm.labels).getD []) ++
            (nestedLabels rest ++ term.labels ++ (excEdge.map BlockEdge.target).toList) → K l := by
          intro l hl
          refine hkept l ?_
          unfold Place.labels
          rw [nestedLabels, List.append_assoc, List.append_assoc]
          rw [List.append_assoc (nestedLabels rest)] at hl
          exact hl
        have hrest : ∀ l ∈ nestedLabels rest ++ term.labels ++
            (excEdge.map BlockEdge.target).toList, K l := fun l hl =>
          hall l (List.mem_append_right _ hl)
        cases b with
        | true =>
          exact foldedPlace_fragment m hterm
            (fun l hl => hall l (List.mem_append_left _ (List.mem_append_left _ hl))) hrest w' _
        | false =>
          exact foldedPlace_fragment m hterm
            (fun l hl => hall l (List.mem_append_left _ (List.mem_append_right _ hl))) hrest w' _

/-- **Runs.** A kept block does the same as before. -/
theorem sameBehaviour_of_folded {label : BlockLabel} (hlabel : K label) :
    ∃ b b', blockAt blocks label = some b ∧ blockAt kept label = some b' ∧
      m.SameBehaviour blocks kept b b' := by
  obtain ⟨b, hb, hb', hmentions⟩ := hfold.block label hlabel
  refine ⟨b, _, hb, hb', ⟨fun args exc w => ?_, fun args exc w l => ?_⟩⟩
  · exact simulates (fun p q h (_ : True) => folded_answers m hfold h)
      (foldedPlace_start m hmentions args exc w []) fun _ _ => trivial
  · refine simulates_writes (fun p q h (_ : True) => folded_answers m hfold h)
      (fun p q h => ?_) (m.runs_appends kept) (foldedPlace_start m hmentions args exc w [])
      (fun _ _ => trivial) l
    cases h with
    | same p term => rfl
    | ahead => rfl

end Simulation

end DietPython.Blocks
