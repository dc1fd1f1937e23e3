import DietPython.Blocks.Structured

/-!
# Where basic blocks go

A run of basic blocks is always inside one of them. It leaves the block by an exception along the
edge to the handler, without one along an edge of the terminator, or it ends. If every edge has a
target and its arguments fit there, a run therefore only ever enters blocks that are there, with
arguments that fit.
-/

namespace DietPython.Blocks

open Machines

/-- The edges of a terminator, of which only those of jumps have arguments. -/
def BlockTerm.edges {I : Type} : BlockTerm I → List BlockEdge
  | .jump edge => [edge]
  | .ifTerm _ thenLabel elseLabel => [BlockEdge.new thenLabel, BlockEdge.new elseLabel]
  | .branchTable _ targets defaultLabel => (targets ++ [defaultLabel]).map BlockEdge.new
  | .raiseTerm _ | .ret _ => []

/-- The edges of a list of blocks have targets, and their arguments fit there: those for handlers
as `dispatch` says and the others as `follow` says. -/
structure Wired {I : Type} (blocks : List (Block I I))
    (dispatch follow : Block I I → Block I I → List BlockArg → Prop) : Prop where
  dispatch : ∀ b ∈ blocks, ∀ edge, b.excEdge = some edge →
    ∃ target, blockAt blocks edge.target = some target ∧ dispatch b target edge.args
  follow : ∀ b ∈ blocks, ∀ edge ∈ b.term.edges,
    ∃ target, blockAt blocks edge.target = some target ∧ follow b target edge.args

/-- A place in a basic block. -/
structure Place.Inside {I W : Type} (source : Block I I) (p : Place I W) : Prop where
  excEdge : p.excEdge = source.excEdge
  term : p.term = source.term
  rest : ∃ body : List I, p.rest = body.map .expr

/-- What a move in a basic block can be. -/
inductive Move.From {I V W H : Type} (source : Block I I) : Move I V W H → Prop
  | on {p : Place I W} (h : p.Inside source) : From source (.on p)
  | dispatch {edge : BlockEdge} (h : source.excEdge = some edge) (exc : V) (w : W)
      (log : List (Event I)) : From source (.enter edge (some exc) w log)
  | follow {edge : BlockEdge} (h : edge ∈ source.term.edges) (w : W) (log : List (Event I)) :
      From source (.enter edge none w log)
  | off {final : Final I V H} (h : ∀ label, final.ending ≠ .noBlock label) :
      From source (.off final)

namespace Place.Inside

variable {I V W H : Type} {m : Meaning I V W H} {source : Block I I} {p : Place I W}
  (h : p.Inside source) {log : List (Event I)}

include h

theorem throw (exc : V) (w : W) : (m.throw p exc w log).From source := by
  unfold Meaning.throw
  rw [h.excEdge]
  cases hedge : source.excEdge with
  | none => exact .off fun _ hending => by cases hending
  | some edge => exact .dispatch hedge exc w log

theorem proceed {α : Type} {next : α → W → Move I V W H} (hnext : ∀ a w, (next a w).From source)
    (r : Except V α × W) : (m.proceed p log next r).From source := by
  obtain ⟨exc | a, w⟩ := r
  · exact h.throw exc w
  · exact hnext a w

theorem evaluate (e : I) {next : V → W → Move I V W H} (hnext : ∀ v w, (next v w).From source) :
    (m.evaluate p e log next).From source := h.proceed hnext _

theorem branch (e : I) {next : Bool → W → Move I V W H} (hnext : ∀ b w, (next b w).From source) :
    (m.branch p e log next).From source :=
  h.evaluate e fun _ _ => h.proceed hnext _

/-- A terminator follows one of its edges, or raises, or returns. -/
theorem terminate : (m.terminate p source.term).From source := by
  cases hterm : source.term with
  | jump edge =>
    refine .follow ?_ _ _
    rw [hterm]
    exact List.mem_singleton_self _
  | ifTerm test thenLabel elseLabel =>
    refine h.branch test fun b w => .follow ?_ w _
    rw [hterm]
    cases b with
    | true => exact List.mem_cons_self
    | false => exact List.mem_cons_of_mem _ (List.mem_singleton_self _)
  | branchTable index targets defaultLabel =>
    refine h.evaluate index fun v w => h.proceed (fun i w => .follow ?_ w _) _
    rw [hterm]
    exact List.mem_map_of_mem (BlockTerm.getD_mem_labels index targets defaultLabel i)
  | raiseTerm exc =>
    cases exc with
    | none => exact h.throw _ _
    | some exc => exact h.evaluate exc fun _ _ => h.throw _ _
  | ret value => exact h.evaluate value fun _ _ => .off fun _ hending => by cases hending

/-- **One move** in a basic block. -/
theorem move : (m.move p).From source := by
  obtain ⟨body, hrest⟩ := h.rest
  unfold Meaning.move
  rw [hrest]
  cases body with
  | nil =>
    rw [h.term]
    exact h.terminate
  | cons e body => exact h.evaluate e fun _ _ => .on ⟨h.excEdge, h.term, body, rfl⟩

end Place.Inside

namespace Meaning

variable {I V W H : Type} {m : Meaning I V W H} {source : Block I I}

/-- The start of a basic block is inside it. -/
theorem start_inside (b : Block I I) (args : List BlockArg) (exc : Option V) (w : W)
    (log : List (Event I)) : (m.start b.structured args exc w log).Inside b :=
  ⟨rfl, rfl, b.body, rfl⟩

variable (m) in
/-- A place in one of the blocks, from where only blocks are entered that are there and whose
parameters the arguments fit. -/
def EntersAlong (blocks : List (Block I I))
    (dispatch follow : Block I I → Block I I → List BlockArg → Prop) (p : Place I W) : Prop :=
  ∃ source ∈ blocks, p.Inside source ∧ ∀ edge exc w log, m.move p = .enter edge exc w log →
    ∃ target, blockAt blocks edge.target = some target ∧
      if exc.isSome then dispatch source target edge.args else follow source target edge.args

section Runs

variable {blocks : List (Block I I)}
  {dispatch follow : Block I I → Block I I → List BlockArg → Prop}
  (h : Wired blocks dispatch follow)

include h

theorem entersAlong_of_inside {p : Place I W} (hsource : source ∈ blocks) (hp : p.Inside source) :
    m.EntersAlong blocks dispatch follow p := by
  refine ⟨source, hsource, hp, fun edge exc w log hmove => ?_⟩
  have hfrom := hp.move (m := m)
  rw [hmove] at hfrom
  cases hfrom with
  | dispatch hedge => exact h.dispatch source hsource edge hedge
  | follow hedge => exact h.follow source hsource edge hedge

/-- A step ends in a block as well, or the run ends other than for the lack of a block. -/
theorem step_entersAlong {p : Place I W} (hp : m.EntersAlong blocks dispatch follow p) :
    (∃ q, (m.runs (blocks.map Block.structured)).step p = .inl q ∧
        m.EntersAlong blocks dispatch follow q) ∨
      ∃ r, (m.runs (blocks.map Block.structured)).step p = .inr r ∧
        ∀ label, r.ending ≠ .noBlock label := by
  obtain ⟨source, hsource, hp, henters⟩ := hp
  have hfrom := hp.move (m := m)
  show (∃ q, m.resolve _ (m.move p) = .inl q ∧ _) ∨ ∃ r, m.resolve _ (m.move p) = .inr r ∧ _
  -- Whatever the edge is, its target is there.
  have henter : ∀ edge exc w log, m.move p = .enter edge exc w log →
      ∃ q, m.resolve (blocks.map Block.structured) (.enter edge exc w log) = .inl q ∧
        m.EntersAlong blocks dispatch follow q := by
    intro edge exc w log hmove
    obtain ⟨target, htarget, -⟩ := henters edge exc w log hmove
    have hat : blockAt (blocks.map Block.structured) edge.target = some target.structured := by
      rw [blockAt_map (f := Block.structured) fun _ => rfl, htarget]
      rfl
    exact ⟨_, m.resolve_enter edge hat exc w log,
      entersAlong_of_inside h (mem_of_blockAt htarget) (start_inside target _ _ _ _)⟩
  generalize hmove : m.move p = move at hfrom henter ⊢
  cases hfrom with
  | on hq => exact .inl ⟨_, rfl, entersAlong_of_inside h hsource hq⟩
  | dispatch hedge exc w log => exact .inl (henter _ _ _ _ rfl)
  | follow hedge w log => exact .inl (henter _ _ _ _ rfl)
  | off hending => exact .inr ⟨_, rfl, hending⟩

/-- Runs of wired blocks stay on their edges. -/
theorem guardedFrom_entersAlong {p : Place I W} (hp : m.EntersAlong blocks dispatch follow p) :
    (m.runs (blocks.map Block.structured)).GuardedFrom
      (m.EntersAlong blocks dispatch follow) p := by
  refine Machine.guardedFrom_of_invariant hp fun p q hp hstep => ?_
  obtain ⟨q', hq', hinside⟩ | ⟨r, hr, -⟩ := step_entersAlong h hp
  · rw [hstep] at hq'
    cases hq'
    exact hinside
  · rw [hstep] at hr
    cases hr

/-- They never miss a block. -/
theorem ending_ne_noBlock {p : Place I W} (hp : m.EntersAlong blocks dispatch follow p)
    {r : Final I V H} (hr : (m.runs (blocks.map Block.structured)).Finishes p r)
    (label : BlockLabel) : r.ending ≠ .noBlock label := by
  obtain ⟨k, hk⟩ := hr
  induction k generalizing p with
  | zero => cases hk
  | succ k ih =>
    obtain ⟨q, hstep, hq⟩ | ⟨r', hstep, hending⟩ := step_entersAlong h hp
    · rw [Machine.run_succ_of_step _ hstep] at hk
      exact ih hq hk
    · rw [Machine.run_succ_of_finish _ hstep] at hk
      cases hk
      exact hending label

end Runs

end Meaning

end DietPython.Blocks
