import DietPython.Expressions.OrderExact

/-!
# Making the order around suspensions explicit

`make_eval_order_explicit_in_core_callable_def` moves every suspension that is an operand into a
setup name of its own, so that a block can be split there. The operands written before such a
suspension stay where they are unless they suspend themselves. The block keeps the order of its
effects exactly when those operands have no effect.

1. `Core.makeEvalOrderExplicit` is the pass on one expression, `Block.makeEvalOrderExplicit` on a
   block.
2. `hoist_realizes`: the fragment of an orderly operand behaves like the operand.
3. `orderly_of_hoist_trace`: a fragment with the events of its operand in order comes from an
   orderly operand.
-/

namespace DietPython.Expressions

open LoggedComputations Logged

variable {V E : Type}

/-! ## The pass -/

def Op.suspends : Op → Bool
  | .yield | .yieldFrom => true
  | _ => false

mutual

def Core.containsYield : Core V → Bool
  | .literal _ | .load _ _ | .temp _ => false
  | .operation _ op args => op.suspends || args.containsYield

def Cores.containsYield : Cores V → Bool
  | .nil => false
  | .cons e es => e.containsYield || es.containsYield

end

/-- The node that an expression hands to `fresh_eval_name`; only operations are hoisted. -/
def Core.node : Core V → NodeIndex
  | .operation n _ _ | .load n _ => n
  | .literal _ | .temp _ => 0

/-- The setup statements, the setup names to delete after the statement, and what is left. -/
structure Hoisted (V α : Type) where
  setup : Setup V
  cleanup : List Temp
  residual : α

/-- `hoist_core_expr_if_contains_yield` for an expression that asks for the setup name of `n`, after
the recursive call. -/
def Hoisted.intoTemp (n : NodeIndex) (h : Hoisted V (Core V)) : Hoisted V (Core V) :=
  if h.residual.containsYield then
    { setup := h.setup ++ .assign (.eval n) h.residual .done
      cleanup := h.cleanup ++ [.eval n]
      residual := .temp (.eval n) }
  else h

mutual

/-- `make_eval_order_explicit_in_core_expr`. -/
def Core.makeEvalOrderExplicit : Core V → Hoisted V (Core V)
  | .literal c => ⟨.done, [], .literal c⟩
  | .load n id => ⟨.done, [], .load n id⟩
  | .temp t => ⟨.done, [], .temp t⟩
  | .operation n op args =>
      let h := args.hoistEach
      ⟨h.setup, h.cleanup, .operation n op h.residual⟩

def Cores.hoistEach : Cores V → Hoisted V (Cores V)
  | .nil => ⟨.done, [], .nil⟩
  | .cons e es =>
      let h := e.makeEvalOrderExplicit.intoTemp e.node
      let h' := es.hoistEach
      ⟨h.setup ++ h'.setup, h.cleanup ++ h'.cleanup, .cons h.residual h'.residual⟩

end

/-- `hoist_core_expr_if_contains_yield`. -/
def Core.hoistIfContainsYield (e : Core V) : Hoisted V (Core V) :=
  e.makeEvalOrderExplicit.intoTemp e.node

inductive Term (V : Type)
  | jump (target : Nat)
  | ifTerm (test : Core V) (thenLabel elseLabel : Nat)
  | branchTable (index : Core V) (targets : List Nat) (defaultLabel : Nat)
  | raise (exc : Option (Core V))
  | ret (value : Core V)

structure Block (V : Type) where
  body : List (Core V)
  term : Term V

/-- A block after the pass; its body has stores and deletions of setup names. -/
structure ExplicitBlock (V : Type) where
  body : Setup V
  term : Term V

/-- `append_stmt_cleanup`: the setup names are deleted in reverse. -/
def appendStmtCleanup (cleanup : List Temp) (next : Setup V) : Setup V :=
  cleanup.reverse.foldr Setup.delete next

/-- One instruction of the body, in front of the following ones. -/
def Core.explicitInstr (e : Core V) (next : Setup V) : Setup V :=
  if e.containsYield then
    let h := e.makeEvalOrderExplicit
    h.setup ++ .instr h.residual (appendStmtCleanup h.cleanup next)
  else .instr e next

/-- `make_eval_order_explicit_in_core_term`: the cleanup of a terminator is dropped. -/
def Term.makeEvalOrderExplicit : Term V → Setup V × Term V
  | .jump target => (.done, .jump target)
  | .ifTerm test thenLabel elseLabel =>
      (test.hoistIfContainsYield.setup,
        .ifTerm test.hoistIfContainsYield.residual thenLabel elseLabel)
  | .branchTable index targets defaultLabel =>
      (index.hoistIfContainsYield.setup,
        .branchTable index.hoistIfContainsYield.residual targets defaultLabel)
  | .raise none => (.done, .raise none)
  | .raise (some exc) =>
      (exc.hoistIfContainsYield.setup, .raise (some exc.hoistIfContainsYield.residual))
  | .ret value => (value.hoistIfContainsYield.setup, .ret value.hoistIfContainsYield.residual)

def Block.makeEvalOrderExplicit (b : Block V) : ExplicitBlock V :=
  { body := b.body.foldr Core.explicitInstr b.term.makeEvalOrderExplicit.1
    term := b.term.makeEvalOrderExplicit.2 }

/-! ## Running blocks -/

/-- The operand of a terminator; where control goes next depends on its value. -/
def Term.operand : Term V → Option (Core V)
  | .jump _ => none
  | .ifTerm test _ _ => some test
  | .branchTable index _ _ => some index
  | .raise exc => exc
  | .ret value => some value

def Term.eval (w : World V E) (σ : Temps V) (t : Term V) : Run V E (Option V) :=
  match t.operand with
  | none => pure none
  | some e => do
      let v ← e.eval w σ
      pure (some v)

/-- The instructions from left to right, and then the operand of the terminator. -/
def Block.run (w : World V E) (σ : Temps V) (b : Block V) : Run V E (Option V) :=
  (b.body.foldr Setup.instr .done).exec w σ >>= fun σ' => b.term.eval w σ'

def ExplicitBlock.run (w : World V E) (σ : Temps V) (b : ExplicitBlock V) : Run V E (Option V) :=
  b.body.exec w σ >>= fun σ' => b.term.eval w σ'

mutual

def Core.sites : Core V → List NodeIndex
  | .literal _ | .temp _ => []
  | .load n _ => [n]
  | .operation n _ args => n :: args.sites

def Cores.sites : Cores V → List NodeIndex
  | .nil => []
  | .cons e es => e.sites ++ es.sites

end

def Term.sites (t : Term V) : List NodeIndex := (t.operand.map Core.sites).getD []

/-- A block before the pass: its nodes have indices of their own, and it reads names of the program
only. Names of earlier passes are names like any other here. -/
structure SourceBlock (V : Type) where
  block : Block V
  nodup : (block.body.flatMap Core.sites ++ block.term.sites).Nodup
  named : ∀ e, e ∈ block.body ∨ block.term.operand = some e → e.Reads fun _ => False

/-! ## The condition -/

mutual

/-- Nothing observable is left of the operand after its setup. -/
def Core.settled : Core V → Bool
  | .literal _ | .temp _ => true
  | .load _ _ => false
  | .operation _ op args => op.suspends || (op.silent && args.settled)

def Cores.settled : Cores V → Bool
  | .nil => true
  | .cons e es => e.settled && es.settled

end

mutual

/-- An operand that is written before a suspending one leaves nothing to do after its setup. -/
def Core.Orderly : Core V → Prop
  | .literal _ | .load _ _ | .temp _ => True
  | .operation _ _ args => args.Orderly

def Cores.Orderly : Cores V → Prop
  | .nil => True
  | .cons e es => e.Orderly ∧ es.Orderly ∧ (es.containsYield = false ∨ e.settled = true)

end

def Block.Orderly (b : Block V) : Prop :=
  (∀ e ∈ b.body, e.Orderly) ∧ ∀ e, b.term.operand = some e → e.Orderly

/-! ## Facts about hoisted operands -/

section IntoTemp

variable {n : NodeIndex} {h : Hoisted V (Core V)}

theorem intoTemp_of_containsYield (hyield : h.residual.containsYield = true) :
    h.intoTemp n = ⟨h.setup ++ .assign (.eval n) h.residual .done, h.cleanup ++ [.eval n],
      .temp (.eval n)⟩ := if_pos hyield

theorem intoTemp_of_not_containsYield (hyield : h.residual.containsYield = false) :
    h.intoTemp n = h := if_neg (by rw [hyield]; exact Bool.false_ne_true)

theorem containsYield_intoTemp : (h.intoTemp n).residual.containsYield = false := by
  cases hyield : h.residual.containsYield with
  | true => rw [intoTemp_of_containsYield hyield]; rfl
  | false => rw [intoTemp_of_not_containsYield hyield, hyield]

/-- Storing the residual keeps the events in place. -/
theorem trace_intoTemp (ω : NodeIndex → Bool) :
    (h.intoTemp n).setup.trace ω ++ (h.intoTemp n).residual.trace =
      h.setup.trace ω ++ h.residual.trace := by
  cases hyield : h.residual.containsYield with
  | true =>
    rw [intoTemp_of_containsYield hyield]
    simp only [trace_append, Setup.trace, Core.trace, List.append_nil]
  | false => rw [intoTemp_of_not_containsYield hyield]

end IntoTemp

theorem containsYield_hoistEach (es : Cores V) : es.hoistEach.residual.containsYield = false := by
  cases es with
  | nil => rfl
  | cons e es =>
    rw [Cores.hoistEach, Cores.containsYield, containsYield_intoTemp, containsYield_hoistEach es,
      Bool.or_false]

/-- What is true of the fragment of an operand, or of operands, with the nodes `sites`. -/
structure HoistFacts (sites : List NodeIndex) (yields settled : Bool) (s : Setup V) (quiet : Bool)
    (residual : List NodeIndex) : Prop where
  done_iff : s = .done ↔ yields = false
  yields_of_trace : ∀ ω, s.trace ω = [] → yields = false
  quiet_eq : quiet = settled
  writes : s.Writes (Owned sites)
  setup_sites : ∀ ω, s.trace ω ⊆ sites
  residual_sites : residual ⊆ sites

theorem HoistFacts.cons {sites sites' : List NodeIndex} {yields yields' settled settled' : Bool}
    {s s' : Setup V} {quiet quiet' : Bool} {r r' : List NodeIndex}
    (h : HoistFacts sites yields settled s quiet r)
    (h' : HoistFacts sites' yields' settled' s' quiet' r') :
    HoistFacts (sites ++ sites') (yields || yields') (settled && settled') (s ++ s')
      (quiet && quiet') (r ++ r') where
  done_iff := by rw [append_eq_done_iff, h.done_iff, h'.done_iff, Bool.or_eq_false_iff]
  yields_of_trace := by
    intro ω hω
    rw [trace_append, List.append_eq_nil_iff] at hω
    rw [h.yields_of_trace ω hω.1, h'.yields_of_trace ω hω.2, Bool.or_false]
  quiet_eq := by rw [h.quiet_eq, h'.quiet_eq]
  writes := writes_append (h.writes.mono (Owned.mono (List.subset_append_left _ _)))
    (h'.writes.mono (Owned.mono (List.subset_append_right _ _)))
  setup_sites := by
    intro ω
    rw [trace_append]
    grind [h.setup_sites ω, h'.setup_sites ω]
  residual_sites := by grind [h.residual_sites, h'.residual_sites]

mutual

theorem hoist_facts : ∀ e : Core V, HoistFacts e.sites e.containsYield e.settled
    e.hoistIfContainsYield.setup e.hoistIfContainsYield.residual.quiet
    e.hoistIfContainsYield.residual.trace
  | .literal _ | .temp _ =>
    ⟨by simp [Core.hoistIfContainsYield, Core.makeEvalOrderExplicit, Hoisted.intoTemp,
      Core.containsYield], fun _ _ => rfl, rfl, trivial, fun _ => List.nil_subset _,
      List.nil_subset _⟩
  | .load n id =>
    ⟨by simp [Core.hoistIfContainsYield, Core.makeEvalOrderExplicit, Hoisted.intoTemp,
      Core.containsYield], fun _ _ => rfl, rfl, trivial, fun _ => List.nil_subset _,
      List.Subset.refl _⟩
  | .operation n op args => by
    have hargs := hoistEach_facts args
    have hsub := List.subset_cons_self n args.sites
    rw [Core.hoistIfContainsYield, Core.makeEvalOrderExplicit]
    cases hop : op.suspends with
    | true =>
      -- The operation is stored by itself, after the setup of its operands.
      rw [intoTemp_of_containsYield (by rw [Core.containsYield, hop]; rfl)]
      refine ⟨?_, ?_, ?_, ?_, ?_, List.nil_subset _⟩
      · rw [append_eq_done_iff, Core.containsYield, hop]
        simp
      · have hsilent : op.silent = false := by cases op <;> first | rfl | cases hop
        intro ω hω
        simp [trace_append, Setup.trace, Core.trace, hsilent] at hω
      · rw [Core.settled, hop]
        rfl
      · exact writes_append (hargs.writes.mono (Owned.mono hsub)) ⟨List.mem_cons_self, trivial⟩
      · intro ω
        simp only [trace_append, Setup.trace, Core.trace, Core.sites]
        grind [hargs.setup_sites ω, hargs.residual_sites]
    | false =>
      rw [intoTemp_of_not_containsYield
        (by rw [Core.containsYield, hop, containsYield_hoistEach]; rfl)]
      refine ⟨?_, ?_, ?_, hargs.writes.mono (Owned.mono hsub), ?_, ?_⟩
      · rw [hargs.done_iff, Core.containsYield, hop, Bool.false_or]
      · intro ω hω
        rw [Core.containsYield, hop, Bool.false_or]
        exact hargs.yields_of_trace ω hω
      · rw [Core.quiet, Core.settled, hop, hargs.quiet_eq, Bool.false_or]
      · exact fun ω => List.Subset.trans (hargs.setup_sites ω) hsub
      · rw [Core.trace, Core.sites]
        grind [hargs.residual_sites]

theorem hoistEach_facts : ∀ es : Cores V, HoistFacts es.sites es.containsYield es.settled
    es.hoistEach.setup es.hoistEach.residual.quiet es.hoistEach.residual.trace
  | .nil => ⟨by simp [Cores.hoistEach, Cores.containsYield], fun _ _ => rfl, rfl, trivial,
      fun _ => List.nil_subset _, List.nil_subset _⟩
  | .cons e es => (hoist_facts e).cons (hoistEach_facts es)

end

theorem writes_makeEvalOrderExplicit (e : Core V) :
    e.makeEvalOrderExplicit.setup.Writes (Owned e.sites) := by
  cases e with
  | operation n op args =>
    exact (hoistEach_facts args).writes.mono (Owned.mono (List.subset_cons_self n args.sites))
  | _ => trivial

mutual

theorem makeEvalOrderExplicit_of_not_containsYield : ∀ {e : Core V}, e.containsYield = false →
    e.makeEvalOrderExplicit = ⟨.done, [], e⟩
  | .literal _, _ | .load _ _, _ | .temp _, _ => rfl
  | .operation n op args, h => by
    rw [Core.containsYield, Bool.or_eq_false_iff] at h
    rw [Core.makeEvalOrderExplicit, hoistEach_of_not_containsYield h.2]

theorem hoistEach_of_not_containsYield : ∀ {es : Cores V}, es.containsYield = false →
    es.hoistEach = ⟨.done, [], es⟩
  | .nil, _ => rfl
  | .cons e es, h => by
    rw [Cores.containsYield, Bool.or_eq_false_iff] at h
    rw [Cores.hoistEach, hoistEach_of_not_containsYield h.2,
      makeEvalOrderExplicit_of_not_containsYield h.1, intoTemp_of_not_containsYield h.1]
    rfl

end

mutual

/-- The residual reads setup names of its own nodes only. -/
theorem hoist_reads : ∀ {e : Core V}, (e.Reads fun _ => False) →
    e.hoistIfContainsYield.residual.Reads (Owned e.sites)
  | .literal _, _ | .load _ _, _ => trivial
  | .temp _, h => h.elim
  | .operation n op args, h => by
    rw [Core.hoistIfContainsYield, Core.makeEvalOrderExplicit]
    cases hyield : (Core.operation n op args.hoistEach.residual).containsYield with
    | true =>
      rw [intoTemp_of_containsYield hyield]
      exact List.mem_cons_self
    | false =>
      rw [intoTemp_of_not_containsYield hyield]
      exact (hoistEach_reads h).mono (Owned.mono (List.subset_cons_self n args.sites))

theorem hoistEach_reads : ∀ {es : Cores V}, (es.Reads fun _ => False) →
    es.hoistEach.residual.Reads (Owned es.sites)
  | .nil, _ => trivial
  | .cons _ _, h => ⟨(hoist_reads h.1).mono (Owned.mono (List.subset_append_left _ _)),
      (hoistEach_reads h.2).mono (Owned.mono (List.subset_append_right _ _))⟩

end

/-! ## Orderly operands keep their order -/

section Realizes

variable (w : World V E) (σ₀ : Temps V)

theorem realizes_intoTemp {h : Hoisted V (Core V)} {n : NodeIndex} {m : Run V E V}
    {P : Temp → Prop} (hs : h.setup.Writes P)
    (hm : Realizes w h.setup (fun σ => h.residual.eval w σ) m) :
    Realizes w (h.intoTemp n).setup (fun σ => (h.intoTemp n).residual.eval w σ) m := by
  cases hyield : h.residual.containsYield with
  | true =>
    rw [intoTemp_of_containsYield hyield]
    exact realizes_assign (.eval n) hm hs
  | false =>
    rw [intoTemp_of_not_containsYield hyield]
    exact hm

mutual

theorem makeEvalOrderExplicit_realizes : ∀ e : Core V, e.sites.Nodup →
    (e.Reads fun _ => False) → e.Orderly →
    Realizes w e.makeEvalOrderExplicit.setup
      (fun σ => e.makeEvalOrderExplicit.residual.eval w σ) (e.eval w σ₀)
  | .literal _, _, _, _ => realizes_done fun _ => rfl
  | .load _ _, _, _, _ => realizes_done fun _ => rfl
  | .temp _, _, h, _ => h.elim
  | .operation n op args, hnodup, hreads, h =>
    realizes_operation (hoistEach_realizes args hnodup.of_cons hreads h) n op

theorem hoistEach_realizes : ∀ es : Cores V, es.sites.Nodup →
    (es.Reads fun _ => False) → es.Orderly →
    Realizes w es.hoistEach.setup (fun σ => es.hoistEach.residual.eval w σ) (es.eval w σ₀)
  | .nil, _, _, _ => realizes_done fun _ => rfl
  | .cons e es, hnodup, hreads, h => by
    have hparts := List.nodup_append.mp hnodup
    have hhead := hoist_facts e
    have htail := hoistEach_facts es
    have hmake := makeEvalOrderExplicit_realizes e hparts.1 hreads.1 h.1
    have hrun := realizes_intoTemp w (n := e.node) (writes_makeEvalOrderExplicit e) hmake
    refine realizes_cons hrun (hoistEach_realizes es hparts.2.1 hreads.2 h.2.1)
      (hoist_reads hreads.1) (htail.writes.mono (owned_of_append hnodup)) ?_
    rw [htail.done_iff]
    exact h.2.2.imp_right fun hsettled => hhead.quiet_eq.trans hsettled

end

end Realizes

/-! ## Only orderly operands keep their order -/

mutual

theorem Core.trace_subset : ∀ e : Core V, e.trace ⊆ e.sites
  | .literal _ | .temp _ => List.nil_subset _
  | .load _ _ => List.Subset.refl _
  | .operation n op args => by
    have hargs := Cores.trace_subset args
    rw [Core.trace, Core.sites]
    grind

theorem Cores.trace_subset : ∀ es : Cores V, es.trace ⊆ es.sites
  | .nil => List.nil_subset _
  | .cons e es => by
    have he := Core.trace_subset e
    have hes := Cores.trace_subset es
    rw [Cores.trace, Cores.sites]
    grind

end

mutual

theorem orderly_of_hoist_trace (ω : NodeIndex → Bool) : ∀ e : Core V, e.sites.Nodup →
    e.makeEvalOrderExplicit.setup.trace ω ++ e.makeEvalOrderExplicit.residual.trace = e.trace →
    e.Orderly
  | .literal _, _, _ | .load _ _, _, _ | .temp _, _, _ => trivial
  | .operation n op args, hnodup, h => by
    refine orderlyAll_of_hoist_trace ω args hnodup.of_cons ?_
    rw [Core.makeEvalOrderExplicit, Core.trace, Core.trace, ← List.append_assoc] at h
    exact List.append_cancel_right h

theorem orderlyAll_of_hoist_trace (ω : NodeIndex → Bool) : ∀ es : Cores V, es.sites.Nodup →
    es.hoistEach.setup.trace ω ++ es.hoistEach.residual.trace = es.trace → es.Orderly
  | .nil, _, _ => trivial
  | .cons e es, hnodup, h => by
    have hparts := List.nodup_append.mp hnodup
    have hhead := hoist_facts e
    have htail := hoistEach_facts es
    rw [Cores.hoistEach, trace_append, Cores.trace, Cores.trace] at h
    obtain ⟨h₁, h₂, hnil⟩ := split_interleaved (notMem_left_of_nodup hnodup)
      (hhead.setup_sites ω) hhead.residual_sites (Core.trace_subset e) (htail.setup_sites ω)
      htail.residual_sites (Cores.trace_subset es) h
    rw [Core.hoistIfContainsYield, trace_intoTemp] at h₁
    refine ⟨orderly_of_hoist_trace ω e hparts.1 h₁,
      orderlyAll_of_hoist_trace ω es hparts.2.1 h₂, ?_⟩
    refine hnil.imp (htail.yields_of_trace ω) fun hr => ?_
    rw [← hhead.quiet_eq]
    exact (trace_eq_nil_iff _).mp hr

end

/-! ## Blocks -/

section Blocks

variable {w : World V E} {α : Type}

theorem exec_appendStmtCleanup (cleanup : List Temp) (next : Setup V) (σ : Temps V) :
    ∃ σ', (appendStmtCleanup cleanup next).exec w σ = next.exec w σ' := by
  unfold appendStmtCleanup
  induction cleanup.reverse generalizing σ with
  | nil => exact ⟨σ, rfl⟩
  | cons t ts ih => exact ih _

theorem trace_appendStmtCleanup (ω : NodeIndex → Bool) (cleanup : List Temp) (next : Setup V) :
    (appendStmtCleanup cleanup next).trace ω = next.trace ω := by
  unfold appendStmtCleanup
  induction cleanup.reverse with
  | nil => rfl
  | cons t ts ih => exact ih

/-- Checking for a suspension first makes no difference: the pass leaves other expressions alone. -/
theorem explicitInstr_eq (e : Core V) (next : Setup V) :
    e.explicitInstr next = e.makeEvalOrderExplicit.setup ++ .instr e.makeEvalOrderExplicit.residual
      (appendStmtCleanup e.makeEvalOrderExplicit.cleanup next) := by
  rw [Core.explicitInstr]
  split
  · rfl
  · rename_i hyield
    rw [makeEvalOrderExplicit_of_not_containsYield (Bool.not_eq_true _ ▸ hyield)]
    rfl

/-- One instruction in front of what follows it. -/
theorem exec_explicitInstr {e : Core V} {next : Setup V} {f : Temps V → Run V E α} {m : Run V E α}
    (hnodup : e.sites.Nodup) (hreads : e.Reads fun _ => False) (h : e.Orderly)
    (hnext : ∀ σ, next.exec w σ >>= f = m) (σ σ₀ : Temps V) :
    (e.explicitInstr next).exec w σ >>= f = e.eval w σ₀ >>= fun _ => m := by
  have hrun := makeEvalOrderExplicit_realizes w σ₀ e hnodup hreads h
  rw [explicitInstr_eq, exec_append, bind_assoc, ← hrun σ, bind_assoc]
  refine bind_congr fun σ' => ?_
  rw [Setup.exec, bind_assoc]
  refine bind_congr fun _ => ?_
  obtain ⟨σ'', hσ''⟩ := exec_appendStmtCleanup (w := w) e.makeEvalOrderExplicit.cleanup next σ'
  rw [hσ'', hnext]

theorem trace_explicitInstr (ω : NodeIndex → Bool) (e : Core V) (next : Setup V) :
    (e.explicitInstr next).trace ω =
      (e.makeEvalOrderExplicit.setup.trace ω ++ e.makeEvalOrderExplicit.residual.trace) ++
        next.trace ω := by
  rw [explicitInstr_eq, trace_append, Setup.trace, trace_appendStmtCleanup, List.append_assoc]

/-- The operand of a terminator, after its setup. -/
theorem Term.makeEvalOrderExplicit_realizes (σ₀ : Temps V) (t : Term V)
    (h : ∀ e, t.operand = some e → e.sites.Nodup ∧ (e.Reads fun _ => False) ∧ e.Orderly) :
    Realizes w t.makeEvalOrderExplicit.1 (fun σ => t.makeEvalOrderExplicit.2.eval w σ)
      (t.eval w σ₀) := by
  have hoperand : ∀ e, t.operand = some e →
      Realizes w e.hoistIfContainsYield.setup
        (fun σ => e.hoistIfContainsYield.residual.eval w σ >>= fun v => pure (some v))
        (e.eval w σ₀ >>= fun v => pure (some v)) := by
    intro e he σ
    obtain ⟨hnodup, hreads, horderly⟩ := h e he
    have hrun := realizes_intoTemp w (n := e.node) (writes_makeEvalOrderExplicit e)
      (DietPython.Expressions.makeEvalOrderExplicit_realizes w σ₀ e hnodup hreads horderly)
    rw [← hrun σ, bind_assoc]
    rfl
  rcases t with target | ⟨test, thenLabel, elseLabel⟩ | ⟨index, targets, defaultLabel⟩ |
    ⟨_ | exc⟩ | value
  · exact realizes_done fun _ => rfl
  · exact hoperand test rfl
  · exact hoperand index rfl
  · exact realizes_done fun _ => rfl
  · exact hoperand exc rfl
  · exact hoperand value rfl

theorem Block.makeEvalOrderExplicit_run (σ σ₀ : Temps V) {body : List (Core V)} {t : Term V}
    (hnodup : (body.flatMap Core.sites ++ t.sites).Nodup)
    (hreads : ∀ e, e ∈ body ∨ t.operand = some e → e.Reads fun _ => False)
    (h : (⟨body, t⟩ : Block V).Orderly) :
    (⟨body, t⟩ : Block V).makeEvalOrderExplicit.run w σ = (⟨body, t⟩ : Block V).run w σ₀ := by
  induction body generalizing σ σ₀ with
  | nil =>
    have hterm := Term.makeEvalOrderExplicit_realizes (w := w) σ₀ t fun e he =>
      ⟨by simpa [Term.sites, he] using hnodup, hreads e (.inr he), h.2 e he⟩
    rw [Block.run, List.foldr_nil, Setup.exec, pure_bind]
    exact hterm σ
  | cons e body ih =>
    rw [List.flatMap_cons, List.append_assoc] at hnodup
    have hparts := List.nodup_append.mp hnodup
    have hrest := fun σ => ih σ σ₀ hparts.2.1 (fun e' he' => hreads e' (he'.imp_left
      (List.mem_cons_of_mem e))) ⟨fun e' he' => h.1 e' (List.mem_cons_of_mem e he'), h.2⟩
    rw [Block.run, List.foldr_cons, Setup.exec, bind_assoc]
    exact exec_explicitInstr hparts.1 (hreads e (.inl List.mem_cons_self))
      (h.1 e List.mem_cons_self) hrest σ σ₀

end Blocks

section BlockTraces

variable (ω : NodeIndex → Bool)

def Term.trace (t : Term V) : List NodeIndex := (t.operand.map Core.trace).getD []

theorem traces_term [Inhabited V] (σ : Temps V) (t : Term V) :
    Traces Event.site (t.eval (guided E ω) σ) t.trace := by
  unfold Term.eval Term.trace
  cases t.operand with
  | none => exact traces_pure _ _
  | some e =>
    have hpure : ∀ v : V, Traces Event.site (pure (some v) : Run V E (Option V)) [] :=
      fun v => traces_pure Event.site (some v)
    have htrace := (traces_eval ω σ e).bind hpure
    rwa [List.append_nil] at htrace

theorem Block.traces_run [Inhabited V] (σ : Temps V) (b : Block V) :
    Traces Event.site (b.run (guided E ω) σ) (b.body.flatMap Core.trace ++ b.term.trace) := by
  have hbody : (b.body.foldr Setup.instr .done).trace ω = b.body.flatMap Core.trace := by
    induction b.body with
    | nil => rfl
    | cons e body ih => rw [List.foldr_cons, Setup.trace, ih, List.flatMap_cons]
  have hexec := traces_exec (E := E) ω σ (b.body.foldr Setup.instr .done)
  rw [hbody] at hexec
  exact hexec.bind fun σ' => traces_term ω σ' b.term

theorem ExplicitBlock.traces_run [Inhabited V] (σ : Temps V) (b : ExplicitBlock V) :
    Traces Event.site (b.run (guided E ω) σ) (b.body.trace ω ++ b.term.trace) :=
  (traces_exec ω σ b.body).bind fun σ' => traces_term ω σ' b.term

theorem Term.orderly_of_trace {t : Term V} (hnodup : t.sites.Nodup)
    (h : t.makeEvalOrderExplicit.1.trace ω ++ t.makeEvalOrderExplicit.2.trace = t.trace) :
    ∀ e, t.operand = some e → e.Orderly := by
  have hoperand : ∀ e : Core V, e.sites.Nodup →
      e.hoistIfContainsYield.setup.trace ω ++ e.hoistIfContainsYield.residual.trace = e.trace →
      e.Orderly := by
    intro e he htrace
    rw [Core.hoistIfContainsYield, trace_intoTemp] at htrace
    exact orderly_of_hoist_trace ω e he htrace
  rcases t with target | ⟨test, thenLabel, elseLabel⟩ | ⟨index, targets, defaultLabel⟩ |
    ⟨_ | exc⟩ | value <;> rintro e ⟨⟩ <;> exact hoperand _ hnodup h

theorem Core.trace_makeEvalOrderExplicit_subset (e : Core V) :
    e.makeEvalOrderExplicit.setup.trace ω ++ e.makeEvalOrderExplicit.residual.trace ⊆ e.sites := by
  have hfacts := hoist_facts e
  rw [← trace_intoTemp (n := e.node)]
  exact List.append_subset.mpr ⟨hfacts.setup_sites ω, hfacts.residual_sites⟩

theorem Term.trace_makeEvalOrderExplicit_subset (t : Term V) :
    t.makeEvalOrderExplicit.1.trace ω ++ t.makeEvalOrderExplicit.2.trace ⊆ t.sites := by
  have hoperand : ∀ e : Core V, e.hoistIfContainsYield.setup.trace ω ++
      e.hoistIfContainsYield.residual.trace ⊆ e.sites := fun e =>
    List.append_subset.mpr ⟨(hoist_facts e).setup_sites ω, (hoist_facts e).residual_sites⟩
  rcases t with target | ⟨test, thenLabel, elseLabel⟩ | ⟨index, targets, defaultLabel⟩ |
    ⟨_ | exc⟩ | value
  · exact List.nil_subset _
  · exact hoperand test
  · exact hoperand index
  · exact List.nil_subset _
  · exact hoperand exc
  · exact hoperand value

theorem Block.trace_makeEvalOrderExplicit_subset (body : List (Core V)) (t : Term V) :
    (⟨body, t⟩ : Block V).makeEvalOrderExplicit.body.trace ω ++ t.makeEvalOrderExplicit.2.trace ⊆
      body.flatMap Core.sites ++ t.sites := by
  induction body with
  | nil => exact Term.trace_makeEvalOrderExplicit_subset ω t
  | cons e body ih =>
    have hhead := e.trace_makeEvalOrderExplicit_subset ω
    have hshape : (⟨e :: body, t⟩ : Block V).makeEvalOrderExplicit.body.trace ω = _ :=
      trace_explicitInstr ω e (⟨body, t⟩ : Block V).makeEvalOrderExplicit.body
    rw [hshape, List.flatMap_cons, List.append_assoc, List.append_assoc]
    grind

omit ω in
theorem Block.trace_subset (body : List (Core V)) (t : Term V) :
    body.flatMap Core.trace ++ t.trace ⊆ body.flatMap Core.sites ++ t.sites := by
  have hterm : t.trace ⊆ t.sites := by
    unfold Term.trace Term.sites
    cases t.operand with
    | none => exact List.nil_subset _
    | some e => exact Core.trace_subset e
  induction body with
  | nil => exact hterm
  | cons e body ih =>
    rw [List.flatMap_cons, List.flatMap_cons, List.append_assoc, List.append_assoc]
    have hhead := Core.trace_subset e
    grind

theorem Block.orderly_of_trace {body : List (Core V)} {t : Term V}
    (hnodup : (body.flatMap Core.sites ++ t.sites).Nodup)
    (h : (⟨body, t⟩ : Block V).makeEvalOrderExplicit.body.trace ω ++
        t.makeEvalOrderExplicit.2.trace = body.flatMap Core.trace ++ t.trace) :
    (⟨body, t⟩ : Block V).Orderly := by
  induction body with
  | nil => exact ⟨by simp, Term.orderly_of_trace ω (by simpa using hnodup) h⟩
  | cons e body ih =>
    rw [List.flatMap_cons, List.append_assoc] at hnodup h
    have hparts := List.nodup_append.mp hnodup
    have hshape : (⟨e :: body, t⟩ : Block V).makeEvalOrderExplicit.body.trace ω =
        (e.makeEvalOrderExplicit.setup.trace ω ++ e.makeEvalOrderExplicit.residual.trace) ++
          (⟨body, t⟩ : Block V).makeEvalOrderExplicit.body.trace ω :=
      trace_explicitInstr ω e _
    rw [hshape, List.append_assoc] at h
    obtain ⟨hhead, htail⟩ := split_sites (notMem_left_of_nodup hnodup)
      (e.trace_makeEvalOrderExplicit_subset ω) (Core.trace_subset e)
      (Block.trace_makeEvalOrderExplicit_subset ω body t) (Block.trace_subset body t) h
    have hrest := ih hparts.2.1 htail
    refine ⟨fun e' he' => ?_, hrest.2⟩
    rcases List.mem_cons.mp he' with rfl | he'
    · exact orderly_of_hoist_trace ω e' hparts.1 hhead
    · exact hrest.1 e' he'

end BlockTraces

/-- The pass keeps the order of all loads, operations and suspensions of a block, in every world,
exactly for orderly blocks. -/
theorem makeEvalOrderExplicit_run_eq_iff [Inhabited V] (b : SourceBlock V) :
    (∀ (w : World V E) (σ : Temps V),
      b.block.makeEvalOrderExplicit.run w σ = b.block.run w σ) ↔ b.block.Orderly := by
  constructor
  · intro h
    refine Block.orderly_of_trace (fun _ => true) b.nodup ?_
    exact Traces.eq_of_eq (ExplicitBlock.traces_run (E := E) _ (fun _ => default) _)
      (Block.traces_run _ (fun _ => default) b.block) (h _ _)
  · exact fun h w σ => Block.makeEvalOrderExplicit_run σ σ b.nodup b.named h

/-- The block of the expression statement `f((yield))`. -/
def callWithYield : SourceBlock Nat where
  block :=
    { body := [.operation 0 (.call [none]) (.cons (.load 1 "f")
        (.cons (.operation 2 .yield (.cons (.literal 0) .nil)) .nil))]
      term := .jump 1 }
  nodup := by decide
  named := by
    rintro e (he | he)
    · obtain rfl := List.mem_singleton.mp he
      exact ⟨trivial, ⟨trivial, trivial⟩, trivial⟩
    · cases he

/-- The lowered block of `f((yield))` reads `f` after the suspension. -/
theorem callWithYield_reordered :
    ¬ ∀ (w : World Nat Unit) (σ : Temps Nat),
      callWithYield.block.makeEvalOrderExplicit.run w σ = callWithYield.block.run w σ := by
  intro h
  have hnodes := congrArg (fun m => ((m.run []).2.map Event.site))
    (h (guided Unit fun _ => true) fun _ => 0)
  revert hnodes
  decide

end DietPython.Expressions
