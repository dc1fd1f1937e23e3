import DietPython.ControlFlow.Freshness

/-!
# The blocks of a graph in the end

A block is pushed once and then rewritten by the passes of the regions around it, innermost
first. What a list of passes leaves of a block: its label and exception edge, its operations
unless it returns, the exception parameter of the outermost region, and the two parameters of a
`finally` entry.
-/

namespace DietPython.ControlFlow

open Blocks (BlockParamRole)

variable {E T : Type}

/-- Make all passes on a block, innermost region first. -/
def applyAll (passes : List Pass) (b : Block E T) : Block E T :=
  passes.foldl (fun b p => p.apply b) b

@[simp] theorem applyAll_nil (b : Block E T) : applyAll [] b = b := rfl

@[simp] theorem applyAll_cons (p : Pass) (passes : List Pass) (b : Block E T) :
    applyAll (p :: passes) b = applyAll passes (p.apply b) := rfl

@[simp] theorem applyAll_label (passes : List Pass) (b : Block E T) :
    (applyAll passes b).label = b.label := by
  induction passes generalizing b with
  | nil => rfl
  | cons p passes ih => rw [applyAll_cons, ih, Pass.apply_label]

/-! ## Exception parameters -/

/-- The name that the passes leave as the exception parameter. -/
def Pass.excAfter : Pass → Option Name → Option Name
  | regionExcParam x, _ => some x
  | _, o => o

def excOf (passes : List Pass) (o : Option Name) : Option Name :=
  passes.foldl (fun o p => p.excAfter o) o

@[simp] theorem excOf_nil (o : Option Name) : excOf [] o = o := rfl

@[simp] theorem excOf_cons (p : Pass) (passes : List Pass) (o : Option Name) :
    excOf (p :: passes) o = excOf passes (p.excAfter o) := rfl

theorem excOf_append (ps qs : List Pass) (o : Option Name) :
    excOf (ps ++ qs) o = excOf qs (excOf ps o) := List.foldl_append

/-- The outermost region decides; the first name counts only when no region surrounds it. -/
theorem excOf_eq (passes : List Pass) (o : Option Name) :
    excOf passes o = (excOf passes none).or o := by
  induction passes generalizing o with
  | nil => simp
  | cons p passes ih =>
    rw [excOf_cons, excOf_cons, ih, ih (p.excAfter none)]
    cases p with
    | regionExcParam x =>
      show (excOf passes none).or (some x) = ((excOf passes none).or (some x)).or o
      rw [Option.or_assoc, Option.some_or]
    | _ => simp [Pass.excAfter]

/-- What a region around has decided stays decided. -/
theorem excOf_of_outer {outer : List Pass} {x : Name} (h : excOf outer none = some x)
    (o : Option Name) : excOf outer o = some x := by
  rw [excOf_eq, h, Option.some_or]

theorem exceptionParam_ensureParam (b : Block E T) (x : Name) {role : BlockParamRole}
    (h : role ≠ .exception) : (b.ensureParam x role).exceptionParam = b.exceptionParam := by
  unfold Block.ensureParam
  split
  · rfl
  · simp [Block.exceptionParam, List.find?_append, h]

theorem exceptionParam_setExceptionParam (b : Block E T) (x : Name) :
    (b.setExceptionParam x).exceptionParam = some x := by
  unfold Block.setExceptionParam
  extract_lets kept
  -- a parameter that is kept as an exception has the name `x`
  have hkept : ∀ p ∈ kept, p.role = .exception → p.name = x := fun p hp hrole => by
    have := (List.mem_filter.mp hp).2
    simpa [hrole] using this
  unfold Block.exceptionParam
  split
  · next hany =>
    obtain ⟨q, hq, hname⟩ := List.any_eq_true.mp hany
    have hfound : ((kept.map fun p => if p.name = x then ⟨x, .exception⟩ else p).find?
        fun p : BlockParam => p.role == .exception).isSome := by
      rw [List.find?_isSome]
      exact ⟨⟨x, .exception⟩, List.mem_map.mpr ⟨q, hq, if_pos (beq_iff_eq.mp hname)⟩, rfl⟩
    obtain ⟨p, hp⟩ := Option.isSome_iff_exists.mp hfound
    rw [hp, Option.map_some]
    obtain ⟨r, hr, rfl⟩ := List.mem_map.mp (List.mem_of_find?_eq_some hp)
    have hrole := List.find?_some hp
    split at hrole
    · next h => simp [h]
    · next h => exact absurd (hkept r hr (beq_iff_eq.mp hrole)) h
  · next hany =>
    have hnone : kept.find? (fun p : BlockParam => p.role == .exception) = none := by
      rw [List.find?_eq_none]
      intro p hp hrole
      exact hany (List.any_eq_true.mpr
        ⟨p, hp, beq_iff_eq.mpr (hkept p hp (beq_iff_eq.mp hrole))⟩)
    rw [List.find?_append, hnone]
    rfl

@[simp] theorem renameExceptionEdgeArgs_params (b : Block E T) (old new : Name) :
    (renameExceptionEdgeArgs b old new).params = b.params := by
  unfold renameExceptionEdgeArgs
  split <;> rfl

theorem exceptionParam_congr {b c : Block E T} (h : b.params = c.params) :
    b.exceptionParam = c.exceptionParam := by
  unfold Block.exceptionParam
  rw [h]

theorem setRegionExcParam_params (x : Name) (b : Block E T) :
    (setRegionExcParam x b).params = (b.setExceptionParam x).params := by
  unfold setRegionExcParam
  split
  · rfl
  · split <;> simp

theorem rewriteReturnToFinally_params (finallyTarget : ℕ) (payload : Name) (b : Block E T) :
    (rewriteReturnToFinally finallyTarget payload b).params = b.params := by
  unfold rewriteReturnToFinally
  split <;> rfl

theorem Pass.apply_exceptionParam (p : Pass) (b : Block E T) :
    (p.apply b).exceptionParam = p.excAfter b.exceptionParam := by
  cases p with
  | returnsToFinally finallyTarget payload =>
    exact exceptionParam_congr (rewriteReturnToFinally_params finallyTarget payload b)
  | finallyParams finallyLabel kind payload =>
    show (addFinallyParams finallyLabel kind payload b).exceptionParam = b.exceptionParam
    unfold addFinallyParams
    split
    · rw [exceptionParam_ensureParam _ _ (by decide), exceptionParam_ensureParam _ _ (by decide)]
    · rfl
  | regionExcParam x =>
    exact (exceptionParam_congr (setRegionExcParam_params x b)).trans
      (exceptionParam_setExceptionParam b x)

theorem applyAll_exceptionParam (passes : List Pass) (b : Block E T) :
    (applyAll passes b).exceptionParam = excOf passes b.exceptionParam := by
  induction passes generalizing b with
  | nil => rfl
  | cons p passes ih => rw [applyAll_cons, ih, Pass.apply_exceptionParam, excOf_cons]

theorem hasParam_of_exceptionParam {b : Block E T} {x : Name} (h : b.exceptionParam = some x) :
    b.hasParam x = true := by
  unfold Block.exceptionParam at h
  rw [Option.map_eq_some_iff] at h
  obtain ⟨p, hp, rfl⟩ := h
  exact List.any_eq_true.mpr ⟨p, List.mem_of_find?_eq_some hp, beq_self_eq_true _⟩

/-! ## Parameter lists -/

/-- The parameter list of a block with nothing but an exception parameter. -/
def excParams : Option Name → List BlockParam
  | none => []
  | some x => [⟨x, .exception⟩]

/-- The labels whose blocks the passes give the parameters of a `finally` entry. -/
def marks : List Pass → List ℕ
  | [] => []
  | .finallyParams label _ _ :: passes => label :: marks passes
  | _ :: passes => marks passes

/-- A pass as the lowering makes it: each name has the prefix of its role. -/
def Pass.WellNamed : Pass → Prop
  | returnsToFinally _ payload => ∃ n, payload = .tryAbruptPayload n
  | finallyParams _ kind payload =>
    (∃ n, kind = .tryAbruptKind n) ∧ ∃ n, payload = .tryAbruptPayload n
  | regionExcParam x => ∃ n, x = .tryExc n

/-- Parameters that no exception pass touches. -/
def Abrupt (pre : List BlockParam) : Prop :=
  ∀ q ∈ pre, q.role ≠ .exception ∧ ∀ n, q.name ≠ .tryExc n

theorem abrupt_nil : Abrupt [] := fun q hq => by cases hq

theorem setExceptionParam_params {b : Block E T} {pre : List BlockParam} {o : Option Name}
    (hpre : Abrupt pre) (n : ℕ) (hb : b.params = pre ++ excParams o) :
    (b.setExceptionParam (.tryExc n)).params = pre ++ excParams (some (.tryExc n)) := by
  have hfilter : pre.filter (fun p => p.role != .exception || p.name == .tryExc n) = pre :=
    List.filter_eq_self.mpr fun q hq => by simp [(hpre q hq).1]
  have hany : (pre.any fun p => p.name == .tryExc n) = false :=
    List.any_eq_false.mpr fun q hq => by simp [(hpre q hq).2 n]
  have hmap : pre.map (fun p => if p.name = .tryExc n then ⟨.tryExc n, .exception⟩ else p) = pre :=
    (List.map_congr_left fun q hq => if_neg ((hpre q hq).2 n)).trans (List.map_id pre)
  unfold Block.setExceptionParam
  simp only [hb, List.filter_append, hfilter, List.any_append, hany, Bool.false_or]
  cases o with
  | none => simp [excParams]
  | some y =>
    by_cases hy : y = .tryExc n
    · simp [excParams, hmap, hy]
    · simp [excParams, hy]

theorem Pass.apply_params {p : Pass} {b : Block E T} {pre : List BlockParam} {o : Option Name}
    (hw : p.WellNamed) (hpre : Abrupt pre) (hm : b.label ∉ marks [p])
    (hb : b.params = pre ++ excParams o) :
    (p.apply b).params = pre ++ excParams (p.excAfter o) := by
  cases p with
  | returnsToFinally finallyTarget payload =>
    exact (rewriteReturnToFinally_params finallyTarget payload b).trans hb
  | finallyParams finallyLabel kind payload =>
    show (addFinallyParams finallyLabel kind payload b).params = _
    unfold addFinallyParams
    rw [if_neg (by simpa [marks] using hm)]
    exact hb
  | regionExcParam x =>
    obtain ⟨n, rfl⟩ := hw
    exact (setRegionExcParam_params _ b).trans (setExceptionParam_params hpre n hb)

theorem marks_cons (p : Pass) (passes : List Pass) :
    marks (p :: passes) = marks [p] ++ marks passes := by
  cases p <;> rfl

theorem applyAll_params {passes : List Pass} {b : Block E T} {pre : List BlockParam}
    {o : Option Name} (hw : ∀ p ∈ passes, p.WellNamed) (hpre : Abrupt pre)
    (hm : b.label ∉ marks passes) (hb : b.params = pre ++ excParams o) :
    (applyAll passes b).params = pre ++ excParams (excOf passes o) := by
  induction passes generalizing b o with
  | nil => exact hb
  | cons p passes ih =>
    rw [marks_cons, List.mem_append, not_or] at hm
    rw [applyAll_cons, excOf_cons]
    exact ih (fun q hq => hw q (List.mem_cons_of_mem p hq)) (by rw [Pass.apply_label]; exact hm.2)
      (Pass.apply_params (hw p List.mem_cons_self) hpre hm.1 hb)

/-- A block has at most one exception parameter, and it is the one with the prefix of such. -/
structure Block.Tidy (b : Block E T) : Prop where
  role_of_name : ∀ p ∈ b.params, ∀ n, p.name = .tryExc n → p.role = .exception
  unique : ∀ p ∈ b.params, p.role = .exception → b.exceptionParam = some p.name

theorem Block.Tidy.of_params {b c : Block E T} (h : b.Tidy) (hp : c.params = b.params) :
    c.Tidy := by
  have hexc := exceptionParam_congr hp
  exact ⟨fun p hmem => h.role_of_name p (hp ▸ hmem), fun p hmem hrole =>
    hexc.trans (h.unique p (hp ▸ hmem) hrole)⟩

theorem tidy_of_nil {b : Block E T} (h : b.params = []) : b.Tidy :=
  ⟨fun p hp => (by rw [h] at hp; cases hp), fun p hp => (by rw [h] at hp; cases hp)⟩

theorem Block.Tidy.ensureParam {b : Block E T} (h : b.Tidy) {x : Name} {role : BlockParamRole}
    (hx : ∀ n, x ≠ .tryExc n) (hrole : role ≠ .exception) : (b.ensureParam x role).Tidy := by
  have hexc := exceptionParam_ensureParam b x hrole
  unfold Block.ensureParam at hexc ⊢
  split
  · exact h
  · next hfresh =>
    rw [if_neg hfresh] at hexc
    refine ⟨fun p hp n hn => ?_, fun p hp hp' => ?_⟩
    · rcases List.mem_append.mp hp with hp | hp
      · exact h.role_of_name p hp n hn
      · rw [List.mem_singleton.mp hp] at hn
        exact absurd hn (hx n)
    · rcases List.mem_append.mp hp with hp | hp
      · exact hexc.trans (h.unique p hp hp')
      · rw [List.mem_singleton.mp hp] at hp'
        exact absurd hp' hrole

theorem Block.Tidy.setExceptionParam {b : Block E T} (h : b.Tidy) (n : ℕ) :
    (b.setExceptionParam (.tryExc n)).Tidy := by
  have hexc := exceptionParam_setExceptionParam b (.tryExc n)
  -- a parameter that is kept under another name is of another role
  have hkept : ∀ p ∈ b.params.filter (fun p => p.role != .exception || p.name == .tryExc n),
      p.name ≠ .tryExc n → p.role ≠ .exception ∧ ∀ m, p.name ≠ .tryExc m := fun p hp hne => by
    obtain ⟨hmem, hp⟩ := List.mem_filter.mp hp
    have hrole : p.role ≠ .exception := fun hrole => by simp [hrole, hne] at hp
    exact ⟨hrole, fun m hm => hrole (h.role_of_name p hmem m hm)⟩
  have hall : ∀ p ∈ (b.setExceptionParam (.tryExc n)).params,
      p = ⟨.tryExc n, .exception⟩ ∨ (p.role ≠ .exception ∧ ∀ m, p.name ≠ .tryExc m) := by
    intro p hp
    unfold Block.setExceptionParam at hp
    simp only at hp
    split at hp
    · obtain ⟨q, hq, rfl⟩ := List.mem_map.mp hp
      split
      · exact .inl rfl
      · next hne => exact .inr (hkept q hq hne)
    · next hany =>
      rcases List.mem_append.mp hp with hp | hp
      · exact .inr (hkept p hp fun hname =>
          hany (List.any_eq_true.mpr ⟨p, hp, beq_iff_eq.mpr hname⟩))
      · exact .inl (List.mem_singleton.mp hp)
  refine ⟨fun p hp m hm => ?_, fun p hp hrole => ?_⟩
  · rcases hall p hp with rfl | ⟨-, hname⟩
    · rfl
    · exact absurd hm (hname m)
  · rcases hall p hp with rfl | ⟨hother, -⟩
    · exact hexc
    · exact absurd hrole hother

theorem Pass.apply_tidy {p : Pass} (hw : p.WellNamed) {b : Block E T} (h : b.Tidy) :
    (p.apply b).Tidy := by
  cases p with
  | returnsToFinally finallyTarget payload =>
    exact h.of_params (rewriteReturnToFinally_params finallyTarget payload b)
  | finallyParams finallyLabel kind payload =>
    obtain ⟨⟨i, rfl⟩, j, rfl⟩ := hw
    show (addFinallyParams finallyLabel _ _ b).Tidy
    unfold addFinallyParams
    split
    · exact (h.ensureParam (fun _ hx => by cases hx) (by decide)).ensureParam
        (fun _ hx => by cases hx) (by decide)
    · exact h
  | regionExcParam x =>
    obtain ⟨n, rfl⟩ := hw
    exact (h.setExceptionParam n).of_params (setRegionExcParam_params _ b)

theorem applyAll_tidy {passes : List Pass} (hw : ∀ p ∈ passes, p.WellNamed) {b : Block E T}
    (h : b.Tidy) : (applyAll passes b).Tidy := by
  induction passes generalizing b with
  | nil => exact h
  | cons p passes ih =>
    exact ih (fun q hq => hw q (List.mem_cons_of_mem p hq))
      (Pass.apply_tidy (hw p List.mem_cons_self) h)

/-! ## Operations and terminators -/

@[simp] theorem applyAll_excEdge (passes : List Pass) (b : Block E T) :
    (applyAll passes b).excEdge = b.excEdge := by
  induction passes generalizing b with
  | nil => rfl
  | cons p passes ih =>
    rw [applyAll_cons, ih]
    cases p with
    | returnsToFinally finallyTarget payload =>
      show (rewriteReturnToFinally finallyTarget payload b).excEdge = b.excEdge
      unfold rewriteReturnToFinally
      split <;> rfl
    | finallyParams finallyLabel kind payload =>
      show (addFinallyParams finallyLabel kind payload b).excEdge = b.excEdge
      unfold addFinallyParams Block.ensureParam
      repeat' split
      all_goals rfl
    | regionExcParam x =>
      show (setRegionExcParam x b).excEdge = b.excEdge
      unfold setRegionExcParam renameExceptionEdgeArgs Block.setExceptionParam
      repeat' split
      all_goals rfl

/-- The terminator is not a return, and no exception name stands in its arguments. -/
def Settled (term : BlockTerm E) : Prop :=
  match term with
  | .returnTerm _ => False
  | .jump edge => ∀ n, BlockArg.name (.tryExc n) ∉ edge.args
  | _ => True

/-- Names of exception parameters. -/
def ExcNamed (o : Option Name) : Prop := ∀ x, o = some x → ∃ n, x = .tryExc n

theorem excNamed_none : ExcNamed none := fun x h => by cases h

theorem ExcNamed.after {p : Pass} {o : Option Name} (hw : p.WellNamed) (h : ExcNamed o) :
    ExcNamed (p.excAfter o) := by
  cases p with
  | regionExcParam x =>
    rintro y hy
    obtain rfl := Option.some.inj hy
    exact hw
  | _ => exact h

theorem ExcNamed.of {passes : List Pass} {o : Option Name} (hw : ∀ p ∈ passes, p.WellNamed)
    (h : ExcNamed o) : ExcNamed (excOf passes o) := by
  induction passes generalizing o with
  | nil => exact h
  | cons p passes ih =>
    exact ih (fun q hq => hw q (List.mem_cons_of_mem p hq)) (h.after (hw p List.mem_cons_self))

theorem renameArgs_eq_self {args : List BlockArg} {old new : Name} (hold : ExcNamed (some old))
    (h : ∀ n, BlockArg.name (.tryExc n) ∉ args) : args.map (renameArg old new) = args := by
  obtain ⟨n, rfl⟩ := hold old rfl
  refine (List.map_congr_left fun arg harg => ?_).trans (List.map_id args)
  cases arg with
  | name x =>
    have hne : x ≠ .tryExc n := fun heq => h n (heq ▸ harg)
    simp [renameArg, hne]
  | _ => rfl

theorem Pass.apply_settled {p : Pass} {b : Block E T} (hexc : ExcNamed b.exceptionParam)
    (hs : Settled b.term) : (p.apply b).body = b.body ∧ (p.apply b).term = b.term := by
  cases p with
  | returnsToFinally finallyTarget payload =>
    show (rewriteReturnToFinally finallyTarget payload b).body = _ ∧
      (rewriteReturnToFinally finallyTarget payload b).term = _
    unfold rewriteReturnToFinally
    split
    · next h => rw [h] at hs; exact hs.elim
    · exact ⟨rfl, rfl⟩
  | finallyParams finallyLabel kind payload =>
    show (addFinallyParams finallyLabel kind payload b).body = _ ∧
      (addFinallyParams finallyLabel kind payload b).term = _
    unfold addFinallyParams Block.ensureParam
    repeat' split
    all_goals exact ⟨rfl, rfl⟩
  | regionExcParam x =>
    show (setRegionExcParam x b).body = _ ∧ (setRegionExcParam x b).term = _
    unfold setRegionExcParam
    split
    · exact ⟨rfl, rfl⟩
    · next old hold =>
      split
      · exact ⟨rfl, rfl⟩
      · unfold renameExceptionEdgeArgs
        split
        · next edge hterm =>
          have hterm : b.term = .jump edge := hterm
          rw [hterm] at hs ⊢
          exact ⟨rfl, by rw [renameArgs_eq_self (hold ▸ hexc) hs]⟩
        · exact ⟨rfl, rfl⟩

theorem applyAll_settled {passes : List Pass} {b : Block E T} (hw : ∀ p ∈ passes, p.WellNamed)
    (hexc : ExcNamed b.exceptionParam) (hs : Settled b.term) :
    (applyAll passes b).body = b.body ∧ (applyAll passes b).term = b.term := by
  induction passes generalizing b with
  | nil => exact ⟨rfl, rfl⟩
  | cons p passes ih =>
    obtain ⟨hbody, hterm⟩ := Pass.apply_settled (p := p) hexc hs
    obtain ⟨hbody', hterm'⟩ := ih (fun q hq => hw q (List.mem_cons_of_mem p hq))
      (b := p.apply b) (by
        rw [Pass.apply_exceptionParam]
        exact hexc.after (hw p List.mem_cons_self)) (hterm ▸ hs)
    rw [applyAll_cons]
    exact ⟨hbody'.trans hbody, hterm'.trans hterm⟩

/-- Where the passes send a return: to the innermost `finally` body around it. -/
def retOf : List Pass → Option (ℕ × Name)
  | [] => none
  | .returnsToFinally label payload :: _ => some (label, payload)
  | _ :: passes => retOf passes

theorem applyAll_return {passes : List Pass} {b : Block E T} {value : ReturnValue E}
    (hw : ∀ p ∈ passes, p.WellNamed) (hexc : ExcNamed b.exceptionParam)
    (hterm : b.term = .returnTerm value) :
    match retOf passes with
    | none => (applyAll passes b).body = b.body ∧ (applyAll passes b).term = b.term
    | some (label, payload) =>
      (applyAll passes b).body = b.body ++ [.storePayload payload value] ∧
        (applyAll passes b).term = .jump ⟨label, [.abruptKind .ret, .name payload]⟩ := by
  induction passes generalizing b with
  | nil => exact ⟨rfl, rfl⟩
  | cons p passes ih =>
    have hw' : ∀ q ∈ passes, q.WellNamed := fun q hq => hw q (List.mem_cons_of_mem p hq)
    have hexc' : ExcNamed (p.apply b).exceptionParam := by
      rw [Pass.apply_exceptionParam]
      exact hexc.after (hw p List.mem_cons_self)
    -- a pass that leaves the return to the passes behind it
    have hkeep : (p.apply b).body = b.body → (p.apply b).term = b.term →
        retOf (p :: passes) = retOf passes → _ := fun hbody hsame hret => by
      have := ih hw' hexc' (hsame.trans hterm)
      rw [← applyAll_cons, hbody, hsame, ← hret] at this
      exact this
    cases p with
    | returnsToFinally label payload =>
      have happly : Pass.apply (.returnsToFinally label payload) b =
          { b with
            body := b.body ++ [.storePayload payload value]
            term := .jump ⟨label, [.abruptKind .ret, .name payload]⟩ } := by
        simp [Pass.apply, rewriteReturnToFinally, hterm]
      have hs : Settled (Pass.apply (.returnsToFinally label payload) b).term := by
        obtain ⟨n, rfl⟩ := hw _ List.mem_cons_self
        simp [happly, Settled]
      obtain ⟨hbody, hterm'⟩ := applyAll_settled hw' hexc' hs
      rw [applyAll_cons]
      simp only [retOf]
      rw [hbody, hterm', happly]
      exact ⟨rfl, rfl⟩
    | finallyParams finallyLabel kind payload =>
      refine hkeep ?_ ?_ rfl
      · show (addFinallyParams finallyLabel kind payload b).body = _
        unfold addFinallyParams Block.ensureParam
        repeat' split
        all_goals rfl
      · show (addFinallyParams finallyLabel kind payload b).term = _
        unfold addFinallyParams Block.ensureParam
        repeat' split
        all_goals rfl
    | regionExcParam x =>
      have happly : Pass.apply (.regionExcParam x) b = b.setExceptionParam x := by
        show setRegionExcParam x b = _
        unfold setRegionExcParam renameExceptionEdgeArgs
        have hset : (b.setExceptionParam x).term = .returnTerm value := hterm
        simp only [hset]
        repeat' split
        all_goals rfl
      exact hkeep (by rw [happly]; rfl) (by rw [happly]; rfl) rfl

/-- The jump of an exception entry passes on the exception parameter, whatever its name is. -/
theorem applyAll_exceptionEntry (passes : List Pass) {b : Block E T} {z : Name} {label : ℕ}
    {kind : AbruptKind} (hparam : b.exceptionParam = some z)
    (hterm : b.term = .jump ⟨label, [.abruptKind kind, .name z]⟩) :
    (applyAll passes b).body = b.body ∧
      ∃ z', excOf passes (some z) = some z' ∧
        (applyAll passes b).term = .jump ⟨label, [.abruptKind kind, .name z']⟩ := by
  induction passes generalizing b z with
  | nil => exact ⟨rfl, z, rfl, hterm⟩
  | cons p passes ih =>
    have hnext : (p.apply b).body = b.body ∧
        ∃ z₁, p.excAfter (some z) = some z₁ ∧
          (p.apply b).term = .jump ⟨label, [.abruptKind kind, .name z₁]⟩ := by
      cases p with
      | returnsToFinally finallyTarget payload =>
        simp [Pass.apply, rewriteReturnToFinally, hterm, Pass.excAfter]
      | finallyParams finallyLabel kindName payload =>
        refine ⟨?_, z, rfl, ?_⟩
        · show (addFinallyParams finallyLabel kindName payload b).body = _
          unfold addFinallyParams Block.ensureParam
          repeat' split
          all_goals rfl
        · show (addFinallyParams finallyLabel kindName payload b).term = _
          unfold addFinallyParams Block.ensureParam
          repeat' split
          all_goals exact hterm
      | regionExcParam x =>
        show (setRegionExcParam x b).body = _ ∧ _
        have hset : (b.setExceptionParam x).term =
            .jump ⟨label, [.abruptKind kind, .name z]⟩ := hterm
        by_cases hz : z = x
        · refine ⟨?_, x, rfl, ?_⟩ <;> simp [Pass.apply, setRegionExcParam, hparam, hz]
          · rfl
          · rw [← hz]; exact hset
        · refine ⟨?_, x, rfl, ?_⟩ <;>
            simp [Pass.apply, setRegionExcParam, hparam, hz, renameExceptionEdgeArgs, hset,
              renameArg]
          rfl
    obtain ⟨hbody, z₁, hz₁, hterm₁⟩ := hnext
    have hparam₁ : (p.apply b).exceptionParam = some z₁ := by
      rw [Pass.apply_exceptionParam, hparam, hz₁]
    obtain ⟨hbody', z', hz', hterm'⟩ := ih hparam₁ hterm₁
    rw [applyAll_cons, excOf_cons, hz₁]
    exact ⟨hbody'.trans hbody, z', hz', hterm'⟩

end DietPython.ControlFlow
