import DietPython.Exceptions.HandlerClauses

/-!
# What an `except` chain does

The chain runs the handler of the first clause that matches the exception and no other, raises the
exception again when no clause matches, and leaves every `as` name unbound, exactly when two things
hold on its way: `isinstance` answers for each type that is reached as Python's own match does, and
a handler that is left by `break` or `continue`, which pass the `finally` body of its name by, has
unbound the name itself.
-/

namespace DietPython.Exceptions

open LeafTrees ControlFlow

variable {L G C N V St : Type} {l : Bool}

/-! ## Clauses -/

structure TypedClause (L G C N V St : Type) (l : Bool) where
  typ : HandlerTypeExpr L G C St
  name : Option N
  body : HandlerBody L G V St l

/-- The clauses of an `except` chain. Only the last one may be without a type. -/
structure ExceptClauses (L G C N V St : Type) (l : Bool) where
  typed : List (TypedClause L G C N V St l)
  bare : Option (HandlerBody L G V St l)

def TypedClause.toHandler (c : TypedClause L G C N V St l) : Handler L G C N V St l :=
  ⟨some c.typ, c.name, c.body⟩

def bareHandlers (bare : Option (HandlerBody L G V St l)) : List (Handler L G C N V St l) :=
  match bare with
  | some body => [⟨none, none, body⟩]
  | none => []

def ExceptClauses.handlers (cs : ExceptClauses L G C N V St l) : List (Handler L G C N V St l) :=
  cs.typed.map TypedClause.toHandler ++ bareHandlers cs.bare

/-! ## Logs -/

namespace HandlerRun

variable (r : HandlerRun L G C N V St l)

/-- The clauses whose types have been tested. -/
def testedTypes : List (ℕ × HandlerType C) :=
  r.log.filterMap fun
    | .tested n t => some (n, t)
    | _ => none

/-- The clauses whose handlers have begun. -/
def enteredClauses : List ℕ :=
  r.log.filterMap fun
    | .entered n _ => some n
    | _ => none

end HandlerRun

section Handlers

variable (types : ExceptionTypes L G C St) (names : HandlerNames N (Tree L G) St)
  (x : Tree L G)

/-! ## One handler -/

/-- How a handler leaves, with the name bound by `bound` and deleted again. -/
def Handler.exit (h : Handler L G C N V St l)
    (bound : N → HandlerState (Tree L G) St → HandlerState (Tree L G) St)
    (s : HandlerState (Tree L G) St) :
    Option (Signal V (Tree L G) l × HandlerState (Tree L G) St) :=
  match h.name with
  | none => h.body s
  | some name =>
    (h.body (bound name s)).map fun (signal, s) =>
      if Meaning.lowered.entersFinal signal then
        match names.delQuietly name s.user with
        | (.ok _, u) => (signal, s.setUser u)
        | (.error e, u) => (.exc e, s.setUser u)
      else (signal, s)

theorem Handler.run_code (h : Handler L G C N V St l)
    {excTarget : N → HandlerCode L G C N V St l}
    {bound : N → HandlerState (Tree L G) St → HandlerState (Tree L G) St}
    (ht : ∀ name s, (excTarget name).run types names x s = .ends .normal (bound name s))
    (s : HandlerState (Tree L G) St) :
    (h.code excTarget).run types names x s = ⟨[], h.exit names bound s⟩ := by
  unfold code exit
  cases h.name with
  | none => rfl
  | some name =>
    simp only [HandlerCode.run, ht, HandlerRun.andThen, HandlerRun.ends, List.nil_append]
    cases h.body (bound name s) with
    | none => rfl
    | some r =>
      obtain ⟨signal, s'⟩ := r
      simp only [Option.map_some]
      cases hf : Meaning.lowered.entersFinal signal with
      | false => simp only [Bool.false_eq_true, if_false]
      | true =>
        simp only [if_true]
        rcases names.delQuietly name s'.user with ⟨e | _, u⟩ <;> rfl

/-- The state with the exception bound. -/
def bindCaught (name : N) (s : HandlerState (Tree L G) St) : HandlerState (Tree L G) St :=
  s.setUser (names.bind name (some x) s.user)

/-- A handler that is left past its cleanup has no value in its name. -/
def Handler.Releases (h : Handler L G C N V St l)
    (bound : N → HandlerState (Tree L G) St → HandlerState (Tree L G) St)
    (s : HandlerState (Tree L G) St) : Prop :=
  ∀ name, h.name = some name → ∀ signal s', h.body (bound name s) = some (signal, s') →
    Meaning.lowered.entersFinal signal = false → names.isBound name s'.user = false

theorem Handler.releases_iff (h : Handler L G C N V St l)
    (bound : N → HandlerState (Tree L G) St → HandlerState (Tree L G) St)
    (s : HandlerState (Tree L G) St) :
    h.Releases names bound s ↔
      ∀ name, h.name = some name → ∀ signal s', h.exit names bound s = some (signal, s') →
        names.isBound name s'.user = false := by
  unfold Releases
  refine forall_congr' fun name => forall_congr' fun hn => ?_
  unfold exit
  simp only [hn]
  generalize h.body (bound name s) = r
  cases r with
  | none => simp
  | some r =>
    obtain ⟨signal, s'⟩ := r
    cases hf : Meaning.lowered.entersFinal signal with
    | false => simp [hf]
    | true =>
      have hd := names.isBound_delQuietly name s'.user
      simp only [Option.map_some, hf, if_true]
      generalize names.delQuietly name s'.user = d at hd ⊢
      obtain ⟨e | _, u⟩ := d
      · simpa [hf, HandlerState.setUser] using hd
      · simpa [hf, HandlerState.setUser] using hd

/-- What the handler of a clause logs. -/
def clauseLog (n : ℕ) (name : Option N) (matched : Option (Tree L G))
    (exit : Option (Signal V (Tree L G) l × HandlerState (Tree L G) St)) :
    List (ClauseEvent L G C N V St l) :=
  .entered n matched ::
    match exit with
    | some (signal, s) => [.left n name signal s]
    | none => []

theorem run_clause (n : ℕ) (name : Option N) {body : HandlerCode L G C N V St l}
    {s : HandlerState (Tree L G) St}
    {exit : Option (Signal V (Tree L G) l × HandlerState (Tree L G) St)}
    (hb : body.run types names x s = ⟨[], exit⟩) :
    (HandlerCode.clause n name body).run types names x s =
      ⟨clauseLog n name s.matched exit, exit⟩ := by
  simp only [HandlerCode.run, hb, HandlerRun.andThen, HandlerRun.after, clauseLog]
  cases exit <;> rfl

/-! ## What a chain is for -/

/-- The clause to run: the first of the tested ones that matches, or the bare one when all have
been tested. -/
def firstMatch (k typed : ℕ) (bare : Bool) (tested : List (ℕ × HandlerType C)) : List ℕ :=
  match tested.find? fun c => catches types x c.2 with
  | some c => [c.1]
  | none => if bare ∧ tested.length = typed then [k + typed] else []

/-- The run of a chain whose clauses are numbered from `k` on. -/
structure RunsFirstMatch (k typed : ℕ) (bare : Bool) (r : HandlerRun L G C N V St l) :
    Prop where
  inOrder : r.testedTypes.map Prod.fst = List.range' k r.testedTypes.length
  entered : r.enteredClauses = firstMatch types x k typed bare r.testedTypes
  /-- When no clause matches, the exception is raised again, unless a type cannot be evaluated or
  is no type to match with. -/
  reraises : r.enteredClauses = [] → (∀ n, .typeRaised n ∉ r.log) →
    (∀ n t, .refused n t ∈ r.log → accepts types t = true) →
    r.testedTypes.length = typed ∧ .reraised ∈ r.log ∧ ∃ s, r.exit = some (.exc x, s)
  unbinds : ∀ n name signal s, .left n (some name) signal s ∈ r.log →
    names.isBound name s.user = false

/-- The tests that are reached answer as Python's match does, and the handler that is entered
releases its name. -/
def AnswersAsPython : List (TypedClause L G C N V St l) → HandlerState (Tree L G) St → Prop
  | [], _ => True
  | c :: cs, s =>
    match c.typ s.user with
    | (.error _, _) => True
    | (.ok t, u) =>
      match exceptionMatches types x t u with
      | (.error _, _) => accepts types t = false
      | (.ok true, u) =>
        catches types x t = true ∧
          c.toHandler.Releases names (bindCaught names x) (s.setUser u)
      | (.ok false, u) => catches types x t = false ∧ AnswersAsPython cs (s.setUser u)

/-! ## Steps of a chain -/

section Steps

variable (r : HandlerRun L G C N V St l) (n : ℕ) (t : HandlerType C)

@[simp] theorem testedTypes_after_tested :
    (r.after [.tested n t]).testedTypes = (n, t) :: r.testedTypes := rfl

@[simp] theorem enteredClauses_after_tested :
    (r.after [.tested n t]).enteredClauses = r.enteredClauses := rfl

@[simp] theorem testedTypes_clauseLog (name : Option N) (matched : Option (Tree L G))
    (exit : Option (Signal V (Tree L G) l × HandlerState (Tree L G) St)) :
    (⟨clauseLog n name matched exit, exit⟩ : HandlerRun L G C N V St l).testedTypes = [] := by
  cases exit <;> rfl

@[simp] theorem enteredClauses_clauseLog (name : Option N) (matched : Option (Tree L G))
    (exit : Option (Signal V (Tree L G) l × HandlerState (Tree L G) St)) :
    (⟨clauseLog n name matched exit, exit⟩ : HandlerRun L G C N V St l).enteredClauses = [n] := by
  cases exit <;> rfl

theorem firstMatch_cons_of_catches (k typed : ℕ) (bare : Bool)
    (tested : List (ℕ × HandlerType C)) (h : catches types x t = true) :
    firstMatch types x k typed bare ((n, t) :: tested) = [n] := by
  unfold firstMatch
  rw [List.find?_cons_of_pos (by exact h)]

theorem firstMatch_cons_of_not_catches (k typed : ℕ) (bare : Bool)
    (tested : List (ℕ × HandlerType C)) (h : catches types x t = false) :
    firstMatch types x k (typed + 1) bare ((n, t) :: tested) =
      firstMatch types x (k + 1) typed bare tested := by
  unfold firstMatch
  rw [List.find?_cons_of_neg (by simp [h])]
  simp only [List.length_cons, Nat.add_right_cancel_iff]
  rw [show k + (typed + 1) = k + 1 + typed by omega]

/-- A clause that does not match is passed by. -/
theorem runsFirstMatch_after_tested {k typed : ℕ} {bare : Bool} {r : HandlerRun L G C N V St l}
    (hr : ∀ m ∈ r.enteredClauses, k < m) :
    RunsFirstMatch types names x k (typed + 1) bare (r.after [.tested k t]) ↔
      catches types x t = false ∧ RunsFirstMatch types names x (k + 1) typed bare r := by
  have htype : ∀ n, .typeRaised n ∈ (r.after [.tested k t]).log ↔ .typeRaised n ∈ r.log := by
    intro n
    simp [HandlerRun.after]
  have hrefused : ∀ n t', .refused n t' ∈ (r.after [.tested k t]).log ↔ .refused n t' ∈ r.log := by
    intro n t'
    simp [HandlerRun.after]
  have hleft : ∀ n name signal s,
      .left n (some name) signal s ∈ (r.after [.tested k t]).log ↔
        .left n (some name) signal s ∈ r.log := by
    intro n name signal s
    simp [HandlerRun.after]
  have hraise : .reraised ∈ (r.after [.tested k t]).log ↔ .reraised ∈ r.log := by
    simp [HandlerRun.after]
  constructor
  · intro h
    have hc : catches types x t = false := by
      by_contra hc
      have he := h.entered
      rw [testedTypes_after_tested, enteredClauses_after_tested,
        firstMatch_cons_of_catches types x k t k _ bare _ (by simpa using hc)] at he
      exact absurd (hr k (by rw [he]; simp)) (Nat.lt_irrefl k)
    refine ⟨hc, ?_, ?_, ?_, ?_⟩
    · have ho := h.inOrder
      rw [testedTypes_after_tested, List.map_cons, List.length_cons, List.range'_succ,
        List.cons.injEq] at ho
      exact ho.2
    · have he := h.entered
      rwa [testedTypes_after_tested, enteredClauses_after_tested,
        firstMatch_cons_of_not_catches types x k t k _ bare _ hc] at he
    · intro h0 h1 h2
      obtain ⟨hl, hm, hx⟩ := h.reraises h0 (fun n hn => h1 n ((htype n).mp hn))
        fun n t' hn => h2 n t' ((hrefused n t').mp hn)
      rw [testedTypes_after_tested, List.length_cons] at hl
      exact ⟨by omega, hraise.mp hm, hx⟩
    · intro n name signal s hn
      exact h.unbinds n name signal s ((hleft n name signal s).mpr hn)
  · rintro ⟨hc, h⟩
    refine ⟨?_, ?_, ?_, ?_⟩
    · rw [testedTypes_after_tested, List.map_cons, List.length_cons, List.range'_succ, h.inOrder]
    · rw [testedTypes_after_tested, enteredClauses_after_tested,
        firstMatch_cons_of_not_catches types x k t k _ bare _ hc, h.entered]
    · intro h0 h1 h2
      obtain ⟨hl, hm, hx⟩ := h.reraises h0 (fun n hn => h1 n ((htype n).mpr hn))
        fun n t' hn => h2 n t' ((hrefused n t').mpr hn)
      rw [testedTypes_after_tested, List.length_cons]
      exact ⟨by omega, hraise.mpr hm, hx⟩
    · intro n name signal s hn
      exact h.unbinds n name signal s ((hleft n name signal s).mp hn)

/-- A clause is entered. -/
theorem runsFirstMatch_entered {k typed : ℕ} {bare : Bool} {name : Option N}
    {matched : Option (Tree L G)}
    {exit : Option (Signal V (Tree L G) l × HandlerState (Tree L G) St)} :
    RunsFirstMatch types names x k typed bare
        ((⟨clauseLog k name matched exit, exit⟩ : HandlerRun L G C N V St l).after
          [.tested k t]) ↔
      catches types x t = true ∧
        ∀ n, name = some n → ∀ signal s', exit = some (signal, s') →
          names.isBound n s'.user = false := by
  have hunbinds : (∀ m n signal s, .left m (some n) signal s ∈
        ((⟨clauseLog k name matched exit, exit⟩ : HandlerRun L G C N V St l).after
          [.tested k t]).log → names.isBound n s.user = false) ↔
      ∀ n, name = some n → ∀ signal s', exit = some (signal, s') →
        names.isBound n s'.user = false := by
    unfold HandlerRun.after clauseLog
    cases exit with
    | none => simp
    | some e =>
      obtain ⟨signal, s'⟩ := e
      constructor
      · rintro h n rfl _ _ he
        cases he
        exact h k n signal s' (by simp)
      · intro h m n _ _ hm
        simp only [List.singleton_append, List.mem_cons, reduceCtorEq, List.not_mem_nil, or_false,
          false_or, ClauseEvent.left.injEq] at hm
        obtain ⟨-, hn, hs, rfl⟩ := hm
        exact h n hn.symm signal _ rfl
  constructor
  · intro h
    refine ⟨?_, hunbinds.mp h.unbinds⟩
    by_contra hc
    have hc : catches types x t = false := by simpa using hc
    have he := h.entered
    cases typed with
    | zero =>
      have hf : firstMatch types x k 0 bare [(k, t)] = [] := by
        unfold firstMatch
        rw [List.find?_cons_of_neg (by simp [hc])]
        simp
      rw [enteredClauses_after_tested, testedTypes_after_tested, testedTypes_clauseLog,
        enteredClauses_clauseLog, hf] at he
      cases he
    | succ typed =>
      rw [enteredClauses_after_tested, testedTypes_after_tested, testedTypes_clauseLog,
        enteredClauses_clauseLog, firstMatch_cons_of_not_catches types x k t k _ bare _ hc] at he
      unfold firstMatch at he
      simp only [List.find?_nil] at he
      split at he
      · injection he with he
        omega
      · cases he
  · rintro ⟨hc, hu⟩
    refine ⟨?_, ?_, ?_, hunbinds.mpr hu⟩
    · rw [testedTypes_after_tested, testedTypes_clauseLog]
      rfl
    · rw [enteredClauses_after_tested, testedTypes_after_tested, testedTypes_clauseLog,
        enteredClauses_clauseLog, firstMatch_cons_of_catches types x k t k _ bare _ hc]
    · intro h0
      rw [enteredClauses_after_tested, enteredClauses_clauseLog] at h0
      cases h0

end Steps

/-! ## Runs of a chain -/

/-- What stands behind the last handler. -/
def chainBase (bare : Option (HandlerBody L G V St l)) : HandlerCode L G C N V St l :=
  if bare.isSome then .pass else .raiseCurrent

/-- The chain of these clauses, numbered from `k` on. -/
def chainFrom (bare : Option (HandlerBody L G V St l)) (k : ℕ)
    (cs : List (TypedClause L G C N V St l)) : HandlerCode L G C N V St l :=
  handlerChain (chainBase bare) k (cs.map TypedClause.toHandler ++ bareHandlers bare)

theorem run_chainFrom_bare (body : HandlerBody L G V St l) (k : ℕ)
    (s : HandlerState (Tree L G) St) :
    (chainFrom (some body) k ([] : List (TypedClause L G C N V St l))).run types names x s =
      ⟨clauseLog k none s.matched (body s), body s⟩ := by
  have hc : (HandlerCode.clause (C := C) (N := N) k none (.user body)).run types names x s =
      ⟨clauseLog k none s.matched (body s), body s⟩ := run_clause types names x k none rfl
  show (HandlerCode.seq (.clause k none (.user body)) .pass).run types names x s = _
  rw [HandlerCode.run_seq, hc]
  unfold HandlerRun.andThen
  cases body s with
  | none => rfl
  | some r =>
    obtain ⟨signal, s'⟩ := r
    cases signal <;> simp [HandlerCode.run, HandlerRun.ends]

theorem run_toHandler_code (c : TypedClause L G C N V St l) (k : ℕ)
    (s : HandlerState (Tree L G) St) :
    (HandlerCode.clause k c.name (c.toHandler.code .bindCurrent)).run types names x s =
      ⟨clauseLog k c.name s.matched (c.toHandler.exit names (bindCaught names x) s),
        c.toHandler.exit names (bindCaught names x) s⟩ :=
  run_clause types names x k c.name (c.toHandler.run_code types names x (fun _ _ => rfl) s)

/-- The chain in front of one more clause. -/
theorem run_chainFrom_cons (bare : Option (HandlerBody L G V St l)) (k : ℕ)
    (c : TypedClause L G C N V St l) (cs : List (TypedClause L G C N V St l))
    (s : HandlerState (Tree L G) St) :
    (chainFrom bare k (c :: cs)).run types names x s =
      match c.typ s.user with
      | (.error e, u) => ⟨[.typeRaised k], some (.exc e, s.setUser u)⟩
      | (.ok t, u) =>
        match exceptionMatches types x t u with
        | (.error e, u) => ⟨[.refused k t], some (.exc e, s.setUser u)⟩
        | (.ok true, u) =>
          let exit := c.toHandler.exit names (bindCaught names x) (s.setUser u)
          HandlerRun.after [.tested k t] ⟨clauseLog k c.name s.matched exit, exit⟩
        | (.ok false, u) =>
          ((chainFrom bare (k + 1) cs).run types names x (s.setUser u)).after [.tested k t] := by
  show (HandlerCode.ifElse (.matchesCurrent k c.typ)
    (.clause k c.name (c.toHandler.code .bindCurrent)) (chainFrom bare (k + 1) cs)).run
      types names x s = _
  rw [HandlerCode.run_ifElse, HandlerTest.eval_matchesCurrent]
  rcases c.typ s.user with ⟨e | t, u⟩
  · rfl
  · simp only
    rcases exceptionMatches types x t u with ⟨e | b, u'⟩
    · rfl
    · cases b with
      | false => rfl
      | true => simp only [run_toHandler_code]; rfl

/-- The clauses that a chain enters are its own. -/
theorem le_of_mem_enteredClauses (bare : Option (HandlerBody L G V St l))
    (cs : List (TypedClause L G C N V St l)) (k : ℕ) (s : HandlerState (Tree L G) St) :
    ∀ n ∈ ((chainFrom bare k cs).run types names x s).enteredClauses, k ≤ n := by
  induction cs generalizing k s with
  | nil =>
    cases bare with
    | none =>
      intro n hn
      cases hn
    | some body =>
      rw [run_chainFrom_bare, enteredClauses_clauseLog]
      simp
  | cons c cs ih =>
    rw [run_chainFrom_cons]
    rcases c.typ s.user with ⟨e | t, u⟩
    · intro n hn
      cases hn
    · simp only
      rcases exceptionMatches types x t u with ⟨e | b, u'⟩
      · intro n hn
        cases hn
      · cases b with
        | true =>
          simp only [enteredClauses_after_tested, enteredClauses_clauseLog]
          simp
        | false =>
          intro n hn
          rw [enteredClauses_after_tested] at hn
          exact Nat.le_of_succ_le (ih (k + 1) (s.setUser u') n hn)

theorem runsFirstMatch_chainFrom (bare : Option (HandlerBody L G V St l))
    (cs : List (TypedClause L G C N V St l)) (k : ℕ) (s : HandlerState (Tree L G) St) :
    RunsFirstMatch types names x k cs.length bare.isSome
        ((chainFrom bare k cs).run types names x s) ↔
      AnswersAsPython types names x cs s := by
  induction cs generalizing k s with
  | nil =>
    refine iff_of_true ?_ trivial
    cases bare with
    | none => exact ⟨rfl, rfl, fun _ _ _ => ⟨rfl, List.mem_singleton_self _, s, rfl⟩, by
        intro n name signal s' h
        simp [chainFrom, handlerChain, bareHandlers, chainBase, HandlerCode.run] at h⟩
    | some body =>
      rw [run_chainFrom_bare]
      refine ⟨?_, ?_, ?_, ?_⟩
      · rw [testedTypes_clauseLog]
        rfl
      · rw [testedTypes_clauseLog, enteredClauses_clauseLog]
        rfl
      · intro h
        rw [enteredClauses_clauseLog] at h
        cases h
      · intro n name signal s' h
        generalize body s = exit at h
        cases exit <;> simp [clauseLog] at h
  | cons c cs ih =>
    rw [run_chainFrom_cons]
    unfold AnswersAsPython
    rcases c.typ s.user with ⟨e | t, u⟩
    · -- the type cannot be evaluated
      refine iff_of_true ⟨rfl, ?_, ?_, ?_⟩ trivial
      · simp [HandlerRun.enteredClauses, HandlerRun.testedTypes, firstMatch]
      · intro _ h
        exact absurd (List.mem_singleton_self _) (h k)
      · intro n name signal s' h
        cases List.mem_singleton.mp h
    · simp only
      rcases exceptionMatches types x t u with ⟨e | b, u'⟩
      · -- the test raises
        constructor
        · intro h
          by_contra ha
          obtain ⟨hl, -⟩ := h.reraises rfl (by simp) (by simpa using ha)
          cases hl
        · intro ha
          refine ⟨rfl, ?_, ?_, ?_⟩
          · simp [HandlerRun.enteredClauses, HandlerRun.testedTypes, firstMatch]
          · intro _ _ h
            have := h k t (List.mem_singleton_self _)
            rw [ha] at this
            cases this
          · intro n name signal s' h
            cases List.mem_singleton.mp h
      · cases b with
        | true =>
          simp only
          rw [runsFirstMatch_entered, Handler.releases_iff]
          rfl
        | false =>
          simp only
          rw [List.length_cons, runsFirstMatch_after_tested, ih]
          intro m hm
          exact le_of_mem_enteredClauses types names x bare cs (k + 1) (s.setUser u') m hm

/-- The rewriting makes the chain, also where it leaves the only handler as it is. -/
theorem run_rewriteTryStmt (baseException : HandlerTypeExpr L G C St)
    (cs : ExceptClauses L G C N V St l) (s : HandlerState (Tree L G) St) :
    (rewriteTryStmt baseException false cs.handlers).run types names x s =
      (chainFrom cs.bare 0 cs.typed).run types names x s := by
  obtain ⟨typed, bare⟩ := cs
  cases typed with
  | nil =>
    cases bare with
    | none => rfl
    | some body =>
      rw [run_chainFrom_bare]
      exact run_clause types names x 0 none rfl
  | cons c cs =>
    have hbare : ((c :: cs).map TypedClause.toHandler ++ bareHandlers bare).any
        (fun h => h.type_.isNone) = bare.isSome := by
      rw [List.any_append, List.any_map]
      have ht : ((c :: cs).any ((fun h => h.type_.isNone) ∘ TypedClause.toHandler)) = false :=
        List.any_eq_false.mpr fun c _ h => by cases h
      rw [ht, Bool.false_or]
      cases bare <;> rfl
    unfold rewriteTryStmt ExceptClauses.handlers chainFrom chainBase
    simp only [hbare]
    rfl

/-- `except` clauses run the first match, re-raise when there is none and unbind the name, exactly
when the tests answer as Python's match does and no handler is left by `break` or `continue` with
its name bound. -/
theorem rewriteTryStmt_runsFirstMatch_iff (baseException : HandlerTypeExpr L G C St)
    (cs : ExceptClauses L G C N V St l) (s : HandlerState (Tree L G) St) :
    RunsFirstMatch types names x 0 cs.typed.length cs.bare.isSome
        ((rewriteTryStmt baseException false cs.handlers).run types names x s) ↔
      AnswersAsPython types names x cs.typed s := by
  rw [← runsFirstMatch_chainFrom types names x cs.bare cs.typed 0 s,
    run_rewriteTryStmt types names x baseException cs s]

end Handlers

/-! ## A chain of three clauses -/

section Chain

/-- Variables with exceptions in them. -/
abbrev NumberedNames := ℕ → Option (Option (Tree ℕ ℕ))

/-- A handler that ends, one that raises 7 and a bare one. -/
def threeClauses : ExceptClauses ℕ ℕ ℕ ℕ ℕ NumberedNames false where
  typed :=
    [⟨fun u => (.ok (.object 4), u), some 0, fun s => some (.normal, s)⟩,
      ⟨fun u => (.ok (.object 3), u), some 1, fun s => some (.exc (.leaf 7), s)⟩]
  bare := some fun s => some (.normal, s)

/-- 9 is no multiple of 4, but one of 3. -/
theorem rewriteTryStmt_runsFirstMatch_threeClauses :
    let names := HandlerNames.ofScope (.leaf 0 : Tree ℕ ℕ) false
    let types := ExceptionTypes.divisors NumberedNames
    let run := (rewriteTryStmt (fun u => (.ok (.object 1), u)) false threeClauses.handlers).run
      types names (.leaf 9) ⟨fun _ => none, none, none, none⟩
    RunsFirstMatch types names (.leaf 9) 0 2 true run ∧ run.enteredClauses = [1] ∧
      run.exit.map Prod.fst = some (.exc (.leaf 7)) := by
  refine ⟨(rewriteTryStmt_runsFirstMatch_iff _ _ _ _ threeClauses _).mpr ⟨rfl, rfl, ?_⟩, rfl, rfl⟩
  intro name _ signal s hbody hsignal
  cases hbody
  cases hsignal

end Chain

end DietPython.Exceptions
