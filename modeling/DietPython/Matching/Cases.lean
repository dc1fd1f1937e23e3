import DietPython.Matching.Captures

/-!
# `match` statements

`rewrite_match_stmt` stores the subject in a temporary and nests the cases into a chain of tests. A
case whose guard fails deletes the names that it has assigned and goes on with the other cases. The
chain takes the first case whose pattern matches and whose guard holds, with the captures of its
pattern bound, and a case whose pattern does not match changes no name.
-/

namespace DietPython.Matching

variable {V X E N : Type} [DecidableEq N]

/-! ## Statements -/

/-- A guard, with what it does to the names. -/
abbrev Guard (V X N : Type) := Env N V → Except X (Bool × Env N V)

/-- A case; its body is known by its number. -/
structure MatchCase (V X E N : Type) where
  pattern : Pattern E N
  guard : Option (Guard V X N)

inductive CaseStmt (V X E N : Type)
  | assign (stmt : AssignStmt E N)
  | ifTest (test : MatchTest E) (body orelse : List (CaseStmt V X E N))
  | ifGuard (guard : Guard V X N) (body orelse : List (CaseStmt V X E N))
  | del (name : N)
  /-- The body of a case. Nothing of the chain follows it. -/
  | body (n : ℕ)

/-- `assigned_names`, for the assignments of a pattern. -/
def assignedNames (assigns : List (AssignStmt E N)) : List N :=
  assigns.foldl (fun names stmt =>
    match stmt with
    | .assign name _ => if name ∈ names then names else names ++ [name]
    | _ => names) []

/-- What a case runs when its pattern matches. -/
def caseBlock (n : ℕ) (guard : Option (Guard V X N)) (assigns : List (AssignStmt E N))
    (chain : List (CaseStmt V X E N)) : List (CaseStmt V X E N) :=
  assigns.map .assign ++
    match guard with
    | some guard => [.ifGuard guard [.body n] ((assignedNames assigns).map .del ++ chain)]
    | none => [.body n]

/-- The chain of the cases from number `n` on. -/
def caseChain : ℕ → List (MatchCase V X E N) → List (CaseStmt V X E N)
  | _, [] => []
  | n, c :: cs =>
    let chain := caseChain (n + 1) cs
    let pattern := testForPattern c.pattern .tmp
    let block := caseBlock n c.guard pattern.assigns chain
    match pattern.test with
    | none => block
    | some test => [.ifTest test block chain]

/-! ## Runs -/

section Runs

variable (objs : MatchObjects V X E N)

/-- `del name` -/
def deleteName (name : N) (env : Env N V) : Except X (Env N V) :=
  match env name with
  | some _ => pure (Function.update env name none)
  | none => throw objs.nameError

mutual

/-- The case whose body is reached, if one is, and the names then. -/
def CaseStmt.run (v : V) : CaseStmt V X E N → Env N V → Except X (Option ℕ × Env N V)
  | .assign stmt, env => do pure (none, ← stmt.exec objs v env)
  | .ifTest test body orelse, env => do
    if ← test.holds objs env v then runCases v body env else runCases v orelse env
  | .ifGuard guard body orelse, env => do
    let (holds, env) ← guard env
    if holds then runCases v body env else runCases v orelse env
  | .del name, env => do pure (none, ← deleteName objs name env)
  | .body n, env => pure (some n, env)

def runCases (v : V) : List (CaseStmt V X E N) → Env N V → Except X (Option ℕ × Env N V)
  | [], env => pure (none, env)
  | stmt :: rest, env => do
    match ← stmt.run v env with
    | (some n, env) => pure (some n, env)
    | (none, env) => runCases v rest env

end

/-- `rewrite_match_stmt`: the subject is evaluated, then the chain runs. -/
def runMatchStmt (subject : Env N V → Except X (V × Env N V)) (cases : List (MatchCase V X E N))
    (env : Env N V) : Except X (Option ℕ × Env N V) := do
  let (v, env) ← subject env
  runCases objs v (caseChain 0 cases) env

/-! ## What a `match` is for -/

/-- The names that a case deletes when its guard fails. -/
def deleteAll (names : List N) (env : Env N V) : Except X (Env N V) :=
  names.foldlM (fun env name => deleteName objs name env) env

/-- The first case from number `n` on whose pattern matches and whose guard holds, with its captures
bound. -/
def selectCase (v : V) : ℕ → List (MatchCase V X E N) → Env N V → Except X (Option ℕ × Env N V)
  | _, [], env => pure (none, env)
  | n, c :: cs, env => do
    if ← c.pattern.matches objs env (pure v) then
      let env := bindAll env (← c.pattern.captures objs env (pure v))
      match c.guard with
      | none => pure (some n, env)
      | some guard =>
        let (holds, env) ← guard env
        if holds then pure (some n, env)
        else
          -- names that had a value before the case lose it
          let assigned := assignedNames (testForPattern c.pattern .tmp).assigns
          selectCase v (n + 1) cs (← deleteAll objs assigned env)
    else selectCase v (n + 1) cs env

/-- Nothing that the pattern evaluates reads a name that it binds. -/
def Pattern.Apart (p : Pattern E N) : Prop :=
  ∃ names : N → Prop, p.Names names ∧
    ∀ env₀ : Env N V, p.Sources (Fixed objs names env₀)

/-! ## The chain -/

variable (v : V)

theorem runCases_assigns (assigns : List (AssignStmt E N)) (rest : List (CaseStmt V X E N))
    (env : Env N V) :
    runCases objs v (assigns.map .assign ++ rest) env =
      execAll objs v assigns env >>= runCases objs v rest := by
  induction assigns generalizing env with
  | nil => rfl
  | cons a assigns ih =>
    show ((do pure (none, ← a.exec objs v env)) >>= fun r =>
      match r with
      | (some n, env) => pure (some n, env)
      | (none, env) => runCases objs v (assigns.map .assign ++ rest) env) = _
    show _ = (a.exec objs v env >>= execAll objs v assigns) >>= runCases objs v rest
    cases a.exec objs v env with
    | error e => rfl
    | ok env => exact ih env

theorem runCases_dels (names : List N) (rest : List (CaseStmt V X E N)) (env : Env N V) :
    runCases objs v (names.map .del ++ rest) env =
      deleteAll objs names env >>= runCases objs v rest := by
  induction names generalizing env with
  | nil => rfl
  | cons name names ih =>
    show ((do pure (none, ← deleteName objs name env)) >>= fun r =>
      match r with
      | (some n, env) => pure (some n, env)
      | (none, env) => runCases objs v (names.map .del ++ rest) env) = _
    show _ = (deleteName objs name env >>= deleteAll objs names) >>= runCases objs v rest
    cases deleteName objs name env with
    | error e => rfl
    | ok env => exact ih env

theorem runCases_singleton (stmt : CaseStmt V X E N) (env : Env N V) :
    runCases objs v [stmt] env = stmt.run objs v env := by
  show (stmt.run objs v env >>= fun r =>
    match r with
    | (some n, env) => pure (some n, env)
    | (none, env) => pure (none, env)) = _
  cases stmt.run objs v env with
  | error e => rfl
  | ok r =>
    obtain ⟨n | n, env⟩ := r <;> rfl

/-- A case whose pattern has matched. -/
theorem runCases_caseBlock (n : ℕ) (c : MatchCase V X E N) (hc : c.pattern.Apart objs)
    (chain : List (CaseStmt V X E N)) (env : Env N V) :
    runCases objs v (caseBlock n c.guard (testForPattern c.pattern .tmp).assigns chain) env =
      (do
        let env := bindAll env (← c.pattern.captures objs env (pure v))
        match c.guard with
        | none => pure (some n, env)
        | some guard =>
          let (holds, env) ← guard env
          if holds then pure (some n, env)
          else
            runCases objs v chain (← deleteAll objs
              (assignedNames (testForPattern c.pattern .tmp).assigns) env)) := by
  obtain ⟨names, hn, hs⟩ := hc
  have hb : Binds objs names env v (c.pattern.captures objs env (pure v))
      (testForPattern c.pattern .tmp).assigns :=
    binds_testForPattern (s := .tmp) (hs env) hn trivial
  unfold caseBlock
  rw [runCases_assigns, hb.2 env fun _ _ => rfl]
  cases c.pattern.captures objs env (pure v) with
  | error e => rfl
  | ok captures =>
    show runCases objs v _ (bindAll env captures) = _
    cases c.guard with
    | none => rfl
    | some guard =>
      simp only
      rw [runCases_singleton]
      unfold CaseStmt.run
      simp only [← pure_def, pure_bind]
      cases guard (bindAll env captures) with
      | error e => rfl
      | ok r =>
        obtain ⟨holds, env'⟩ := r
        cases holds with
        | true => rfl
        | false => exact runCases_dels objs v _ chain env'

/-- The chain takes the case that a `match` is for. -/
theorem runCases_caseChain (cases : List (MatchCase V X E N)) (n : ℕ)
    (h : ∀ c ∈ cases, c.pattern.Apart objs) (env : Env N V) :
    runCases objs v (caseChain n cases) env = selectCase objs v n cases env := by
  induction cases generalizing n env with
  | nil => rfl
  | cons c cs ih =>
    have ih := fun env => ih (n + 1) (fun c hc => h c (List.mem_cons_of_mem _ hc)) env
    have hblock := runCases_caseBlock objs v n c (h c (by simp)) (caseChain (n + 1) cs) env
    simp only [ih] at hblock
    have htest : ((testForPattern c.pattern .tmp).test.getD .always).holds objs env v =
        c.pattern.matches objs env (pure v) := holds_testForPattern objs env v c.pattern .tmp
    unfold caseChain selectCase
    simp only
    rw [← htest]
    cases (testForPattern c.pattern .tmp).test with
    | none => exact hblock
    | some test =>
      simp only [Option.getD_some]
      rw [runCases_singleton]
      unfold CaseStmt.run
      cases test.holds objs env v with
      | error e => rfl
      | ok holds =>
        cases holds with
        | true => exact hblock
        | false => exact ih env

end Runs

/-! ### Lists of numbers -/

/-- Lists of numbers as objects, numbers and booleans being lists of one. -/
def listObjects : MatchObjects (List ℕ) Unit (List ℕ) ℕ where
  source e _ := pure e
  singleton _ := []
  integer n := [n]
  unary
    | .len, v => pure [v.length]
    | .list, v => pure v
    | _, _ => pure [1]
  binary
    | .equals, v, w => pure [if v = w then 1 else 0]
    | .atLeast, v, w => pure [if w.headD 0 ≤ v.headD 0 then 1 else 0]
    | .item, v, i => pure [v.getD (i.headD 0) 0]
    | .minus, v, w => pure [v.headD 0 - w.headD 0]
    | _, v, _ => pure v
  slice v i j := pure ((v.take (j.headD 0)).drop (i.headD 0))
  truth v := pure (v != [0])
  pop d _ := pure d
  nameError := ()

end DietPython.Matching
