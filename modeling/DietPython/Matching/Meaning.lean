import DietPython.Matching.Patterns

/-!
# What lowered patterns do

Looking at a subject has no effects here, but it can raise. Then the lowered test of a pattern is
the test of the pattern, however often its subject is evaluated again, and the assignments bind the
captures of the pattern, as long as nothing that the pattern evaluates reads a name that it binds.
-/

namespace DietPython.Matching

/-! ## Objects -/

/-- What generated code asks of the objects it looks at. `X` are exceptions. -/
structure MatchObjects (V X E N : Type) where
  source : E → (N → Option V) → Except X V
  singleton : Singleton → V
  integer : ℕ → V
  unary : UnaryOp → V → Except X V
  binary : BinaryOp → V → V → Except X V
  slice : V → V → V → Except X V
  truth : V → Except X Bool
  /-- The dict after `pop(key, None)`. -/
  pop : V → V → Except X V
  nameError : X

section Running

variable {V X E N : Type} (objs : MatchObjects V X E N)

abbrev Env (N V : Type) := N → Option V

/-- Both hold; the second is looked at when the first one holds. -/
def both (a b : Except X Bool) : Except X Bool := do
  if ← a then b else pure false

/-- One of the two holds; the second is looked at when the first one does not. -/
def either (a b : Except X Bool) : Except X Bool := do
  if ← a then pure true else b

/-! ## Running generated code -/

section Eval

variable (env : Env N V) (subject : V)

def MatchExpr.eval : MatchExpr E → Except X V
  | .tmp => pure subject
  | .source e => objs.source e env
  | .singleton value => pure (objs.singleton value)
  | .integer n => pure (objs.integer n)
  | .unary op x => do objs.unary op (← x.eval)
  | .binary op x y => do objs.binary op (← x.eval) (← y.eval)
  | .slice x i j => do objs.slice (← x.eval) (← i.eval) (← j.eval)

mutual

def MatchTest.holds : MatchTest E → Except X Bool
  | .expr e => do objs.truth (← e.eval objs env subject)
  | .always => pure true
  | .allOf tests => allHold tests
  | .anyOf tests => anyHolds tests

def allHold : List (MatchTest E) → Except X Bool
  | [] => pure true
  | test :: tests => both test.holds (allHold tests)

def anyHolds : List (MatchTest E) → Except X Bool
  | [] => pure false
  | test :: tests => either test.holds (anyHolds tests)

end

end Eval

section Exec

variable [DecidableEq N]

mutual

/-- The names after an assignment. What has been assigned before an exception is left out. -/
def AssignStmt.exec (subject : V) : AssignStmt E N → Env N V → Except X (Env N V)
  | .pass, env => pure env
  | .assign name value, env => do
    pure (Function.update env name (some (← value.eval objs env subject)))
  | .pop name key, env =>
    match env name with
    | some d => do
      pure (Function.update env name (some (← objs.pop d (← key.eval objs env subject))))
    | none => throw objs.nameError
  | .ifElse test body orelse, env => do
    if ← test.holds objs env subject then execAll subject body env else execAll subject orelse env

def execAll (subject : V) : List (AssignStmt E N) → Env N V → Except X (Env N V)
  | [], env => pure env
  | stmt :: rest, env => do execAll subject rest (← stmt.exec subject env)

end

end Exec

/-! ## What a pattern means -/

def holdsOf (r : Except X V) : Except X Bool := do objs.truth (← r)

/-- A sequence is what has a length and items and is no text. -/
def isSequence (c : Except X V) : Except X Bool :=
  both (holdsOf objs (do objs.unary (.hasattr "__len__") (← c)))
    (both (holdsOf objs (do objs.unary (.hasattr "__getitem__") (← c)))
      (holdsOf objs (do objs.unary .isNoText (← c))))

def lengthOk (c : Except X V) (star : Option ℕ) (total : ℕ) : Except X Bool :=
  match star with
  | some _ =>
    holdsOf objs (do objs.binary .atLeast (← objs.unary .len (← c)) (objs.integer (total - 1)))
  | none => holdsOf objs (do objs.binary .equals (← objs.unary .len (← c)) (objs.integer total))

/-- The item at a place, from the front or, behind a star, from the end. -/
def itemAt (c : Except X V) (star : Option ℕ) (total i : ℕ) : Except X V :=
  match star with
  | some k =>
    if i < k then do objs.binary .item (← c) (objs.integer i)
    else do
      let v ← c
      objs.binary .item v
        (← objs.binary .minus (← objs.unary .len v) (objs.integer (total - i)))
  | none => do objs.binary .item (← c) (objs.integer i)

def starValue (c : Except X V) (k total : ℕ) : Except X V := do
  let v ← c
  objs.unary .list (← objs.slice v (objs.integer k)
    (← objs.binary .minus (← objs.unary .len v) (objs.integer (total - k - 1))))

section Meaning

variable (env : Env N V)

mutual

/-- The pattern matches. `c` is the subject, or the exception that getting it raises. -/
def Pattern.matches : Pattern E N → Except X V → Except X Bool
  | .matchValue value, c =>
    holdsOf objs (do objs.binary .equals (← c) (← objs.source value env))
  | .matchSingleton value, c => holdsOf objs (do objs.binary .is (← c) (objs.singleton value))
  | .matchOr patterns, c => patterns.anyMatches c
  | .matchSequence patterns, c =>
    both (isSequence objs c)
      (both (lengthOk objs c patterns.starIndex patterns.length)
        (patterns.itemsMatch c patterns.starIndex patterns.length 0))
  | .matchStar _, c => isSequence objs c
  | .matchMapping entries _, c =>
    both (holdsOf objs (do objs.unary (.hasattr "keys") (← c)))
      (both (holdsOf objs (do objs.unary (.hasattr "__getitem__") (← c))) (entries.allMatch c))
  | .matchClass cls positional keywords, c =>
    both (holdsOf objs (do objs.binary .isinstance (← c) (← objs.source cls env)))
      (both (positional.attrsMatch cls c positional.length 0) (keywords.allMatch c))
  | .matchAs pattern _, c => pattern.matches c
  | .capture _, _ => pure true

/-- One of the alternatives matches. -/
def Patterns.anyMatches : Patterns E N → Except X V → Except X Bool
  | .nil, _ => pure false
  | .cons pattern rest, c => either (pattern.matches c) (rest.anyMatches c)

/-- The items from place `i` on match. -/
def Patterns.itemsMatch : Patterns E N → Except X V → Option ℕ → ℕ → ℕ → Except X Bool
  | .nil, _, _, _, _ => pure true
  | .cons pattern rest, c, star, total, i =>
    both (if star = some i then pure true else pattern.matches (itemAt objs c star total i))
      (rest.itemsMatch c star total (i + 1))

def Patterns.attrsMatch : Patterns E N → E → Except X V → ℕ → ℕ → Except X Bool
  | .nil, _, _, _, _ => pure true
  | .cons pattern rest, cls, c, total, i =>
    both (holdsOf objs (do objs.binary (.attrExists i total) (← objs.source cls env) (← c)))
      (both (pattern.matches (do objs.binary (.attrValue i total) (← objs.source cls env) (← c)))
        (rest.attrsMatch cls c total (i + 1)))

def Entries.allMatch : Entries E N → Except X V → Except X Bool
  | .nil, _ => pure true
  | .cons key pattern rest, c =>
    both (holdsOf objs (do objs.binary .isIn (← objs.source key env) (← c)))
      (both (pattern.matches (do objs.binary .item (← c) (← objs.source key env)))
        (rest.allMatch c))

def Keywords.allMatch : Keywords E N → Except X V → Except X Bool
  | .nil, _ => pure true
  | .cons attr pattern rest, c =>
    both (holdsOf objs (do objs.unary (.hasattr attr) (← c)))
      (both (pattern.matches (do objs.unary (.getattr attr) (← c))) (rest.allMatch c))

end

/-- A captured value, if there is a name for it. -/
def captured (name : Option N) (c : Except X V) : Except X (List (N × V)) :=
  match name with
  | some name => do pure [(name, ← c)]
  | none => pure []

/-- Captures of two parts. -/
def joined (a b : Except X (List (N × V))) : Except X (List (N × V)) := do
  pure ((← a) ++ (← b))

/-- The items of a mapping that no key names. -/
def restItems (c : Except X V) (keys : List E) : Except X V := do
  keys.foldlM (fun d key => do objs.pop d (← objs.source key env)) (← objs.unary .dict (← c))

/-- The name of a starred pattern. -/
def Pattern.starName : Pattern E N → Option N
  | .matchStar name => name
  | _ => none

mutual

/-- The pattern may bind a name. -/
def Pattern.binds : Pattern E N → Bool
  | .matchValue _ | .matchSingleton _ => false
  | .matchOr patterns => patterns.anyBinds
  | .matchSequence patterns => patterns.itemsBind patterns.starIndex 0
  | .matchStar name | .capture name => name.isSome
  | .matchMapping entries rest => entries.anyBinds || rest.isSome
  | .matchClass _ positional keywords => positional.anyBinds || keywords.anyBinds
  | .matchAs pattern name => pattern.binds || name.isSome

def Patterns.anyBinds : Patterns E N → Bool
  | .nil => false
  | .cons pattern rest => pattern.binds || rest.anyBinds

def Patterns.itemsBind : Patterns E N → Option ℕ → ℕ → Bool
  | .nil, _, _ => false
  | .cons pattern rest, star, i =>
    (if star = some i then pattern.starName.isSome else pattern.binds) ||
      rest.itemsBind star (i + 1)

def Entries.anyBinds : Entries E N → Bool
  | .nil => false
  | .cons _ pattern rest => pattern.binds || rest.anyBinds

def Keywords.anyBinds : Keywords E N → Bool
  | .nil => false
  | .cons _ pattern rest => pattern.binds || rest.anyBinds

end

mutual

/-- What a pattern that matches binds, in order. -/
def Pattern.captures : Pattern E N → Except X V → Except X (List (N × V))
  | .matchValue _, _ | .matchSingleton _, _ => pure []
  | .matchOr patterns, c => if patterns.anyBinds then patterns.firstCaptures c else pure []
  | .matchSequence patterns, c =>
    patterns.itemCaptures c patterns.starIndex patterns.length 0
  | .matchStar name, c => captured name (do objs.unary .list (← c))
  | .matchMapping entries rest, c =>
    joined (entries.captures c) (captured rest (restItems objs env c entries.keys))
  | .matchClass cls positional keywords, c =>
    joined (positional.attrCaptures cls c positional.length 0) (keywords.captures c)
  | .matchAs pattern name, c => joined (pattern.captures c) (captured name c)
  | .capture name, c => captured name c

/-- The captures of the first alternative that matches. -/
def Patterns.firstCaptures : Patterns E N → Except X V → Except X (List (N × V))
  | .nil, _ => pure []
  | .cons pattern rest, c => do
    if ← pattern.matches objs env c then pattern.captures c else rest.firstCaptures c

def Patterns.itemCaptures :
    Patterns E N → Except X V → Option ℕ → ℕ → ℕ → Except X (List (N × V))
  | .nil, _, _, _, _ => pure []
  | .cons pattern rest, c, star, total, i =>
    joined
      (if star = some i then captured pattern.starName (starValue objs c i total)
        else pattern.captures (itemAt objs c star total i))
      (rest.itemCaptures c star total (i + 1))

def Patterns.attrCaptures :
    Patterns E N → E → Except X V → ℕ → ℕ → Except X (List (N × V))
  | .nil, _, _, _, _ => pure []
  | .cons pattern rest, cls, c, total, i =>
    joined (pattern.captures (do objs.binary (.attrValue i total) (← objs.source cls env) (← c)))
      (rest.attrCaptures cls c total (i + 1))

def Entries.captures : Entries E N → Except X V → Except X (List (N × V))
  | .nil, _ => pure []
  | .cons key pattern rest, c =>
    joined (pattern.captures (do objs.binary .item (← c) (← objs.source key env)))
      (rest.captures c)

def Keywords.captures : Keywords E N → Except X V → Except X (List (N × V))
  | .nil, _ => pure []
  | .cons attr pattern rest, c =>
    joined (pattern.captures (do objs.unary (.getattr attr) (← c))) (rest.captures c)

end

end Meaning

/-! ## Tests -/

section Both

variable (a b c : Except X Bool)

@[simp] theorem both_true : both (pure true) b = b := rfl

theorem both_pure (a : Except X Bool) : both a (pure true) = a := by
  cases a with
  | error e => rfl
  | ok a => cases a <;> rfl

theorem both_assoc : both (both a b) c = both a (both b c) := by
  cases a with
  | error e => rfl
  | ok a => cases a <;> rfl

end Both

section Tests

variable (env : Env N V) (v : V)

theorem allHold_append (ts us : List (MatchTest E)) :
    allHold objs env v (ts ++ us) = both (allHold objs env v ts) (allHold objs env v us) := by
  induction ts with
  | nil => rfl
  | cons t ts ih =>
    show both (t.holds objs env v) (allHold objs env v (ts ++ us)) = _
    rw [ih, ← both_assoc]
    rfl

/-- A test that a wildcard leaves out. -/
theorem allHold_toList_append (t : Option (MatchTest E)) (us : List (MatchTest E)) :
    allHold objs env v (t.toList ++ us) =
      both ((t.getD .always).holds objs env v) (allHold objs env v us) := by
  cases t with
  | none => rfl
  | some t => rfl

theorem pure_def {A : Type} (a : A) : (pure a : Except X A) = .ok a := rfl

theorem eval_element (s : MatchExpr E) (star : Option ℕ) (total i : ℕ) :
    (element s star total i).eval objs env v = itemAt objs (s.eval objs env v) star total i := by
  unfold element itemAt
  cases star with
  | none => rfl
  | some k =>
    simp only
    split
    · rfl
    · simp only [MatchExpr.eval]
      cases s.eval objs env v with
      | error e => rfl
      | ok w => simp only [← pure_def, pure_bind, bind_assoc]

theorem eval_starItems (s : MatchExpr E) (k total : ℕ) :
    (starItems s k total).eval objs env v = starValue objs (s.eval objs env v) k total := by
  unfold starItems starValue
  simp only [MatchExpr.eval]
  cases s.eval objs env v with
  | error e => rfl
  | ok w => simp only [← pure_def, pure_bind, bind_assoc]

theorem holds_lengthTest (s : MatchExpr E) (star : Option ℕ) (total : ℕ) :
    (lengthTest s star total).holds objs env v =
      lengthOk objs (s.eval objs env v) star total := by
  cases star with
  | none =>
    unfold lengthTest lengthOk holdsOf
    simp only [MatchTest.holds, MatchExpr.eval]
    cases s.eval objs env v with
    | error e => rfl
    | ok w => simp only [← pure_def, pure_bind, bind_assoc]
  | some k =>
    unfold lengthTest lengthOk holdsOf
    simp only [MatchTest.holds, MatchExpr.eval]
    cases s.eval objs env v with
    | error e => rfl
    | ok w => simp only [← pure_def, pure_bind, bind_assoc]

theorem allHold_sequenceTests (s : MatchExpr E) :
    allHold objs env v (sequenceTests s) = isSequence objs (s.eval objs env v) := by
  show both _ (both _ (both _ (pure true))) = _
  rw [both_pure]
  rfl

mutual

/-- The test of a pattern says whether it matches. -/
theorem holds_testForPattern (p : Pattern E N) (s : MatchExpr E) :
    ((testForPattern p s).test.getD .always).holds objs env v =
      p.matches objs env (s.eval objs env v) :=
  match p with
  | .matchValue _ | .matchSingleton _ | .capture _ => rfl
  | .matchOr patterns => anyHolds_orBranches patterns s
  | .matchSequence patterns => by
    show allHold objs env v (sequenceTests s ++
      lengthTest s patterns.starIndex patterns.length ::
        (elementTests s patterns.starIndex patterns.length patterns 0).1) = _
    rw [allHold_append, allHold_sequenceTests]
    show both _ (both ((lengthTest s patterns.starIndex patterns.length).holds objs env v) _) = _
    rw [holds_lengthTest, allHold_elementTests patterns]
    rfl
  | .matchStar _ => allHold_sequenceTests objs env v s
  | .matchMapping entries _ => by
    show both _ (both _ (allHold objs env v (entryTests s entries).1)) = _
    rw [allHold_entryTests entries]
    rfl
  | .matchClass cls positional keywords => by
    show both _ (allHold objs env v ((positionalTests cls s positional.length positional 0).1 ++
      (keywordTests s keywords).1)) = _
    rw [allHold_append, allHold_positionalTests positional, allHold_keywordTests keywords]
    rfl
  | .matchAs pattern _ => holds_testForPattern pattern s

theorem anyHolds_orBranches (ps : Patterns E N) (s : MatchExpr E) :
    anyHolds objs env v ((orBranches ps s).map Prod.fst) =
      ps.anyMatches objs env (s.eval objs env v) :=
  match ps with
  | .nil => rfl
  | .cons pattern rest => by
    show either (((testForPattern pattern s).test.getD .always).holds objs env v)
      (anyHolds objs env v ((orBranches rest s).map Prod.fst)) = _
    rw [holds_testForPattern pattern, anyHolds_orBranches rest]
    rfl

theorem allHold_elementTests (ps : Patterns E N) (s : MatchExpr E) (star : Option ℕ)
    (total i : ℕ) :
    allHold objs env v (elementTests s star total ps i).1 =
      ps.itemsMatch objs env (s.eval objs env v) star total i :=
  match ps with
  | .nil => rfl
  | .cons pattern rest => by
    have ih := allHold_elementTests rest s star total (i + 1)
    unfold elementTests Patterns.itemsMatch
    split
    · cases pattern <;> exact ih
    · rw [allHold_toList_append, holds_testForPattern pattern, eval_element, ih]

theorem allHold_entryTests (entries : Entries E N) (s : MatchExpr E) :
    allHold objs env v (entryTests s entries).1 =
      entries.allMatch objs env (s.eval objs env v) :=
  match entries with
  | .nil => rfl
  | .cons key pattern rest => by
    unfold entryTests Entries.allMatch
    show both _ (allHold objs env v ((testForPattern pattern _).test.toList ++
      (entryTests s rest).1)) = _
    rw [allHold_toList_append, holds_testForPattern pattern, allHold_entryTests rest]
    rfl

theorem allHold_positionalTests (ps : Patterns E N) (cls : E) (s : MatchExpr E) (total i : ℕ) :
    allHold objs env v (positionalTests cls s total ps i).1 =
      ps.attrsMatch objs env cls (s.eval objs env v) total i :=
  match ps with
  | .nil => rfl
  | .cons pattern rest => by
    unfold positionalTests Patterns.attrsMatch
    show both _ (allHold objs env v ((testForPattern pattern _).test.toList ++
      (positionalTests cls s total rest (i + 1)).1)) = _
    rw [allHold_toList_append, holds_testForPattern pattern, allHold_positionalTests rest]
    rfl

theorem allHold_keywordTests (keywords : Keywords E N) (s : MatchExpr E) :
    allHold objs env v (keywordTests s keywords).1 =
      keywords.allMatch objs env (s.eval objs env v) :=
  match keywords with
  | .nil => rfl
  | .cons attr pattern rest => by
    unfold keywordTests Keywords.allMatch
    show both _ (allHold objs env v ((testForPattern pattern _).test.toList ++
      (keywordTests s rest).1)) = _
    rw [allHold_toList_append, holds_testForPattern pattern, allHold_keywordTests rest]
    rfl

end

end Tests

end Running

end DietPython.Matching
