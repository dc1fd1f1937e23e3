import DietPython.Matching.Meaning

/-!
# What patterns bind

The assignments of a pattern run after its test, one by one, and evaluate the subject, the keys and
the classes of the pattern again. When none of these reads a name that the pattern binds, they bind
the captures of the pattern, whatever they have bound on the way.
-/

namespace DietPython.Matching

variable {V X E N : Type}

/-! ## What a pattern evaluates and binds -/

section Parts

variable (P : E → Prop) (Q : N → Prop)

mutual

/-- What the pattern evaluates: values, keys and classes. -/
def Pattern.Sources : Pattern E N → Prop
  | .matchValue value => P value
  | .matchSingleton _ | .matchStar _ | .capture _ => True
  | .matchOr patterns | .matchSequence patterns => patterns.Sources
  | .matchMapping entries _ => entries.Sources
  | .matchClass cls positional keywords => P cls ∧ positional.Sources ∧ keywords.Sources
  | .matchAs pattern _ => pattern.Sources

def Patterns.Sources : Patterns E N → Prop
  | .nil => True
  | .cons pattern rest => pattern.Sources ∧ rest.Sources

def Entries.Sources : Entries E N → Prop
  | .nil => True
  | .cons key pattern rest => P key ∧ pattern.Sources ∧ rest.Sources

def Keywords.Sources : Keywords E N → Prop
  | .nil => True
  | .cons _ pattern rest => pattern.Sources ∧ rest.Sources

end

mutual

/-- The names in a pattern. -/
def Pattern.Names : Pattern E N → Prop
  | .matchValue _ | .matchSingleton _ => True
  | .matchStar name | .capture name => ∀ n, name = some n → Q n
  | .matchOr patterns | .matchSequence patterns => patterns.Names
  | .matchMapping entries rest => entries.Names ∧ ∀ n, rest = some n → Q n
  | .matchClass _ positional keywords => positional.Names ∧ keywords.Names
  | .matchAs pattern name => pattern.Names ∧ ∀ n, name = some n → Q n

def Patterns.Names : Patterns E N → Prop
  | .nil => True
  | .cons pattern rest => pattern.Names ∧ rest.Names

def Entries.Names : Entries E N → Prop
  | .nil => True
  | .cons _ pattern rest => pattern.Names ∧ rest.Names

def Keywords.Names : Keywords E N → Prop
  | .nil => True
  | .cons _ pattern rest => pattern.Names ∧ rest.Names

end

def MatchExpr.Sources : MatchExpr E → Prop
  | .tmp | .singleton _ | .integer _ => True
  | .source e => P e
  | .unary _ x => x.Sources
  | .binary _ x y => x.Sources ∧ y.Sources
  | .slice x i j => x.Sources ∧ i.Sources ∧ j.Sources

end Parts

theorem Entries.sources_keys {P : E → Prop} {entries : Entries E N} (h : entries.Sources P) :
    ∀ key ∈ entries.keys, P key := by
  match entries with
  | .nil =>
    intro key hk
    cases hk
  | .cons key pattern rest =>
    intro key' hk
    rcases List.mem_cons.mp hk with rfl | hk
    · exact h.1
    · exact Entries.sources_keys h.2.2 key' hk

theorem sources_element {P : E → Prop} {s : MatchExpr E} (hs : s.Sources P) (star : Option ℕ)
    (total i : ℕ) : (element s star total i).Sources P := by
  unfold element
  cases star with
  | none => exact ⟨hs, trivial⟩
  | some k =>
    simp only
    split
    · exact ⟨hs, trivial⟩
    · exact ⟨hs, hs, trivial⟩

/-! ## Names that do not matter -/

section Fixed

variable (objs : MatchObjects V X E N) (names : N → Prop) (env₀ : Env N V)

/-- The same up to the names that a pattern binds. -/
def Agree (env : Env N V) : Prop := ∀ n, ¬ names n → env n = env₀ n

/-- The expression reads no name that a pattern binds. -/
def Fixed (e : E) : Prop :=
  ∀ env, Agree names env₀ env → objs.source e env = objs.source e env₀

variable {objs names env₀} {env : Env N V}

theorem eval_congr (hagree : Agree names env₀ env) {s : MatchExpr E}
    (hs : s.Sources (Fixed objs names env₀)) (v : V) :
    s.eval objs env v = s.eval objs env₀ v := by
  induction s with
  | tmp | singleton | integer => rfl
  | source e => exact hs env hagree
  | unary op x ih =>
    unfold MatchExpr.eval
    rw [ih hs]
  | binary op x y ihx ihy =>
    unfold MatchExpr.eval
    rw [ihx hs.1, ihy hs.2]
  | slice x i j ihx ihi ihj =>
    unfold MatchExpr.eval
    rw [ihx hs.1, ihi hs.2.1, ihj hs.2.2]

mutual

theorem matches_congr (hagree : Agree names env₀ env) {p : Pattern E N}
    (hp : p.Sources (Fixed objs names env₀))
    (c : Except X V) : p.matches objs env c = p.matches objs env₀ c := by
  match p with
  | .matchValue value =>
    unfold Pattern.matches
    rw [hp env hagree]
  | .matchSingleton _ | .matchStar _ | .capture _ => rfl
  | .matchOr patterns => exact anyMatches_congr hagree hp c
  | .matchSequence patterns =>
    unfold Pattern.matches
    rw [itemsMatch_congr hagree hp]
  | .matchMapping entries _ =>
    unfold Pattern.matches
    rw [entriesMatch_congr hagree hp]
  | .matchClass cls positional keywords =>
    unfold Pattern.matches
    rw [hp.1 env hagree, attrsMatch_congr hagree hp.2.1 (hp.1 env hagree),
      keywordsMatch_congr hagree hp.2.2]
  | .matchAs pattern _ => exact matches_congr (p := pattern) hagree hp c

theorem anyMatches_congr (hagree : Agree names env₀ env) {ps : Patterns E N}
    (hp : ps.Sources (Fixed objs names env₀))
    (c : Except X V) : ps.anyMatches objs env c = ps.anyMatches objs env₀ c := by
  match ps with
  | .nil => rfl
  | .cons pattern rest =>
    unfold Patterns.anyMatches
    rw [matches_congr hagree hp.1, anyMatches_congr hagree hp.2]

theorem itemsMatch_congr (hagree : Agree names env₀ env) {ps : Patterns E N}
    (hp : ps.Sources (Fixed objs names env₀)) (c : Except X V) (star : Option ℕ) (total i : ℕ) :
    ps.itemsMatch objs env c star total i = ps.itemsMatch objs env₀ c star total i := by
  match ps with
  | .nil => rfl
  | .cons pattern rest =>
    unfold Patterns.itemsMatch
    rw [matches_congr hagree hp.1, itemsMatch_congr hagree hp.2]

theorem attrsMatch_congr (hagree : Agree names env₀ env) {ps : Patterns E N}
    (hp : ps.Sources (Fixed objs names env₀))
    {cls : E} (hc : objs.source cls env = objs.source cls env₀) (c : Except X V) (total i : ℕ) :
    ps.attrsMatch objs env cls c total i = ps.attrsMatch objs env₀ cls c total i := by
  match ps with
  | .nil => rfl
  | .cons pattern rest =>
    unfold Patterns.attrsMatch
    rw [matches_congr hagree hp.1, attrsMatch_congr hagree hp.2 hc, hc]

theorem entriesMatch_congr (hagree : Agree names env₀ env) {entries : Entries E N}
    (hp : entries.Sources (Fixed objs names env₀)) (c : Except X V) :
    entries.allMatch objs env c = entries.allMatch objs env₀ c := by
  match entries with
  | .nil => rfl
  | .cons key pattern rest =>
    unfold Entries.allMatch
    rw [matches_congr hagree hp.2.1, entriesMatch_congr hagree hp.2.2, hp.1 env hagree]

theorem keywordsMatch_congr (hagree : Agree names env₀ env) {keywords : Keywords E N}
    (hp : keywords.Sources (Fixed objs names env₀)) (c : Except X V) :
    keywords.allMatch objs env c = keywords.allMatch objs env₀ c := by
  match keywords with
  | .nil => rfl
  | .cons attr pattern rest =>
    unfold Keywords.allMatch
    rw [matches_congr hagree hp.1, keywordsMatch_congr hagree hp.2]

end

end Fixed

/-! ## Assignments -/

section Assigns

variable [DecidableEq N] (objs : MatchObjects V X E N) (names : N → Prop) (env₀ : Env N V) (v : V)

/-- Bind captures in order. -/
def bindAll (env : Env N V) (captures : List (N × V)) : Env N V :=
  captures.foldl (fun env c => Function.update env c.1 (some c.2)) env

theorem bindAll_append (env : Env N V) (xs ys : List (N × V)) :
    bindAll env (xs ++ ys) = bindAll (bindAll env xs) ys :=
  List.foldl_append

theorem agree_update {env : Env N V} (h : Agree names env₀ env) {n : N} (hn : names n)
    (w : Option V) : Agree names env₀ (Function.update env n w) := by
  intro m hm
  rw [Function.update_of_ne, h m hm]
  rintro rfl
  exact hm hn

theorem agree_bindAll {env : Env N V} (h : Agree names env₀ env) {bs : List (N × V)}
    (hb : ∀ b ∈ bs, names b.1) : Agree names env₀ (bindAll env bs) := by
  induction bs generalizing env with
  | nil => exact h
  | cons b bs ih =>
    exact ih (agree_update names env₀ h (hb b (by simp)) _)
      fun c hc => hb c (List.mem_cons_of_mem _ hc)

theorem execAll_append (as bs : List (AssignStmt E N)) (env : Env N V) :
    execAll objs v (as ++ bs) env = execAll objs v as env >>= execAll objs v bs := by
  induction as generalizing env with
  | nil => rfl
  | cons a as ih =>
    show (a.exec objs v env >>= fun env => execAll objs v (as ++ bs) env) = _
    simp only [ih]
    show _ = (a.exec objs v env >>= execAll objs v as) >>= execAll objs v bs
    rw [bind_assoc]

theorem execAll_singleton (a : AssignStmt E N) (env : Env N V) :
    execAll objs v [a] env = a.exec objs v env := by
  show (a.exec objs v env >>= pure) = _
  rw [bind_pure]

theorem exec_assign (name : N) (value : MatchExpr E) (env : Env N V) :
    (AssignStmt.assign name value).exec objs v env = (do
      pure (Function.update env name (some (← value.eval objs env v)))) := rfl

/-- These assignments bind these captures, wherever only names of the pattern have changed. -/
def Binds (captures : Except X (List (N × V))) (assigns : List (AssignStmt E N)) : Prop :=
  (∀ bs, captures = .ok bs → ∀ b ∈ bs, names b.1) ∧
    ∀ env, Agree names env₀ env → execAll objs v assigns env = bindAll env <$> captures

variable {objs names env₀ v}

theorem Binds.nil : Binds objs names env₀ v (pure []) [] := by
  refine ⟨?_, fun env _ => rfl⟩
  intro bs hb b hm
  cases hb
  cases hm

theorem Binds.append {a b : Except X (List (N × V))} {as bs : List (AssignStmt E N)}
    (ha : Binds objs names env₀ v a as) (hb : Binds objs names env₀ v b bs) :
    Binds objs names env₀ v (joined a b) (as ++ bs) := by
  refine ⟨?_, ?_⟩
  · intro xs hx c hc
    cases a with
    | error e => cases hx
    | ok ys =>
      cases b with
      | error e => cases hx
      | ok zs =>
        cases hx
        rcases List.mem_append.mp hc with hc | hc
        · exact ha.1 ys rfl c hc
        · exact hb.1 zs rfl c hc
  · intro env he
    rw [execAll_append, ha.2 env he]
    cases a with
    | error e => rfl
    | ok ys =>
      show execAll objs v bs (bindAll env ys) = _
      rw [hb.2 _ (agree_bindAll names env₀ he (ha.1 ys rfl))]
      cases b with
      | error e => rfl
      | ok zs =>
        show Except.ok (bindAll (bindAll env ys) zs) = Except.ok (bindAll env (ys ++ zs))
        rw [bindAll_append]

theorem Binds.captured {name : Option N} {value : MatchExpr E} {c : Except X V}
    (hn : ∀ n, name = some n → names n)
    (hv : ∀ env, Agree names env₀ env → value.eval objs env v = c) :
    Binds objs names env₀ v (captured name c) (assignName name value) := by
  cases name with
  | none => exact Binds.nil
  | some n =>
    refine ⟨?_, ?_⟩
    · intro bs hb b hm
      cases c with
      | error e => cases hb
      | ok w =>
        cases hb
        rw [List.mem_singleton.mp hm]
        exact hn n rfl
    · intro env he
      show execAll objs v [.assign n value] env = _
      rw [execAll_singleton]
      show (do pure (Function.update env n (some (← value.eval objs env v)))) = _
      rw [hv env he]
      cases c <;> rfl

/-- The keys are taken out one by one. -/
theorem execAll_pops {name : N} (hn : names name) {keys : List E}
    (hk : ∀ key ∈ keys, Fixed objs names env₀ key) {env : Env N V} (he : Agree names env₀ env)
    (d : V) :
    execAll objs v (keys.map fun key => .pop name (.source key))
        (Function.update env name (some d)) =
      (fun d => Function.update env name (some d)) <$>
        keys.foldlM (fun d key => do objs.pop d (← objs.source key env₀)) d := by
  induction keys generalizing d with
  | nil => rfl
  | cons key keys ih =>
    rw [List.map_cons, List.foldlM_cons]
    show ((AssignStmt.pop name (.source key)).exec objs v (Function.update env name (some d)) >>=
      execAll objs v (keys.map fun key => .pop name (.source key))) = _
    unfold AssignStmt.exec MatchExpr.eval
    rw [Function.update_self, hk key (by simp) _ (agree_update names env₀ he hn _)]
    cases objs.source key env₀ with
    | error e => rfl
    | ok k =>
      show ((do pure (Function.update (Function.update env name (some d)) name
        (some (← objs.pop d k)))) >>= _) = (_ <$> (objs.pop d k >>= _))
      cases objs.pop d k with
      | error e => rfl
      | ok d' =>
        show execAll objs v _ (Function.update (Function.update env name (some d)) name (some d'))
          = _
        rw [Function.update_idem]
        exact ih (fun key' hm => hk key' (List.mem_cons_of_mem _ hm)) d'

theorem Binds.restAssigns {name : N} (hn : names name) {keys : List E}
    (hk : ∀ key ∈ keys, Fixed objs names env₀ key) {s : MatchExpr E}
    (hs : s.Sources (Fixed objs names env₀)) :
    Binds objs names env₀ v
      (Matching.captured (some name) (restItems objs env₀ (s.eval objs env₀ v) keys))
      (Matching.restAssigns name s keys) := by
  refine ⟨?_, ?_⟩
  · intro bs hb b hm
    cases hr : restItems objs env₀ (s.eval objs env₀ v) keys with
    | error e =>
      rw [hr] at hb
      cases hb
    | ok w =>
      rw [hr] at hb
      cases hb
      rw [List.mem_singleton.mp hm]
      exact hn
  · intro env he
    show ((AssignStmt.assign name (.unary .dict s)).exec objs v env >>=
      execAll objs v (keys.map fun key => .pop name (.source key))) = _
    have hd : (MatchExpr.unary .dict s).eval objs env v =
        (do objs.unary .dict (← s.eval objs env v)) := rfl
    rw [exec_assign, hd, eval_congr he hs]
    unfold restItems
    cases s.eval objs env₀ v with
    | error e => rfl
    | ok w =>
      simp only [← pure_def, pure_bind]
      cases objs.unary .dict w with
      | error e => rfl
      | ok d =>
        show execAll objs v _ (Function.update env name (some d)) = _
        rw [execAll_pops hn hk he d]
        show _ = bindAll env <$> Matching.captured (some name) (keys.foldlM _ d)
        cases keys.foldlM (fun d key => do objs.pop d (← objs.source key env₀)) d <;> rfl

omit [DecidableEq N] in
/-- A test in a state that differs in the names of the pattern only. -/
theorem holds_of_agree {p : Pattern E N} (hp : p.Sources (Fixed objs names env₀))
    {s : MatchExpr E} (hs : s.Sources (Fixed objs names env₀)) {env : Env N V}
    (he : Agree names env₀ env) :
    ((testForPattern p s).test.getD .always).holds objs env v =
      p.matches objs env₀ (s.eval objs env₀ v) := by
  rw [holds_testForPattern, eval_congr he hs, matches_congr he hp]

theorem Binds.ite {p : Pattern E N} (hp : p.Sources (Fixed objs names env₀))
    {s : MatchExpr E} (hs : s.Sources (Fixed objs names env₀))
    {a b : Except X (List (N × V))} {as bs : List (AssignStmt E N)}
    (ha : Binds objs names env₀ v a as) (hb : Binds objs names env₀ v b bs) :
    Binds objs names env₀ v
      (do if ← p.matches objs env₀ (s.eval objs env₀ v) then a else b)
      [.ifElse ((testForPattern p s).test.getD .always) as bs] := by
  have hexec : ∀ env, Agree names env₀ env →
      execAll objs v [.ifElse ((testForPattern p s).test.getD .always) as bs] env = (do
        if ← p.matches objs env₀ (s.eval objs env₀ v) then execAll objs v as env
        else execAll objs v bs env) := by
    intro env he
    rw [execAll_singleton, ← holds_of_agree hp hs he]
    rfl
  refine ⟨?_, ?_⟩
  · intro xs hx
    cases hm : p.matches objs env₀ (s.eval objs env₀ v) with
    | error e =>
      rw [hm] at hx
      cases hx
    | ok m =>
      rw [hm] at hx
      cases m with
      | true => exact ha.1 xs hx
      | false => exact hb.1 xs hx
  · intro env he
    rw [hexec env he]
    cases p.matches objs env₀ (s.eval objs env₀ v) with
    | error e => rfl
    | ok m =>
      cases m with
      | true => exact ha.2 env he
      | false => exact hb.2 env he

end Assigns

/-! ## Patterns without captures -/

section Empty

theorem isEmpty_append {A : Type} (xs ys : List A) :
    (xs ++ ys).isEmpty = (xs.isEmpty && ys.isEmpty) := by
  cases xs <;> rfl

theorem isEmpty_assignName (name : Option N) (value : MatchExpr E) :
    (assignName name value).isEmpty = !name.isSome := by
  cases name <;> rfl

mutual

theorem isEmpty_assigns (p : Pattern E N) (s : MatchExpr E) :
    (testForPattern p s).assigns.isEmpty = !p.binds := by
  match p with
  | .matchValue _ | .matchSingleton _ => rfl
  | .matchOr patterns =>
    unfold testForPattern Pattern.binds
    simp only
    rw [any_orBranches patterns]
    cases patterns.anyBinds <;> rfl
  | .matchSequence patterns => exact isEmpty_elementTests patterns s _ _ 0
  | .matchStar name => exact isEmpty_assignName name _
  | .matchMapping entries rest =>
    unfold testForPattern Pattern.binds
    simp only
    rw [isEmpty_append, isEmpty_entryTests entries, Bool.not_or]
    cases rest <;> rfl
  | .matchClass cls positional keywords =>
    unfold testForPattern Pattern.binds
    simp only
    rw [isEmpty_append, isEmpty_positionalTests positional, isEmpty_keywordTests keywords,
      Bool.not_or]
  | .matchAs pattern name =>
    unfold testForPattern Pattern.binds
    simp only
    rw [isEmpty_append, isEmpty_assigns pattern, isEmpty_assignName, Bool.not_or]
  | .capture name => exact isEmpty_assignName name s

theorem any_orBranches (ps : Patterns E N) (s : MatchExpr E) :
    ((orBranches ps s).any fun branch => !branch.2.isEmpty) = ps.anyBinds := by
  match ps with
  | .nil => rfl
  | .cons pattern rest =>
    unfold orBranches Patterns.anyBinds
    rw [List.any_cons, any_orBranches rest]
    simp only
    rw [isEmpty_assigns pattern, Bool.not_not]

theorem isEmpty_elementTests (ps : Patterns E N) (s : MatchExpr E) (star : Option ℕ)
    (total i : ℕ) : (elementTests s star total ps i).2.isEmpty = !ps.itemsBind star i := by
  match ps with
  | .nil => rfl
  | .cons pattern rest =>
    have ih := isEmpty_elementTests rest s star total (i + 1)
    unfold elementTests Patterns.itemsBind
    split
    · cases pattern with
      | matchStar name =>
        show (assignName name _ ++ _).isEmpty = _
        rw [isEmpty_append, isEmpty_assignName, ih, Bool.not_or]
        rfl
      | _ => simpa [Pattern.starName] using ih
    · simp only
      rw [isEmpty_append, isEmpty_assigns pattern, ih, Bool.not_or]

theorem isEmpty_entryTests (entries : Entries E N) (s : MatchExpr E) :
    (entryTests s entries).2.isEmpty = !entries.anyBinds := by
  match entries with
  | .nil => rfl
  | .cons key pattern rest =>
    unfold entryTests Entries.anyBinds
    simp only
    rw [isEmpty_append, isEmpty_assigns pattern, isEmpty_entryTests rest, Bool.not_or]

theorem isEmpty_positionalTests (ps : Patterns E N) (cls : E) (s : MatchExpr E) (total i : ℕ) :
    (positionalTests cls s total ps i).2.isEmpty = !ps.anyBinds := by
  match ps with
  | .nil => rfl
  | .cons pattern rest =>
    unfold positionalTests Patterns.anyBinds
    simp only
    rw [isEmpty_append, isEmpty_assigns pattern, isEmpty_positionalTests rest, Bool.not_or]

theorem isEmpty_keywordTests (keywords : Keywords E N) (s : MatchExpr E) :
    (keywordTests s keywords).2.isEmpty = !keywords.anyBinds := by
  match keywords with
  | .nil => rfl
  | .cons attr pattern rest =>
    unfold keywordTests Keywords.anyBinds
    simp only
    rw [isEmpty_append, isEmpty_assigns pattern, isEmpty_keywordTests rest, Bool.not_or]

end

end Empty

/-! ## The captures of patterns -/

section Captures

variable [DecidableEq N] {objs : MatchObjects V X E N} {names : N → Prop} {env₀ : Env N V} {v : V}

mutual

/-- The assignments of a pattern bind its captures. -/
theorem binds_testForPattern {p : Pattern E N} (hp : p.Sources (Fixed objs names env₀))
    (hn : p.Names names) {s : MatchExpr E} (hs : s.Sources (Fixed objs names env₀)) :
    Binds objs names env₀ v (p.captures objs env₀ (s.eval objs env₀ v))
      (testForPattern p s).assigns := by
  match p with
  | .matchValue _ | .matchSingleton _ => exact Binds.nil
  | .matchOr patterns =>
    have h : Binds objs names env₀ v _ [orChain (orBranches patterns s)] :=
      binds_orBranches hp hn hs
    unfold testForPattern Pattern.captures
    simp only
    rw [any_orBranches]
    cases patterns.anyBinds with
    | true => exact h
    | false => exact Binds.nil
  | .matchSequence patterns => exact binds_elementTests hp hn hs _ _ 0
  | .matchStar name =>
    refine Binds.captured hn fun env he => ?_
    show (do objs.unary .list (← s.eval objs env v)) = _
    rw [eval_congr he hs]
  | .matchMapping entries rest =>
    have h : Binds objs names env₀ v _ (entryTests s entries).2 := binds_entryTests hp hn.1 hs
    cases rest with
    | none => exact h.append Binds.nil
    | some name => exact h.append (Binds.restAssigns (hn.2 name rfl) (Entries.sources_keys hp) hs)
  | .matchClass cls positional keywords =>
    exact (binds_positionalTests hp.2.1 hn.1 hp.1 hs _ 0).append
      (binds_keywordTests hp.2.2 hn.2 hs)
  | .matchAs pattern name =>
    exact (binds_testForPattern (p := pattern) hp hn.1 hs).append
      (Binds.captured hn.2 fun env he => eval_congr he hs v)
  | .capture name => exact Binds.captured hn fun env he => eval_congr he hs v

theorem binds_orBranches {ps : Patterns E N} (hp : ps.Sources (Fixed objs names env₀))
    (hn : ps.Names names) {s : MatchExpr E} (hs : s.Sources (Fixed objs names env₀)) :
    Binds objs names env₀ v (ps.firstCaptures objs env₀ (s.eval objs env₀ v))
      [orChain (orBranches ps s)] := by
  match ps with
  | .nil =>
    refine ⟨?_, fun env _ => rfl⟩
    intro bs hb b hm
    cases hb
    cases hm
  | .cons pattern rest =>
    exact Binds.ite hp.1 hs (binds_testForPattern hp.1 hn.1 hs)
      (binds_orBranches hp.2 hn.2 hs)

theorem binds_elementTests {ps : Patterns E N} (hp : ps.Sources (Fixed objs names env₀))
    (hn : ps.Names names) {s : MatchExpr E} (hs : s.Sources (Fixed objs names env₀))
    (star : Option ℕ) (total i : ℕ) :
    Binds objs names env₀ v (ps.itemCaptures objs env₀ (s.eval objs env₀ v) star total i)
      (elementTests s star total ps i).2 := by
  match ps with
  | .nil => exact Binds.nil
  | .cons pattern rest =>
    have ih : Binds objs names env₀ v _ (elementTests s star total rest (i + 1)).2 :=
      binds_elementTests hp.2 hn.2 hs star total (i + 1)
    unfold elementTests Patterns.itemCaptures
    split
    · cases pattern with
      | matchStar name =>
        refine Binds.append (Binds.captured hn.1 fun env he => ?_) ih
        rw [eval_starItems, eval_congr he hs]
      | _ => exact Binds.append Binds.nil ih
    · have h : Binds objs names env₀ v _
          (testForPattern pattern (element s star total i)).assigns :=
        binds_testForPattern hp.1 hn.1 (sources_element hs star total i)
      rw [eval_element] at h
      exact h.append ih

theorem binds_entryTests {entries : Entries E N} (hp : entries.Sources (Fixed objs names env₀))
    (hn : entries.Names names) {s : MatchExpr E} (hs : s.Sources (Fixed objs names env₀)) :
    Binds objs names env₀ v (entries.captures objs env₀ (s.eval objs env₀ v))
      (entryTests s entries).2 := by
  match entries with
  | .nil => exact Binds.nil
  | .cons key pattern rest =>
    exact (binds_testForPattern hp.2.1 hn.1
      (s := .binary .item s (.source key)) ⟨hs, hp.1⟩).append (binds_entryTests hp.2.2 hn.2 hs)

theorem binds_positionalTests {ps : Patterns E N} (hp : ps.Sources (Fixed objs names env₀))
    (hn : ps.Names names) {cls : E} (hc : Fixed objs names env₀ cls) {s : MatchExpr E}
    (hs : s.Sources (Fixed objs names env₀)) (total i : ℕ) :
    Binds objs names env₀ v (ps.attrCaptures objs env₀ cls (s.eval objs env₀ v) total i)
      (positionalTests cls s total ps i).2 := by
  match ps with
  | .nil => exact Binds.nil
  | .cons pattern rest =>
    exact (binds_testForPattern hp.1 hn.1
      (s := .binary (.attrValue i total) (.source cls) s) ⟨hc, hs⟩).append
        (binds_positionalTests hp.2 hn.2 hc hs total (i + 1))

theorem binds_keywordTests {keywords : Keywords E N}
    (hp : keywords.Sources (Fixed objs names env₀)) (hn : keywords.Names names)
    {s : MatchExpr E} (hs : s.Sources (Fixed objs names env₀)) :
    Binds objs names env₀ v (keywords.captures objs env₀ (s.eval objs env₀ v))
      (keywordTests s keywords).2 := by
  match keywords with
  | .nil => exact Binds.nil
  | .cons attr pattern rest =>
    exact (binds_testForPattern hp.1 hn.1 (s := .unary (.getattr attr) s) hs).append
      (binds_keywordTests hp.2 hn.2 hs)

end

end Captures

end DietPython.Matching
