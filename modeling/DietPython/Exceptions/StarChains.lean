import DietPython.Exceptions.HandlerChains

/-!
# What an `except*` chain does

Each clause splits off its part of what the clauses before it have left over. Every leaf of the
exception is handled by the first clause that matches it, and what no clause matches is raised
again together with what the clauses raise, as long as the types split groups by their leaves, a
clause that raises leaves nothing over, and no handler changes `_dp_rest`, which an `except*`
inside of it does. For handlers that leave `_dp_rest` alone this is exact.
-/

namespace DietPython.Exceptions

open LeafTrees ControlFlow

variable {L G C N V St : Type} {l : Bool}

/-! ## Logs -/

namespace HandlerRun

variable (r : HandlerRun L G C N V St l)

/-- The leaves of the exception that the handler of a clause begins with. -/
def handledBy (n : ℕ) : List L :=
  r.log.flatMap fun
    | .entered m (some e) => if m = n then e.leaves else []
    | _ => []

/-- The leaves of what is raised on the way out. -/
def signalLeaves : Signal V (Tree L G) l → List L
  | .exc e => e.leaves
  | _ => []

/-- The leaves of what the handlers raise. -/
def raisedLeaves : List L :=
  r.log.flatMap fun
    | .left _ _ signal _ => signalLeaves signal
    | _ => []

end HandlerRun

section Star

variable (types : ExceptionTypes L G C St) (names : HandlerNames N (Tree L G) St)
  (x : Tree L G) (baseException : HandlerTypeExpr L G C St)

/-! ## What a chain is for -/

/-- The first of the tested clauses that matches a leaf. -/
def firstTaker (tested : List (ℕ × HandlerType C)) (leaf : L) : Option ℕ :=
  (tested.find? fun c => leafMatches types c.2 leaf).map Prod.fst

/-- Each leaf is handled by the first clause that matches it, and raised again when there is none.
-/
structure HandlesLeaves (leaves : List L) (r : HandlerRun L G C N V St l) : Prop where
  portions : ∀ n t, (n, t) ∈ r.testedTypes →
    r.handledBy n = leaves.filter fun leaf => firstTaker types r.testedTypes leaf == some n
  /-- Unless a type cannot be evaluated or used. -/
  reraises : (∀ n, .typeRaised n ∉ r.log) → (∀ n t, .refused n t ∉ r.log) →
    ∀ signal s, r.exit = some (signal, s) →
      (HandlerRun.signalLeaves signal).Perm
        (r.raisedLeaves ++
          leaves.filter fun leaf => (firstTaker types r.testedTypes leaf).isNone)

/-- A type splits an exception by its leaves: a group that matches has no other leaf, and for what
is no group `isinstance` answers as Python's match does. -/
def SplitsByLeaf (rest : Option (Tree L G)) (t : HandlerType C) (u : St) : Prop :=
  match rest with
  | none => True
  | some (.leaf leaf) =>
    ∀ b u', isinstance types (some (.leaf leaf)) t u = (.ok b, u') → b = leafMatches types t leaf
  | some (.group g children) =>
    (Tree.group g children).splitsByLeaf (leafMatches types t) (groupMatches types t) = true

/-- The state with `_dp_match` bound. -/
def bindMatched (name : N) (s : HandlerState (Tree L G) St) : HandlerState (Tree L G) St :=
  s.setUser (names.bind name s.matched s.user)

/-- The types that are reached split by leaves, a handler that is done has the rest as it was, and
one that leaves in another way leaves no rest. -/
def ThreadsRest : List (Handler L G C N V St l) → HandlerState (Tree L G) St → Prop
  | [], _ => True
  | h :: hs, s =>
    match h.type_.getD baseException s.user with
    | (.error _, _) => True
    | (.ok t, u) =>
      match exceptiongroupSplit types s.rest t u with
      | (.error _, _) => True
      | (.ok (none, r), u') =>
        SplitsByLeaf types s.rest t u ∧ ThreadsRest hs ⟨u', s.exc, none, r⟩
      | (.ok (some m, r), u') =>
        SplitsByLeaf types s.rest t u ∧
          match h.exit names (bindMatched names) ⟨u', s.exc, some m, r⟩ with
          | none => True
          | some (.normal, s') => leavesOf s'.rest = leavesOf r ∧ ThreadsRest hs s'
          | some (_, _) => r = none

/-- No `except*` inside the handler changes `_dp_rest`. -/
def Handler.LeavesRestAlone (h : Handler L G C N V St l) : Prop :=
  ∀ s signal s', h.body s = some (signal, s') → s'.rest = s.rest

/-! ## Splits -/

theorem leavesOf_split {rest : Option (Tree L G)} {t : HandlerType C} {u u' : St}
    {m r : Option (Tree L G)} (h : exceptiongroupSplit types rest t u = (.ok (m, r), u')) :
    (SplitsByLeaf types rest t u ↔ leavesOf m = (leavesOf rest).filter (leafMatches types t)) ∧
      (SplitsByLeaf types rest t u →
        leavesOf r = (leavesOf rest).filter fun leaf => !leafMatches types t leaf) := by
  unfold exceptiongroupSplit at h
  unfold SplitsByLeaf
  split at h
  · cases rest with
    | none =>
      simp only at h
      rcases hi : isinstance types none t u with ⟨e | b, u1⟩
      · simp [hi] at h
      · cases b <;>
        · simp only [hi, Prod.mk.injEq, Except.ok.injEq] at h
          obtain ⟨⟨rfl, rfl⟩, -⟩ := h
          simp
    | some exc =>
      cases exc with
      | leaf leaf =>
        simp only at h
        rcases hi : isinstance types (some (.leaf leaf)) t u with ⟨e | b, u1⟩
        · simp [hi] at h
        · cases b <;>
          · simp only [hi, Prod.mk.injEq, Except.ok.injEq] at h
            obtain ⟨⟨rfl, rfl⟩, -⟩ := h
            cases hm : leafMatches types t leaf <;> simp [hm, hi, Tree.leaves]
      | group g children =>
        simp only at h
        split at h
        · simp only [Prod.mk.injEq, Except.ok.injEq] at h
          obtain ⟨h, -⟩ := h
          have h1 : m = _ := (congrArg Prod.fst h).symm
          have h2 : r = _ := (congrArg Prod.snd h).symm
          rw [h1, h2]
          exact ⟨Tree.splitsByLeaf_iff _ _ _ _, fun hs => Tree.split_snd _ _ _ hs⟩
        · simp at h
  · simp at h

/-! ## Steps of a chain -/

/-- The numbers in a log are not below `k`. -/
def NotBelow (k : ℕ) (r : HandlerRun L G C N V St l) : Prop :=
  (∀ c ∈ r.testedTypes, k ≤ c.1) ∧ ∀ n < k, r.handledBy n = []

theorem firstTaker_cons (n : ℕ) (t : HandlerType C) (tested : List (ℕ × HandlerType C))
    (leaf : L) :
    firstTaker types ((n, t) :: tested) leaf =
      if leafMatches types t leaf then some n else firstTaker types tested leaf := by
  unfold firstTaker
  cases h : leafMatches types t leaf with
  | true => simp [h]
  | false => simp [h]

theorem firstTaker_ge {k : ℕ} {tested : List (ℕ × HandlerType C)} (h : ∀ c ∈ tested, k ≤ c.1)
    {leaf : L} {n : ℕ} (hn : firstTaker types tested leaf = some n) : k ≤ n := by
  unfold firstTaker at hn
  obtain ⟨c, hc, rfl⟩ := Option.map_eq_some_iff.mp hn
  exact h c (List.mem_of_find?_eq_some hc)

section Leaves

variable (k : ℕ) (t : HandlerType C) (tested : List (ℕ × HandlerType C)) (leaves : List L)

/-- The portion of the first clause. -/
theorem filter_firstTaker_self (h : ∀ c ∈ tested, k < c.1) :
    (leaves.filter fun leaf => firstTaker types ((k, t) :: tested) leaf == some k) =
      leaves.filter (leafMatches types t) := by
  refine List.filter_congr fun leaf _ => ?_
  rw [firstTaker_cons]
  cases hm : leafMatches types t leaf with
  | true => simp
  | false =>
    simp only [Bool.false_eq_true, if_false]
    by_contra hc
    have hk : firstTaker types tested leaf = some k := by simpa using hc
    exact absurd (firstTaker_ge types h hk) (Nat.not_succ_le_self k)

/-- The portions of the others come from what the first clause leaves over. -/
theorem filter_firstTaker_ne {n : ℕ} (h : k ≠ n) :
    (leaves.filter fun leaf => firstTaker types ((k, t) :: tested) leaf == some n) =
      (leaves.filter fun leaf => !leafMatches types t leaf).filter fun leaf =>
        firstTaker types tested leaf == some n := by
  rw [List.filter_filter]
  refine List.filter_congr fun leaf _ => ?_
  rw [firstTaker_cons]
  cases leafMatches types t leaf <;> simp [h]

theorem filter_firstTaker_isNone :
    (leaves.filter fun leaf => (firstTaker types ((k, t) :: tested) leaf).isNone) =
      (leaves.filter fun leaf => !leafMatches types t leaf).filter fun leaf =>
        (firstTaker types tested leaf).isNone := by
  rw [List.filter_filter]
  refine List.filter_congr fun leaf _ => ?_
  rw [firstTaker_cons]
  cases leafMatches types t leaf <;> simp

end Leaves

/-- A log alone. -/
def logOnly (events : List (ClauseEvent L G C N V St l)) : HandlerRun L G C N V St l :=
  ⟨events, none⟩

section After

variable (events : List (ClauseEvent L G C N V St l)) (r : HandlerRun L G C N V St l)

theorem testedTypes_after :
    (r.after events).testedTypes = (logOnly events).testedTypes ++ r.testedTypes :=
  List.filterMap_append

theorem handledBy_after (n : ℕ) :
    (r.after events).handledBy n = (logOnly events).handledBy n ++ r.handledBy n :=
  List.flatMap_append

theorem raisedLeaves_after :
    (r.after events).raisedLeaves = (logOnly events).raisedLeaves ++ r.raisedLeaves :=
  List.flatMap_append

end After

/-- The log of a clause in front of the others: its portion has to be what matches of the leaves,
and the others have what it leaves over. -/
theorem handlesLeaves_after {k : ℕ} {t : HandlerType C} {leaves : List L}
    {events : List (ClauseEvent L G C N V St l)} {r : HandlerRun L G C N V St l}
    {taken : List L} (hr : NotBelow (k + 1) r)
    (htested : (logOnly events).testedTypes = []) (htype : ∀ n, .typeRaised n ∉ events)
    (hrefused : ∀ n t, .refused n t ∉ events)
    (htaken : ∀ n, (logOnly events).handledBy n = if k = n then taken else [])
    (hraised : (logOnly events).raisedLeaves = []) :
    HandlesLeaves types leaves (r.after (.tested k t :: events)) ↔
      taken = leaves.filter (leafMatches types t) ∧
        HandlesLeaves types (leaves.filter fun leaf => !leafMatches types t leaf) r := by
  have ht : (r.after (.tested k t :: events)).testedTypes = (k, t) :: r.testedTypes := by
    rw [testedTypes_after]
    show (k, t) :: (logOnly events).testedTypes ++ r.testedTypes = _
    rw [htested]
    rfl
  have hh : ∀ n, (r.after (.tested k t :: events)).handledBy n =
      (if k = n then taken else []) ++ r.handledBy n := by
    intro n
    rw [← htaken n, handledBy_after]
    rfl
  have hx : (r.after (.tested k t :: events)).raisedLeaves = r.raisedLeaves := by
    rw [raisedLeaves_after]
    show (logOnly events).raisedLeaves ++ r.raisedLeaves = _
    rw [hraised, List.nil_append]
  have hmem : ∀ e, e ∉ events → (e ∈ (r.after (.tested k t :: events)).log ↔
      e = .tested k t ∨ e ∈ r.log) := by
    intro e he
    unfold HandlerRun.after
    simp [he]
  have htype' : ∀ n, .typeRaised n ∈ (r.after (.tested k t :: events)).log ↔
      .typeRaised n ∈ r.log := by
    intro n
    rw [hmem _ (htype n)]
    simp
  have hrefused' : ∀ n t', .refused n t' ∈ (r.after (.tested k t :: events)).log ↔
      .refused n t' ∈ r.log := by
    intro n t'
    rw [hmem _ (hrefused n t')]
    simp
  constructor
  · intro h
    refine ⟨?_, ?_, ?_⟩
    · have hp := h.portions k t (by rw [ht]; simp)
      rwa [hh, ht, filter_firstTaker_self types k t _ _ hr.1, if_pos rfl,
        hr.2 k (Nat.lt_succ_self k), List.append_nil] at hp
    · intro n t' hn
      have hk : k ≠ n := Nat.ne_of_lt (Nat.lt_of_succ_le (hr.1 _ hn))
      have hp := h.portions n t' (by rw [ht]; exact List.mem_cons_of_mem _ hn)
      rwa [hh, ht, filter_firstTaker_ne types k t _ _ hk, if_neg hk, List.nil_append] at hp
    · intro h1 h2 signal s hs
      have hp := h.reraises (fun n hn => h1 n ((htype' n).mp hn))
        (fun n t' hn => h2 n t' ((hrefused' n t').mp hn)) signal s hs
      rwa [hx, ht, filter_firstTaker_isNone] at hp
  · rintro ⟨hm, h⟩
    refine ⟨?_, ?_⟩
    · intro n t' hn
      rw [ht] at hn ⊢
      rw [hh]
      rcases List.mem_cons.mp hn with hn | hn
      · obtain ⟨rfl, rfl⟩ := Prod.mk.inj hn
        rw [filter_firstTaker_self types n t' _ _ hr.1, if_pos rfl,
          hr.2 n (Nat.lt_succ_self n), List.append_nil, hm]
      · have hk : k ≠ n := Nat.ne_of_lt (Nat.lt_of_succ_le (hr.1 _ hn))
        rw [filter_firstTaker_ne types k t _ _ hk, if_neg hk, List.nil_append]
        exact h.portions n t' hn
    · intro h1 h2 signal s hs
      rw [hx, ht, filter_firstTaker_isNone]
      exact h.reraises (fun n hn => h1 n ((htype' n).mpr hn))
        (fun n t' hn => h2 n t' ((hrefused' n t').mpr hn)) signal s hs

/-- The log of a clause that nothing follows: it has to leave nothing over. -/
theorem handlesLeaves_left {k : ℕ} {t : HandlerType C} {leaves : List L} {name : Option N}
    {m : Tree L G} {exit : Option (Signal V (Tree L G) l × HandlerState (Tree L G) St)} :
    HandlesLeaves types leaves
        ((⟨clauseLog k name (some m) exit, exit⟩ : HandlerRun L G C N V St l).after
          [.tested k t]) ↔
      m.leaves = leaves.filter (leafMatches types t) ∧
        (exit.isSome → leaves.filter (fun leaf => !leafMatches types t leaf) = []) := by
  have hportion : ((⟨clauseLog k name (some m) exit, exit⟩ : HandlerRun L G C N V St l).after
      [.tested k t]).handledBy k = m.leaves := by
    cases exit <;> simp [HandlerRun.handledBy, HandlerRun.after, clauseLog]
  have htested : ((⟨clauseLog k name (some m) exit, exit⟩ : HandlerRun L G C N V St l).after
      [.tested k t]).testedTypes = [(k, t)] := by
    rw [testedTypes_after_tested, testedTypes_clauseLog]
  have hself := filter_firstTaker_self types k t ([] : List (ℕ × HandlerType C)) leaves (by simp)
  have hrest : (leaves.filter fun leaf => (firstTaker types [(k, t)] leaf).isNone) =
      leaves.filter fun leaf => !leafMatches types t leaf := by
    rw [filter_firstTaker_isNone]
    simp [firstTaker]
  have hraised : ∀ signal s, exit = some (signal, s) →
      ((⟨clauseLog k name (some m) exit, exit⟩ : HandlerRun L G C N V St l).after
        [.tested k t]).raisedLeaves = HandlerRun.signalLeaves signal := by
    rintro signal s rfl
    simp [HandlerRun.raisedLeaves, HandlerRun.after, clauseLog]
  constructor
  · intro h
    refine ⟨?_, ?_⟩
    · have hp := h.portions k t (by rw [htested]; simp)
      rwa [hportion, htested, hself] at hp
    · intro he
      obtain ⟨⟨signal, s⟩, he⟩ := Option.isSome_iff_exists.mp he
      have hp := h.reraises (by cases exit <;> simp [HandlerRun.after, clauseLog])
        (by cases exit <;> simp [HandlerRun.after, clauseLog]) signal s he
      rw [hraised signal s he, htested, hrest] at hp
      -- what is raised would be more than what the handler raised
      have hl := hp.length_eq
      rw [List.length_append] at hl
      exact List.eq_nil_of_length_eq_zero (by omega)
  · rintro ⟨hm, hr⟩
    refine ⟨?_, ?_⟩
    · intro n t' hn
      rw [htested] at hn ⊢
      obtain ⟨rfl, rfl⟩ := Prod.mk.inj (List.mem_singleton.mp hn)
      rw [hportion, hself, hm]
    · intro _ _ signal s hs
      have hs : exit = some (signal, s) := hs
      rw [hraised signal s hs, htested, hrest, hr (by rw [hs]; rfl), List.append_nil]

/-! ## Runs of a chain -/

theorem run_star_handler (h : Handler L G C N V St l) (k : ℕ) (s : HandlerState (Tree L G) St) :
    (HandlerCode.clause k h.name (h.code .bindMatch)).run types names x s =
      ⟨clauseLog k h.name s.matched (h.exit names (bindMatched names) s),
        h.exit names (bindMatched names) s⟩ :=
  run_clause types names x k h.name (h.run_code types names x (fun _ _ => rfl) s)

/-- The steps of a clause in front of the others. -/
theorem run_starSteps_cons (h : Handler L G C N V St l) (hs : List (Handler L G C N V St l))
    (k : ℕ) (s : HandlerState (Tree L G) St) :
    (starSteps baseException k (h :: hs)).run types names x s =
      match h.type_.getD baseException s.user with
      | (.error e, u) => ⟨[.typeRaised k], some (.exc e, s.setUser u)⟩
      | (.ok t, u) =>
        match exceptiongroupSplit types s.rest t u with
        | (.error e, u) => ⟨[.refused k t], some (.exc e, s.setUser u)⟩
        | (.ok (none, r), u) =>
          ((starSteps baseException (k + 1) hs).run types names x ⟨u, s.exc, none, r⟩).after
            [.tested k t]
        | (.ok (some m, r), u) =>
          match h.exit names (bindMatched names) ⟨u, s.exc, some m, r⟩ with
          | some (.normal, s') =>
            ((starSteps baseException (k + 1) hs).run types names x s').after
              (.tested k t :: clauseLog k h.name (some m) (some (.normal, s')))
          | exit => HandlerRun.after [.tested k t] ⟨clauseLog k h.name (some m) exit, exit⟩ := by
  show (HandlerCode.seq (.split k (h.type_.getD baseException))
    (.seq (.ifElse .matchIsNotNone (.clause k h.name (h.code .bindMatch)) .pass)
      (starSteps baseException (k + 1) hs))).run types names x s = _
  rw [HandlerCode.run_seq, HandlerCode.run_split]
  rcases h.type_.getD baseException s.user with ⟨e | t, u⟩
  · rfl
  · simp only
    rcases exceptiongroupSplit types s.rest t u with ⟨e | ⟨m, r⟩, u'⟩
    · rfl
    · cases m with
      | none => rfl
      | some m =>
        simp only [HandlerRun.andThen, HandlerCode.run_seq, HandlerCode.run_ifElse,
          HandlerTest.eval, Option.isSome_some, run_star_handler, HandlerRun.after]
        rcases h.exit names (bindMatched names) ⟨u', s.exc, some m, r⟩ with _ | ⟨signal, s'⟩
        · rfl
        · cases signal <;> simp [HandlerRun.ends]

section NotBelow

variable {k : ℕ} {r : HandlerRun L G C N V St l}

theorem NotBelow.mono {m : ℕ} (h : NotBelow m r) (hk : k ≤ m) : NotBelow k r :=
  ⟨fun c hc => Nat.le_trans hk (h.1 c hc), fun n hn => h.2 n (Nat.lt_of_lt_of_le hn hk)⟩

theorem NotBelow.after {events : List (ClauseEvent L G C N V St l)} (h : NotBelow k r)
    (he : NotBelow k (logOnly events)) : NotBelow k (r.after events) := by
  refine ⟨?_, ?_⟩
  · intro c hc
    rw [testedTypes_after] at hc
    rcases List.mem_append.mp hc with hc | hc
    · exact he.1 c hc
    · exact h.1 c hc
  · intro n hn
    rw [handledBy_after, he.2 n hn, h.2 n hn, List.append_nil]

theorem notBelow_logOnly_tested (t : HandlerType C) (name : Option N)
    (matched : Option (Tree L G))
    (exit : Option (Signal V (Tree L G) l × HandlerState (Tree L G) St)) :
    NotBelow k (logOnly (.tested k t :: clauseLog k name matched exit)) := by
  refine ⟨?_, ?_⟩
  · intro c hc
    have hc : c ∈ [(k, t)] := by
      have h : (logOnly (.tested k t :: clauseLog k name matched exit)).testedTypes = [(k, t)] := by
        cases exit <;> rfl
      rwa [h] at hc
    exact Nat.le_of_eq (congrArg Prod.fst (List.mem_singleton.mp hc)).symm
  · intro n hn
    cases matched <;> cases exit <;>
      simp [logOnly, HandlerRun.handledBy, clauseLog, (Nat.ne_of_lt hn).symm]

end NotBelow

theorem notBelow_starSteps (hs : List (Handler L G C N V St l)) (k : ℕ)
    (s : HandlerState (Tree L G) St) :
    NotBelow k ((starSteps baseException k hs).run types names x s) := by
  induction hs generalizing k s with
  | nil =>
    have h : ((starSteps baseException k ([] : List (Handler L G C N V St l))).run types names x
        s).log = [] := by
      show ((HandlerCode.ifElse .restIsNotNone .raiseRest .pass).run types names x s).log = []
      rw [HandlerCode.run_ifElse]
      unfold HandlerTest.eval
      cases hr : s.rest with
      | none => rfl
      | some e => simp [HandlerCode.run, hr, HandlerRun.after, HandlerRun.ends]
    refine ⟨?_, ?_⟩
    · unfold HandlerRun.testedTypes
      rw [h]
      simp
    · unfold HandlerRun.handledBy
      rw [h]
      simp
  | cons h hs ih =>
    have hempty : ∀ e : ClauseEvent L G C N V St l, (∀ n t, e ≠ .tested n t) →
        (∀ n m, e ≠ .entered n m) →
        ∀ exit, NotBelow k (⟨[e], exit⟩ : HandlerRun L G C N V St l) := by
      intro e h1 h2 exit
      cases e with
      | tested n t => exact absurd rfl (h1 n t)
      | entered n m => exact absurd rfl (h2 n m)
      | _ => exact ⟨by simp [HandlerRun.testedTypes], by simp [HandlerRun.handledBy]⟩
    rw [run_starSteps_cons]
    rcases h.type_.getD baseException s.user with ⟨e | t, u⟩
    · exact hempty _ (by simp) (by simp) _
    · simp only
      rcases exceptiongroupSplit types s.rest t u with ⟨e | ⟨m, r⟩, u'⟩
      · exact hempty _ (by simp) (by simp) _
      · cases m with
        | none =>
          refine ((ih (k + 1) _).mono (Nat.le_succ k)).after ⟨?_, ?_⟩
          · simp [logOnly, HandlerRun.testedTypes]
          · simp [logOnly, HandlerRun.handledBy]
        | some m =>
          have hleft : ∀ exit, NotBelow k ((⟨clauseLog k h.name (some m) exit, exit⟩ :
              HandlerRun L G C N V St l).after [.tested k t]) := fun exit =>
            notBelow_logOnly_tested t h.name (some m) exit
          simp only
          rcases h.exit names (bindMatched names) ⟨u', s.exc, some m, r⟩ with _ | ⟨signal, s'⟩
          · exact hleft none
          · cases signal with
            | normal =>
              exact ((ih (k + 1) _).mono (Nat.le_succ k)).after
                (notBelow_logOnly_tested t h.name (some m) _)
            | _ => exact hleft _

theorem handlesLeaves_end (k : ℕ) (s : HandlerState (Tree L G) St) :
    HandlesLeaves types (leavesOf s.rest)
      ((starSteps baseException k ([] : List (Handler L G C N V St l))).run types names x s) := by
  show HandlesLeaves types (leavesOf s.rest)
    ((HandlerCode.ifElse .restIsNotNone .raiseRest .pass).run types names x s)
  rw [HandlerCode.run_ifElse]
  unfold HandlerTest.eval
  cases hr : s.rest with
  | none =>
    refine ⟨fun n t hn => absurd hn (List.not_mem_nil), fun _ _ signal s' hs => ?_⟩
    obtain ⟨rfl, rfl⟩ := Prod.mk.inj (Option.some.inj hs)
    exact List.Perm.refl _
  | some e =>
    have h : (HandlerCode.raiseRest : HandlerCode L G C N V St l).run types names x s =
        .ends (.exc e) s := by
      simp [HandlerCode.run, hr, HandlerRun.ends]
    show HandlesLeaves types e.leaves
      (((HandlerCode.raiseRest : HandlerCode L G C N V St l).run types names x s).after [])
    rw [h]
    refine ⟨fun n t hn => absurd hn (List.not_mem_nil), fun _ _ signal s' hs => ?_⟩
    obtain ⟨rfl, rfl⟩ := Prod.mk.inj (Option.some.inj hs)
    simp [HandlerRun.signalLeaves, HandlerRun.raisedLeaves, HandlerRun.ends, firstTaker,
      HandlerRun.testedTypes, HandlerRun.after]

/-- The cleanup of a name leaves `_dp_rest` alone. -/
theorem Handler.LeavesRestAlone.exit {h : Handler L G C N V St l} (ha : h.LeavesRestAlone)
    {s s' : HandlerState (Tree L G) St} {signal : Signal V (Tree L G) l}
    (he : h.exit names (bindMatched names) s = some (signal, s')) : s'.rest = s.rest := by
  unfold Handler.exit at he
  cases hn : h.name with
  | none =>
    simp only [hn] at he
    exact ha s signal s' he
  | some name =>
    simp only [hn] at he
    obtain ⟨⟨signal₁, s₁⟩, hb, he⟩ := Option.map_eq_some_iff.mp he
    have h1 : s₁.rest = s.rest := ha (bindMatched names name s) signal₁ s₁ hb
    simp only at he
    split at he
    · generalize names.delQuietly name s₁.user = d at he
      obtain ⟨e | _, u⟩ := d
      · rw [← (Prod.mk.inj he).2]
        exact h1
      · rw [← (Prod.mk.inj he).2]
        exact h1
    · rw [← (Prod.mk.inj he).2]
      exact h1

/-- A type that cannot be evaluated or used ends the chain. -/
theorem handlesLeaves_failed {e : ClauseEvent L G C N V St l}
    {exit : Option (Signal V (Tree L G) l × HandlerState (Tree L G) St)} {leaves : List L}
    (h : (∃ n, e = .typeRaised n) ∨ ∃ n t, e = .refused n t) :
    HandlesLeaves types leaves ⟨[e], exit⟩ := by
  have htested : ∀ n t, e ≠ .tested n t := by
    rintro n t rfl
    rcases h with ⟨_, h⟩ | ⟨_, _, h⟩ <;> cases h
  refine ⟨?_, ?_⟩
  · intro n t hn
    obtain ⟨e', he', hc⟩ := List.mem_filterMap.mp hn
    obtain rfl := List.mem_singleton.mp he'
    cases e' with
    | tested m t' => exact absurd rfl (htested m t')
    | _ => cases hc
  · intro hraised hrefused
    rcases h with ⟨n, rfl⟩ | ⟨n, t, rfl⟩
    · exact absurd (List.mem_singleton_self _) (hraised n)
    · exact absurd (List.mem_singleton_self _) (hrefused n t)

section Clause

variable (hs : List (Handler L G C N V St l)) (k : ℕ) {s : HandlerState (Tree L G) St}
  {t : HandlerType C} {u u' : St} {r : Option (Tree L G)}

/-- A clause whose type takes nothing. -/
theorem handlesLeaves_skipped
    (hsplit : exceptiongroupSplit types s.rest t u = (.ok (none, r), u')) :
    HandlesLeaves types (leavesOf s.rest) (HandlerRun.after [.tested k t]
        ((starSteps baseException (k + 1) hs).run types names x ⟨u', s.exc, none, r⟩)) ↔
      SplitsByLeaf types s.rest t u ∧ HandlesLeaves types (leavesOf r)
        ((starSteps baseException (k + 1) hs).run types names x ⟨u', s.exc, none, r⟩) := by
  obtain ⟨hm, hr⟩ := leavesOf_split types hsplit
  have hstep : HandlesLeaves types (leavesOf s.rest) (HandlerRun.after [.tested k t]
      ((starSteps baseException (k + 1) hs).run types names x ⟨u', s.exc, none, r⟩)) ↔ _ :=
    handlesLeaves_after types
      (notBelow_starSteps types names x baseException hs (k + 1) ⟨u', s.exc, none, r⟩)
      rfl (by simp) (by simp) (fun n => (ite_self []).symm) rfl
  rw [hstep]
  constructor
  · rintro ⟨h1, h2⟩
    have hsp := hm.mpr h1
    exact ⟨hsp, (hr hsp).symm ▸ h2⟩
  · rintro ⟨hsp, h2⟩
    exact ⟨hm.mp hsp, hr hsp ▸ h2⟩

variable (name : Option N) {m : Tree L G}
  (hsplit : exceptiongroupSplit types s.rest t u = (.ok (some m, r), u'))

include hsplit

/-- A clause whose handler does not come back. -/
theorem handlesLeaves_unended :
    HandlesLeaves types (leavesOf s.rest) (HandlerRun.after [.tested k t]
        (⟨clauseLog k name (some m) none, none⟩ : HandlerRun L G C N V St l)) ↔
      SplitsByLeaf types s.rest t u := by
  obtain ⟨hm, -⟩ := leavesOf_split types hsplit
  rw [handlesLeaves_left]
  exact ⟨fun h => hm.mpr h.1, fun h => ⟨hm.mp h, fun hn => by cases hn⟩⟩

/-- A clause whose handler is the last to run. -/
theorem handlesLeaves_exited (signal : Signal V (Tree L G) l) (s' : HandlerState (Tree L G) St) :
    HandlesLeaves types (leavesOf s.rest) (HandlerRun.after [.tested k t]
        (⟨clauseLog k name (some m) (some (signal, s')), some (signal, s')⟩ :
          HandlerRun L G C N V St l)) ↔
      SplitsByLeaf types s.rest t u ∧ r = none := by
  obtain ⟨hm, hr⟩ := leavesOf_split types hsplit
  rw [handlesLeaves_left]
  constructor
  · rintro ⟨h1, h2⟩
    have hsp := hm.mpr h1
    exact ⟨hsp, leavesOf_eq_nil.mp ((hr hsp).trans (h2 rfl))⟩
  · rintro ⟨hsp, rfl⟩
    exact ⟨hm.mp hsp, fun _ => (hr hsp).symm⟩

/-- A clause whose handler ends, in front of the others. -/
theorem handlesLeaves_ended (s' : HandlerState (Tree L G) St)
    (hrest : leavesOf s'.rest = leavesOf r) :
    HandlesLeaves types (leavesOf s.rest) (HandlerRun.after
        (.tested k t :: clauseLog k name (some m) (some (.normal, s')))
        ((starSteps baseException (k + 1) hs).run types names x s')) ↔
      SplitsByLeaf types s.rest t u ∧ HandlesLeaves types (leavesOf s'.rest)
        ((starSteps baseException (k + 1) hs).run types names x s') := by
  obtain ⟨hm, hr⟩ := leavesOf_split types hsplit
  have hstep : HandlesLeaves types (leavesOf s.rest) (HandlerRun.after
      (.tested k t :: clauseLog k name (some m) (some (.normal, s')))
      ((starSteps baseException (k + 1) hs).run types names x s')) ↔
        m.leaves = (leavesOf s.rest).filter (leafMatches types t) ∧ _ :=
    handlesLeaves_after types
      (notBelow_starSteps types names x baseException hs (k + 1) s')
      rfl (by simp [clauseLog]) (by simp [clauseLog])
      (fun n => by simp [logOnly, HandlerRun.handledBy, clauseLog])
      (by simp [logOnly, HandlerRun.raisedLeaves, clauseLog, HandlerRun.signalLeaves])
  rw [hstep]
  constructor
  · rintro ⟨h1, h2⟩
    have hsp := hm.mpr h1
    rw [← hr hsp, ← hrest] at h2
    exact ⟨hsp, h2⟩
  · rintro ⟨hsp, h2⟩
    rw [hrest, hr hsp] at h2
    exact ⟨hm.mp hsp, h2⟩

end Clause

/-- The chain from any clause on, for what has reached it. -/
theorem handlesLeaves_starSteps (hs : List (Handler L G C N V St l)) (k : ℕ)
    (s : HandlerState (Tree L G) St) :
    (ThreadsRest types names baseException hs s →
        HandlesLeaves types (leavesOf s.rest)
          ((starSteps baseException k hs).run types names x s)) ∧
      ((∀ h ∈ hs, h.LeavesRestAlone) →
        HandlesLeaves types (leavesOf s.rest)
          ((starSteps baseException k hs).run types names x s) →
        ThreadsRest types names baseException hs s) := by
  induction hs generalizing k s with
  | nil => exact ⟨fun _ => handlesLeaves_end types names x baseException k s, fun _ _ => trivial⟩
  | cons h hs ih =>
    have hrest : (∀ h' ∈ h :: hs, h'.LeavesRestAlone) → ∀ h' ∈ hs, h'.LeavesRestAlone :=
      fun ha h' hh => ha h' (List.mem_cons_of_mem _ hh)
    rw [run_starSteps_cons]
    unfold ThreadsRest
    rcases h.type_.getD baseException s.user with ⟨e | t, u⟩
    · exact ⟨fun _ => handlesLeaves_failed types (.inl ⟨k, rfl⟩), fun _ _ => trivial⟩
    simp only
    rcases hsplit : exceptiongroupSplit types s.rest t u with ⟨e | ⟨m, r⟩, u'⟩
    · exact ⟨fun _ => handlesLeaves_failed types (.inr ⟨k, t, rfl⟩), fun _ _ => trivial⟩
    cases m with
    | none =>
      have hstep := handlesLeaves_skipped types names x baseException hs k hsplit
      obtain ⟨ih1, ih2⟩ := ih (k + 1) ⟨u', s.exc, none, r⟩
      refine ⟨fun ⟨hsp, hth⟩ => hstep.mpr ⟨hsp, ih1 hth⟩, fun ha hp => ?_⟩
      obtain ⟨hsp, hrun⟩ := hstep.mp hp
      exact ⟨hsp, ih2 (hrest ha) hrun⟩
    | some m =>
      simp only
      rcases hexit : h.exit names (bindMatched names) ⟨u', s.exc, some m, r⟩ with
        _ | ⟨signal, s'⟩
      · have hstep := handlesLeaves_unended (V := V) (l := l) types k h.name hsplit
        exact ⟨fun ⟨hsp, _⟩ => hstep.mpr hsp, fun _ hp => ⟨hstep.mp hp, trivial⟩⟩
      · have hleft := fun signal => handlesLeaves_exited (V := V) (l := l) types k h.name hsplit
          signal s'
        cases signal with
        | normal =>
          have hstep := handlesLeaves_ended types names x baseException hs k h.name hsplit s'
          obtain ⟨ih1, ih2⟩ := ih (k + 1) s'
          refine ⟨fun ⟨hsp, hs', hth⟩ => (hstep hs').mpr ⟨hsp, ih1 hth⟩, fun ha hp => ?_⟩
          have hs' : s'.rest = r := (ha h (by simp)).exit names hexit
          obtain ⟨hsp, hrun⟩ := (hstep (by rw [hs'])).mp hp
          exact ⟨hsp, by rw [hs'], ih2 (hrest ha) hrun⟩
        | _ => exact ⟨(hleft _).mpr, fun _ => (hleft _).mp⟩

/-- `except*` clauses handle each leaf by the first clause that matches it and raise the others
again with what the clauses raise, when types split by leaves, a clause that raises leaves nothing
over and `_dp_rest` is left alone; and only then, when no handler changes `_dp_rest`. -/
theorem rewriteTryStmt_handlesLeaves (hs : List (Handler L G C N V St l))
    (s : HandlerState (Tree L G) St) :
    (ThreadsRest types names baseException hs { s with exc := some x, rest := some x } →
        HandlesLeaves types x.leaves
          ((rewriteTryStmt baseException true hs).run types names x s)) ∧
      ((∀ h ∈ hs, h.LeavesRestAlone) →
        HandlesLeaves types x.leaves
          ((rewriteTryStmt baseException true hs).run types names x s) →
        ThreadsRest types names baseException hs { s with exc := some x, rest := some x }) :=
  handlesLeaves_starSteps types names x baseException hs 0 { s with exc := some x, rest := some x }

end Star

/-! ## A group of three exceptions -/

/-- Two handlers that end. -/
def twoStarClauses : List (Handler ℕ ℕ ℕ ℕ ℕ NumberedNames false) :=
  [⟨some fun u => (.ok (.object 2), u), some 0, fun s => some (.normal, s)⟩,
    ⟨some fun u => (.ok (.object 3), u), none, fun s => some (.normal, s)⟩]

/-- 4 goes to the first clause, 9 to the second, and 5 is raised again. -/
theorem rewriteTryStmt_handlesLeaves_twoStarClauses :
    let names := HandlerNames.ofScope (.leaf 0 : Tree ℕ ℕ) false
    let types := ExceptionTypes.divisors NumberedNames
    let group := Tree.group 1 (.cons (.leaf 4) (.cons (.leaf 9) (.one (.leaf 5))))
    let run := (rewriteTryStmt (fun u => (.ok (.object 1), u)) true twoStarClauses).run
      types names group ⟨fun _ => none, none, none, none⟩
    HandlesLeaves types group.leaves run ∧ run.handledBy 0 = [4] ∧ run.handledBy 1 = [9] ∧
      run.exit.map (fun r => HandlerRun.signalLeaves r.1) = some [5] := by
  refine ⟨(rewriteTryStmt_handlesLeaves _ _ _ _ twoStarClauses _).1 ?_, rfl, rfl, rfl⟩
  exact ⟨rfl, rfl, rfl, rfl, trivial⟩

end DietPython.Exceptions
