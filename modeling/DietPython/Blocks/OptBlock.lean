import DietPython.Blocks.Basic
import DietPython.Lib.ExitGraphs

/-!
# Fragments that replace an instruction

An `OptBlock` is a graph of blocks that stands for one instruction. It is accepted when every path
through it ends at the fall-through label, which is then replaced by the label of what comes next.
The search that decides this keeps the blocks it has seen, those on the current path and the answers
it has given.
-/

namespace DietPython.Blocks

open Relation ExitGraphs

variable {I : Type}

structure OptBlock (I : Type) where
  entry : Block I I
  dependencies : List (Block I I)

/-! ## The search -/

/-- What the search keeps. -/
structure Search where
  reachable : List BlockLabel
  memo : List (BlockLabel × Bool)

namespace Search

def addReachable (s : Search) (label : BlockLabel) : Search :=
  { s with reachable := label :: s.reachable }

def answer (s : Search) (label : BlockLabel) (valid : Bool) : Search :=
  { s with memo := (label, valid) :: s.memo }

end Search

/-- `targets.all(|target| target.is_fallthrough() || ..)` -/
def allTargets (visit : BlockLabel → Search → Bool × Search) :
    List BlockLabel → Search → Bool × Search
  | [], s => (true, s)
  | target :: targets, s =>
    if BlockLabel.isFallthrough target then allTargets visit targets s
    else
      match visit target s with
      | (true, s) => allTargets visit targets s
      | (false, s) => (false, s)

/-- The successors of a block. A block that raises or returns is not valid. -/
def followTargets (visit : BlockLabel → Search → Bool × Search) :
    Option (List BlockLabel) → Search → Bool × Search
  | none, s => (false, s)
  | some targets, s => allTargets visit targets s

/-- `memo.insert(label, valid); valid` -/
def remember (label : BlockLabel) (r : Bool × Search) : Bool × Search :=
  (r.1, r.2.answer label r.1)

/-- `all_paths_end_in_fallthrough`, to a depth. -/
def allPathsEndInFallthrough (blocks : List (Block I I)) :
    ℕ → BlockLabel → List BlockLabel → Search → Bool × Search
  | 0, _, _, s => (false, s)
  | depth + 1, label, stack, s =>
    match s.memo.lookup label with
    | some valid => (valid, s.addReachable label)
    | none =>
      if label ∈ stack then (false, s)
      else
        match blockAt blocks label with
        | none => (false, s)
        | some block =>
          remember label (followTargets
            (fun target s => allPathsEndInFallthrough blocks depth target (label :: stack) s)
            block.term.targets? (s.addReachable label))

/-- The first label that is not new. -/
def reusedLabel : List BlockLabel → List (Block I I) → Option BlockLabel
  | _, [] => none
  | seen, block :: blocks =>
    if block.label ∈ seen then some block.label else reusedLabel (block.label :: seen) blocks

/-- `validate_opt_block`. A path of the search has no more blocks than the fragment. -/
def validateOptBlock (entry : Block I I) (dependencies : List (Block I I)) : Except String Unit :=
  match reusedLabel [entry.label] dependencies with
  | some label =>
    .error ("optimization fragment reuses block label " ++ BlockLabel.display label)
  | none =>
    let blocks := entry :: dependencies
    let (valid, s) := allPathsEndInFallthrough blocks (blocks.length + 1) entry.label [] ⟨[], []⟩
    if valid then
      match dependencies.find? fun block => block.label ∉ s.reachable with
      | some block =>
        .error ("optimization fragment dependency " ++ BlockLabel.display block.label ++
          " is unreachable from " ++ BlockLabel.display entry.label)
      | none => .ok ()
    else
      .error ("optimization fragment rooted at " ++ BlockLabel.display entry.label ++
        " must keep every reachable path inside the fragment until " ++
        BlockLabel.display BlockLabel.fallthrough)

namespace OptBlock

/-- `OptBlock::new` -/
def new (entry : Block I I) (dependencies : List (Block I I)) : Except String (OptBlock I) :=
  match validateOptBlock entry dependencies with
  | .ok () => .ok ⟨entry, dependencies⟩
  | .error e => .error e

def blocks (o : OptBlock I) : List (Block I I) := o.entry :: o.dependencies

/-- `replace_fallthrough_target` -/
def replaceFallthroughTarget (o : OptBlock I) (target : BlockLabel) : OptBlock I × Bool :=
  (⟨(o.entry.replaceFallthroughTarget target).1,
    o.dependencies.map fun block => (block.replaceFallthroughTarget target).1⟩,
    (o.entry.replaceFallthroughTarget target).2 ||
      o.dependencies.any fun block => (block.replaceFallthroughTarget target).2)

end OptBlock

/-! ## What a fragment should be -/

/-- Where control goes from a label, if there is such a block and it does not raise or return. -/
def successors (blocks : List (Block I I)) (label : BlockLabel) : Option (List BlockLabel) :=
  (blockAt blocks label).bind fun block => block.term.targets?

/-- An edge of a terminator that stays in the fragment. -/
abbrev FragmentEdge (blocks : List (Block I I)) : BlockLabel → BlockLabel → Prop :=
  Edge (successors blocks) BlockLabel.fallthrough

structure ValidFragment (entry : Block I I) (dependencies : List (Block I I)) : Prop where
  distinct : (labels (entry :: dependencies)).Nodup
  reachable : ∀ block ∈ dependencies,
    ReflTransGen (FragmentEdge (entry :: dependencies)) entry.label block.label
  /-- No path repeats a block. -/
  noRepeat : ∀ path,
    IsPath (successors (entry :: dependencies)) BlockLabel.fallthrough entry.label path → path.Nodup
  /-- No path raises, returns or jumps to anything but a block or the fall-through label. -/
  stays : ∀ label, ReflTransGen (FragmentEdge (entry :: dependencies)) entry.label label →
    ∃ targets, successors (entry :: dependencies) label = some targets ∧
      ∀ target ∈ targets, target = BlockLabel.fallthrough ∨
        target ∈ labels (entry :: dependencies)

/-! ## The search is exact -/

section Exact

variable (blocks : List (Block I I))

/-- Every path from the label leaves through the fall-through label. -/
abbrev EndsInFallthrough : BlockLabel → Prop := Ends (successors blocks) BlockLabel.fallthrough

abbrev Leads : BlockLabel → BlockLabel → Prop := ReflTransGen (FragmentEdge blocks)

/-- The answers are right, and what can be reached from a good block has been seen. -/
structure Search.Sound (s : Search) : Prop where
  right : ∀ label valid, s.memo.lookup label = some valid →
    (valid = true ↔ EndsInFallthrough blocks label)
  seen : ∀ label, s.memo.lookup label = some true →
    ∀ target, Leads blocks label target → target ∈ s.reachable

/-- The search from `starts` has found out whether all of them are good. -/
structure Answered (s : Search) (starts : BlockLabel → Prop) (r : Bool × Search) : Prop where
  sound : r.2.Sound blocks
  mono : s.reachable ⊆ r.2.reachable
  reached : ∀ label ∈ r.2.reachable, label ∈ s.reachable ∨ ∃ start, starts start ∧
    Leads blocks start label
  decides : r.1 = true ↔ ∀ start, starts start → EndsInFallthrough blocks start
  complete : r.1 = true → ∀ start, starts start → ∀ label, Leads blocks start label →
    label ∈ r.2.reachable

variable {blocks} {s : Search}

theorem Search.Sound.mono (h : s.Sound blocks) {s' : Search} (hmemo : s'.memo = s.memo)
    (hsub : s.reachable ⊆ s'.reachable) : s'.Sound blocks where
  right label valid hlookup := h.right label valid (hmemo ▸ hlookup)
  seen label hlookup target hleads := hsub (h.seen label (hmemo ▸ hlookup) target hleads)

/-- One more answer. -/
theorem Search.Sound.answer (h : s.Sound blocks) {label : BlockLabel} {valid : Bool}
    (hright : valid = true ↔ EndsInFallthrough blocks label)
    (hseen : valid = true → ∀ target, Leads blocks label target → target ∈ s.reachable) :
    (s.answer label valid).Sound blocks where
  right label' valid' hlookup := by
    unfold Search.answer at hlookup
    rw [List.lookup_cons] at hlookup
    by_cases heq : label' = label
    · subst heq
      simp only [BEq.rfl] at hlookup
      rw [← Option.some.inj hlookup]
      exact hright
    · rw [beq_false_of_ne heq] at hlookup
      exact h.right label' valid' hlookup
  seen label' hlookup := by
    unfold Search.answer at hlookup
    rw [List.lookup_cons] at hlookup
    by_cases heq : label' = label
    · subst heq
      simp only [BEq.rfl] at hlookup
      exact hseen (Option.some.inj hlookup)
    · rw [beq_false_of_ne heq] at hlookup
      exact h.seen label' hlookup

/-- All targets, if each single one is answered. -/
theorem allTargets_answered {visit : BlockLabel → Search → Bool × Search}
    (targets : List BlockLabel) (hvisit : ∀ target ∈ targets, target ≠ BlockLabel.fallthrough →
      ∀ s : Search, s.Sound blocks → Answered blocks s (· = target) (visit target s))
    (s : Search) (hs : s.Sound blocks) :
    Answered blocks s (fun target => target ∈ targets ∧ target ≠ BlockLabel.fallthrough)
      (allTargets visit targets s) := by
  induction targets generalizing s with
  | nil =>
    refine ⟨hs, List.Subset.refl _, fun label h => .inl h, ?_, ?_⟩
    · exact ⟨fun _ start h => absurd h.1 List.not_mem_nil, fun _ => rfl⟩
    · exact fun _ start h => absurd h.1 List.not_mem_nil
  | cons target targets ih =>
    have ih := ih fun target' hmem => hvisit target' (List.mem_cons_of_mem _ hmem)
    unfold allTargets
    by_cases hfall : target = BlockLabel.fallthrough
    · rw [if_pos (BlockLabel.isFallthrough_eq_true.mpr hfall)]
      have hrest := ih s hs
      have hsame : ∀ start, (start ∈ target :: targets ∧ start ≠ BlockLabel.fallthrough) ↔
          start ∈ targets ∧ start ≠ BlockLabel.fallthrough := fun start => by
        constructor
        · rintro ⟨hmem, hne⟩
          exact ⟨(List.mem_cons.mp hmem).resolve_left fun heq => hne (heq.trans hfall), hne⟩
        · rintro ⟨hmem, hne⟩
          exact ⟨List.mem_cons_of_mem _ hmem, hne⟩
      simp only [hsame]
      exact hrest
    · rw [if_neg (by simpa using hfall)]
      have hfirst := hvisit target List.mem_cons_self hfall s hs
      rcases hr : visit target s with ⟨valid, s₁⟩
      rw [hr] at hfirst
      cases valid with
      | false =>
        have hbad : ¬ EndsInFallthrough blocks target := fun hends => by
          have htrue := hfirst.decides.mpr fun start heq => heq ▸ hends
          exact Bool.false_ne_true htrue
        refine ⟨hfirst.sound, hfirst.mono, fun label hlabel => ?_, ?_, ?_⟩
        · rcases hfirst.reached label hlabel with h | ⟨start, rfl, h⟩
          · exact .inl h
          · exact .inr ⟨_, ⟨List.mem_cons_self, hfall⟩, h⟩
        · exact ⟨fun h => (Bool.false_ne_true h).elim,
            fun h => absurd (h target ⟨List.mem_cons_self, hfall⟩) hbad⟩
        · exact fun h => (Bool.false_ne_true h).elim
      | true =>
        have hgood := hfirst.decides.mp rfl target rfl
        have hrest := ih s₁ hfirst.sound
        refine ⟨hrest.sound, fun label h => hrest.mono (hfirst.mono h),
          fun label hlabel => ?_, ?_, ?_⟩
        · rcases hrest.reached label hlabel with h | ⟨start, hstart, h⟩
          · rcases hfirst.reached label h with h | ⟨start, rfl, h⟩
            · exact .inl h
            · exact .inr ⟨_, ⟨List.mem_cons_self, hfall⟩, h⟩
          · exact .inr ⟨start, ⟨List.mem_cons_of_mem _ hstart.1, hstart.2⟩, h⟩
        · refine hrest.decides.trans ⟨fun h start hstart => ?_, fun h start hstart =>
            h start ⟨List.mem_cons_of_mem _ hstart.1, hstart.2⟩⟩
          rcases List.mem_cons.mp hstart.1 with rfl | hmem
          · exact hgood
          · exact h start ⟨hmem, hstart.2⟩
        · intro htrue start hstart label hleads
          rcases List.mem_cons.mp hstart.1 with rfl | hmem
          · exact hrest.mono (hfirst.complete rfl _ rfl label hleads)
          · exact hrest.complete htrue start ⟨hmem, hstart.2⟩ label hleads

theorem successors_eq {label : BlockLabel} {block : Block I I}
    (h : blockAt blocks label = some block) :
    successors blocks label = block.term.targets? := by
  unfold successors
  rw [h]
  rfl

theorem Answered.of_bad {label : BlockLabel} (hs : s.Sound blocks)
    (hbad : ¬ EndsInFallthrough blocks label) : Answered blocks s (· = label) (false, s) where
  sound := hs
  mono := List.Subset.refl _
  reached _ h := .inl h
  decides := ⟨fun h => (Bool.false_ne_true h).elim, fun h => absurd (h label rfl) hbad⟩
  complete h := (Bool.false_ne_true h).elim

/-- An answer that has been given before. -/
theorem Answered.of_memo {label : BlockLabel} {valid : Bool} (hs : s.Sound blocks)
    (hmemo : s.memo.lookup label = some valid) :
    Answered blocks s (· = label) (valid, s.addReachable label) where
  sound := hs.mono rfl (List.subset_cons_self _ _)
  mono := List.subset_cons_self _ _
  reached l hl := by
    rcases List.mem_cons.mp hl with rfl | hl
    · exact .inr ⟨l, rfl, .refl⟩
    · exact .inl hl
  decides := (hs.right label valid hmemo).trans ⟨fun h start heq => heq ▸ h, fun h => h label rfl⟩
  complete hvalid start heq l hleads := by
    have hvalid : valid = true := hvalid
    subst heq hvalid
    exact List.mem_cons_of_mem _ (hs.seen start hmemo l hleads)

/-- The successors of a block have been followed, and so the block. -/
theorem Answered.remember {label : BlockLabel} {r : Bool × Search} (hsound : r.2.Sound blocks)
    (hmono : label :: s.reachable ⊆ r.2.reachable)
    (hreached : ∀ l ∈ r.2.reachable, l ∈ label :: s.reachable ∨
      ∃ start, FragmentEdge blocks label start ∧ Leads blocks start l)
    (hends : r.1 = true ↔ EndsInFallthrough blocks label)
    (hcomplete : r.1 = true → ∀ start, FragmentEdge blocks label start → ∀ l,
      Leads blocks start l → l ∈ r.2.reachable) :
    Answered blocks s (· = label) (remember label r) := by
  have hseen : r.1 = true → ∀ l, Leads blocks label l → l ∈ r.2.reachable := by
    intro hvalid l hleads
    rcases ReflTransGen.cases_head hleads with rfl | ⟨target, hedge, hrest⟩
    · exact hmono List.mem_cons_self
    · exact hcomplete hvalid target hedge l hrest
  refine ⟨hsound.answer hends hseen, fun l hl => hmono (List.mem_cons_of_mem _ hl),
    fun l hl => ?_, hends.trans ⟨fun h start heq => heq ▸ h, fun h => h label rfl⟩, ?_⟩
  · rcases hreached l hl with h | ⟨start, hedge, h⟩
    · rcases List.mem_cons.mp h with rfl | h
      · exact .inr ⟨l, rfl, .refl⟩
      · exact .inl h
    · exact .inr ⟨label, rfl, .head hedge h⟩
  · rintro hvalid start rfl l hleads
    exact hseen hvalid l hleads

/-- The block of a label has been followed. -/
theorem followTargets_answered {visit : BlockLabel → Search → Bool × Search} {label : BlockLabel}
    {block : Block I I} (hblock : blockAt blocks label = some block)
    (hvisit : ∀ target, FragmentEdge blocks label target →
      ∀ s : Search, s.Sound blocks → Answered blocks s (· = target) (visit target s))
    (hs : s.Sound blocks) :
    Answered blocks s (· = label)
      (DietPython.Blocks.remember label
        (followTargets visit block.term.targets? (s.addReachable label))) := by
  have hs' : (s.addReachable label).Sound blocks := hs.mono rfl (List.subset_cons_self _ _)
  have hsucc := successors_eq hblock
  cases hterm : block.term.targets? with
  | none =>
    rw [hterm] at hsucc
    have hbad : ¬ EndsInFallthrough blocks label := fun hends => by
      have hsome := hends.goes_on
      rw [hsucc] at hsome
      cases hsome
    exact .remember hs' (List.Subset.refl _) (fun l h => .inl h)
      ⟨fun h => (Bool.false_ne_true h).elim, fun h => absurd h hbad⟩
      fun h => (Bool.false_ne_true h).elim
  | some targets =>
    rw [hterm] at hsucc
    have hedge : ∀ target, FragmentEdge blocks label target ↔
        target ∈ targets ∧ target ≠ BlockLabel.fallthrough := fun target => by
      constructor
      · rintro ⟨ts, hts, h⟩
        obtain rfl := Option.some.inj (hsucc.symm.trans hts)
        exact h
      · exact fun h => ⟨targets, hsucc, h⟩
    have hall := allTargets_answered targets
      (fun target htarget hne => hvisit target ((hedge target).mpr ⟨htarget, hne⟩))
      (s.addReachable label) hs'
    refine .remember hall.sound hall.mono (fun l hl => ?_) ?_ fun hvalid start hstart =>
      hall.complete hvalid start ((hedge start).mp hstart)
    · refine (hall.reached l hl).imp_right fun ⟨start, hstart, h⟩ => ?_
      exact ⟨start, (hedge start).mpr hstart, h⟩
    · refine hall.decides.trans ⟨fun h => ?_, fun h start hstart => ?_⟩
      · exact .step hsucc fun t ht hne => h t ⟨ht, hne⟩
      · exact h.edge ((hedge start).mpr hstart)

/-- **The search.** It finds out whether all paths from a label leave. The labels on its stack lead
to the label, so that a label which is met again is on a cycle. -/
theorem search_answered (depth : ℕ) (label : BlockLabel) (stack : List BlockLabel)
    (hstack : ∀ l ∈ stack, TransGen (FragmentEdge blocks) l label) (hnodup : stack.Nodup)
    (hsub : stack ⊆ labels blocks) (hdepth : (labels blocks).length < depth + stack.length)
    (s : Search) (hs : s.Sound blocks) :
    Answered blocks s (· = label) (allPathsEndInFallthrough blocks depth label stack s) := by
  induction depth generalizing label stack s with
  | zero =>
    have hle := hnodup.length_le_of_subset hsub
    omega
  | succ depth ih =>
    unfold allPathsEndInFallthrough
    cases hmemo : s.memo.lookup label with
    | some valid => exact .of_memo hs hmemo
    | none =>
      by_cases hmem : label ∈ stack
      · simp only [if_pos hmem]
        exact .of_bad hs fun hends => hends.not_cyclic (hstack label hmem)
      simp only [if_neg hmem]
      cases hblock : blockAt blocks label with
      | none =>
        refine .of_bad hs fun hends => ?_
        have hsome := hends.goes_on
        unfold successors at hsome
        rw [hblock] at hsome
        cases hsome
      | some block =>
        have hlabel : label ∈ labels blocks := blockAt_isSome.mp (by rw [hblock]; rfl)
        refine followTargets_answered hblock (fun target hedge s hs => ?_) hs
        refine ih target (label :: stack) (fun l hl => ?_) (List.nodup_cons.mpr ⟨hmem, hnodup⟩)
          (List.cons_subset.mpr ⟨hlabel, hsub⟩) ?_ s hs
        · rcases List.mem_cons.mp hl with rfl | hl
          · exact .single hedge
          · exact (hstack l hl).tail hedge
        · rw [List.length_cons]
          omega

/-- The labels are new. -/
theorem reusedLabel_eq_none {seen : List BlockLabel} (hseen : seen.Nodup) :
    reusedLabel seen blocks = none ↔ (seen ++ labels blocks).Nodup := by
  induction blocks generalizing seen with
  | nil => simpa [reusedLabel, labels] using hseen
  | cons block blocks ih =>
    have hswap : (seen ++ labels (block :: blocks)).Nodup ↔
        (block.label :: seen ++ labels blocks).Nodup := by
      unfold labels
      rw [List.map_cons, List.nodup_middle, List.cons_append]
    unfold reusedLabel
    by_cases hmem : block.label ∈ seen
    · rw [if_pos hmem, hswap, List.cons_append, List.nodup_cons]
      exact ⟨fun h => (nomatch h), fun h => absurd (List.mem_append_left _ hmem) h.1⟩
    · rw [if_neg hmem, hswap]
      exact ih (List.nodup_cons.mpr ⟨hmem, hseen⟩)

end Exact

/-! ## Accepted fragments -/

section Accepted

variable {entry : Block I I} {dependencies : List (Block I I)}

/-- The search from the entry. -/
theorem entry_answered (entry : Block I I) (dependencies : List (Block I I)) :
    Answered (entry :: dependencies) ⟨[], []⟩ (· = entry.label) (allPathsEndInFallthrough
      (entry :: dependencies) ((entry :: dependencies).length + 1) entry.label [] ⟨[], []⟩) := by
  refine search_answered _ entry.label [] (fun l hl => absurd hl List.not_mem_nil) List.nodup_nil
    (List.nil_subset _) ?_ _ ⟨fun label valid h => (nomatch h), fun label h => (nomatch h)⟩
  unfold labels
  rw [List.length_map]
  omega

/-- What the code checks. -/
theorem validateOptBlock_ok_iff :
    validateOptBlock entry dependencies = .ok () ↔
      (labels (entry :: dependencies)).Nodup ∧
        EndsInFallthrough (entry :: dependencies) entry.label ∧
        ∀ block ∈ dependencies, Leads (entry :: dependencies) entry.label block.label := by
  have hnodup : reusedLabel [entry.label] dependencies = none ↔
      (labels (entry :: dependencies)).Nodup :=
    reusedLabel_eq_none (List.nodup_singleton entry.label)
  have hanswered := entry_answered entry dependencies
  unfold validateOptBlock
  cases hreused : reusedLabel [entry.label] dependencies with
  | some label =>
    rw [hreused] at hnodup
    exact ⟨fun h => (nomatch h), fun h => (nomatch hnodup.mpr h.1)⟩
  | none =>
    have hdistinct := hnodup.mp hreused
    rcases hr : allPathsEndInFallthrough (entry :: dependencies)
      ((entry :: dependencies).length + 1) entry.label [] ⟨[], []⟩ with ⟨valid, s⟩
    rw [hr] at hanswered
    cases valid with
    | false =>
      simp only [hr]
      refine ⟨fun h => (nomatch h), fun h => ?_⟩
      exact absurd (hanswered.decides.mpr fun start heq => heq ▸ h.2.1) Bool.false_ne_true
    | true =>
      have hends := hanswered.decides.mp rfl entry.label rfl
      have hmem : ∀ label, label ∈ s.reachable ↔
          Leads (entry :: dependencies) entry.label label := fun label => by
        constructor
        · intro h
          rcases hanswered.reached label h with h | ⟨start, rfl, h⟩
          · exact absurd h List.not_mem_nil
          · exact h
        · exact hanswered.complete rfl entry.label rfl label
      simp only [hr, if_true]
      cases hfind : dependencies.find? fun block => block.label ∉ s.reachable with
      | some block =>
        have hbad : block.label ∉ s.reachable := by simpa using List.find?_some hfind
        refine ⟨fun h => (nomatch h), fun h => ?_⟩
        exact absurd ((hmem _).mpr (h.2.2 block (List.mem_of_find?_eq_some hfind))) hbad
      | none =>
        refine ⟨fun _ => ⟨hdistinct, hends, fun block hblock => (hmem _).mp ?_⟩, fun _ => rfl⟩
        have hseen := List.find?_eq_none.mp hfind block hblock
        simpa using hseen

theorem successors_isSome {blocks : List (Block I I)} {label : BlockLabel}
    (h : (successors blocks label).isSome) : label ∈ labels blocks := by
  unfold successors at h
  cases hblock : blockAt blocks label with
  | none =>
    rw [hblock] at h
    cases h
  | some block => exact blockAt_isSome.mp (by rw [hblock]; rfl)

theorem validFragment_iff :
    ValidFragment entry dependencies ↔
      (labels (entry :: dependencies)).Nodup ∧
        EndsInFallthrough (entry :: dependencies) entry.label ∧
        ∀ block ∈ dependencies, Leads (entry :: dependencies) entry.label block.label := by
  constructor
  · intro h
    have hgoes : ∀ b, Leads (entry :: dependencies) entry.label b →
        b ∈ labels (entry :: dependencies) ∧ (successors (entry :: dependencies) b).isSome :=
      fun b hleads => by
        obtain ⟨targets, htargets, -⟩ := h.stays b hleads
        have hsome : (successors (entry :: dependencies) b).isSome := by
          rw [htargets]
          rfl
        exact ⟨successors_isSome hsome, hsome⟩
    exact ⟨h.distinct, ends_of_nodup hgoes h.noRepeat, h.reachable⟩
  · rintro ⟨hdistinct, hends, hreachable⟩
    refine ⟨hdistinct, hreachable, fun path hpath => hpath.nodup hends, fun label hleads => ?_⟩
    obtain ⟨targets, htargets⟩ := Option.isSome_iff_exists.mp (hends.reaches hleads).goes_on
    refine ⟨targets, htargets, fun target htarget => ?_⟩
    by_cases hfall : target = BlockLabel.fallthrough
    · exact .inl hfall
    · have hedge := (hends.reaches hleads).edge ⟨targets, htargets, htarget, hfall⟩
      exact .inr (successors_isSome hedge.goes_on)

theorem new_eq_ok {o : OptBlock I} :
    OptBlock.new entry dependencies = .ok o ↔
      validateOptBlock entry dependencies = .ok () ∧ o = ⟨entry, dependencies⟩ := by
  unfold OptBlock.new
  cases validateOptBlock entry dependencies with
  | ok u => exact ⟨fun h => ⟨rfl, (Except.ok.inj h).symm⟩, fun h => h.2 ▸ rfl⟩
  | error e => exact ⟨fun h => (nomatch h), fun h => (nomatch h.1)⟩

/-- The blocks keep their labels, and their edges to the fall-through label go elsewhere. -/
theorem successors_replaceFallthroughTarget (blocks : List (Block I I)) (dest label : BlockLabel) :
    successors (blocks.map fun block => (block.replaceFallthroughTarget dest).1) label =
      (successors blocks label).map
        (List.map fun target => if target = BlockLabel.fallthrough then dest else target) := by
  have hblock : blockAt (blocks.map fun block => (block.replaceFallthroughTarget dest).1) label =
      (blockAt blocks label).map fun block => (block.replaceFallthroughTarget dest).1 := by
    unfold blockAt
    rw [List.find?_map]
    rfl
  unfold successors
  rw [hblock]
  cases blockAt blocks label with
  | none => rfl
  | some block => exact BlockTerm.replaceTarget_targets? _ _ _

theorem replaceFallthroughTarget_blocks (o : OptBlock I) (dest : BlockLabel) :
    (o.replaceFallthroughTarget dest).1.blocks =
      o.blocks.map fun block => (block.replaceFallthroughTarget dest).1 := rfl

/-- **Fragments.** A fragment is accepted exactly when it is valid. Once the fall-through label is
replaced by a label of another block, every run from the entry goes from block to block of the
fragment and leaves it, after finitely many blocks, by an edge to that label. -/
theorem OptBlock.new_spec (entry : Block I I) (dependencies : List (Block I I)) :
    ((∃ o, OptBlock.new entry dependencies = .ok o) ↔ ValidFragment entry dependencies) ∧
      ∀ o, OptBlock.new entry dependencies = .ok o → ∀ dest, dest ∉ labels o.blocks →
        ∀ run, IsRun (successors (o.replaceFallthroughTarget dest).1.blocks) o.entry.label run →
          ∃ n, (∀ i < n, run i ∈ labels o.blocks) ∧ run n ∉ labels o.blocks ∧ run n = dest := by
  constructor
  · rw [validFragment_iff, ← validateOptBlock_ok_iff]
    constructor
    · rintro ⟨o, ho⟩
      exact (new_eq_ok.mp ho).1
    · exact fun h => ⟨⟨entry, dependencies⟩, new_eq_ok.mpr ⟨h, rfl⟩⟩
  · intro o ho dest hdest run hrun
    obtain ⟨hok, rfl⟩ := new_eq_ok.mp ho
    obtain ⟨-, hends, -⟩ := validateOptBlock_ok_iff.mp hok
    have hends := hends.redirect dest (successors_replaceFallthroughTarget _ dest)
    rw [replaceFallthroughTarget_blocks] at hrun
    obtain ⟨n, hgoes, hn⟩ := hends.run_exits hrun
    refine ⟨n, fun i hi => ?_, hn ▸ hdest, hn⟩
    have hlabel := successors_isSome (hgoes i hi)
    unfold labels at hlabel
    rw [List.map_map] at hlabel
    exact hlabel

/-- A branch to another block or out of the fragment. -/
def branchFragment : OptBlock Unit where
  entry := ⟨0, [], .ifTerm () 1 BlockLabel.fallthrough, [], none⟩
  dependencies := [⟨1, [()], .jump (.new BlockLabel.fallthrough), [], none⟩]

theorem branchFragment_exits (run : ℕ → BlockLabel)
    (hrun : IsRun (successors (branchFragment.replaceFallthroughTarget 7).1.blocks) 0 run) :
    ∃ n, (∀ i < n, run i ∈ labels branchFragment.blocks) ∧
      run n ∉ labels branchFragment.blocks ∧ run n = 7 :=
  (OptBlock.new_spec branchFragment.entry branchFragment.dependencies).2 branchFragment rfl 7
    (by decide) run hrun

end Accepted

end DietPython.Blocks
