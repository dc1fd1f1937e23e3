import DietPython.ModuleGlobals.Registry

/-!
# Histories of caches

Along every history of creations, clones, drops and events, each live cache sees every change of its
dicts exactly as long as no step takes a watch away from one.
-/

namespace DietPython.ModuleGlobals

open Transducers

variable {Dict : Type} [DecidableEq Dict]

namespace Registry

variable {w : Registry Dict} {c : ℕ}

/-! ## Owners and handlers -/

/-- Only the last owner's release drops a cache. -/
theorem release_step (hw : w.Sound) : (w.release c).Sound ∧
    (w.AllWatched → ((w.release c).AllWatched ↔ w.KeepsWatches (.release c))) := by
  unfold release
  split
  · next d b owners handlers harc =>
    have hpos : 0 < (⟨d, b, owners + 1, handlers⟩ : ArcCache Dict).strongCount := by
      show 0 < owners + 1 + handlers
      omega
    refine ⟨hw.lower harc hpos ⟨rfl, rfl⟩, fun hwatched => ?_⟩
    have hlower : (w.lower c ⟨d, b, owners, handlers⟩).AllWatched ↔
        (owners + handlers = 0 → w.Alone c d b) :=
      lower_allWatched hw harc hpos ⟨rfl, rfl⟩ hwatched
    rw [hlower]
    show (owners + handlers = 0 → w.Alone c d b) ↔
      ∀ d' b', w.arcs c = some ⟨d', b', 1, 0⟩ → w.Alone c d' b'
    constructor
    · intro h d' b' harc'
      rw [harc] at harc'
      obtain ⟨rfl, rfl, howners, rfl⟩ := ArcCache.mk.inj (Option.some.inj harc')
      exact h (by omega)
    · intro h hzero
      obtain ⟨rfl, rfl⟩ : owners = 0 ∧ handlers = 0 := by omega
      exact h d b harc
  · next harc =>
    refine ⟨hw, fun hwatched => iff_of_true hwatched fun d b h => ?_⟩
    exact absurd h (harc d b 0 0)

theorem handled_step (hw : w.Sound) : (w.handled c).Sound ∧
    (w.AllWatched → ((w.handled c).AllWatched ↔ w.KeepsWatches (.handled c))) := by
  unfold handled
  split
  · next d b owners handlers harc =>
    have hpos : 0 < (⟨d, b, owners, handlers + 1⟩ : ArcCache Dict).strongCount := by
      show 0 < owners + (handlers + 1)
      omega
    refine ⟨hw.lower harc hpos ⟨rfl, rfl⟩, fun hwatched => ?_⟩
    have hlower : (w.lower c ⟨d, b, owners, handlers⟩).AllWatched ↔
        (owners + handlers = 0 → w.Alone c d b) :=
      lower_allWatched hw harc hpos ⟨rfl, rfl⟩ hwatched
    rw [hlower]
    show (owners + handlers = 0 → w.Alone c d b) ↔
      ∀ d' b', w.arcs c = some ⟨d', b', 0, 1⟩ → w.Alone c d' b'
    constructor
    · intro h d' b' harc'
      rw [harc] at harc'
      obtain ⟨rfl, rfl, rfl, hhandlers⟩ := ArcCache.mk.inj (Option.some.inj harc')
      exact h (by omega)
    · intro h hzero
      obtain ⟨rfl, rfl⟩ : owners = 0 ∧ handlers = 0 := by omega
      exact h d b harc
  · next harc =>
    refine ⟨hw, fun hwatched => iff_of_true hwatched fun d b h => ?_⟩
    exact absurd h (harc d b 0 0)

omit [DecidableEq Dict] in
/-- Strong counts change, and no cache comes alive or dies. -/
theorem Sound.of_livesOver {w' : Registry Dict} (hw : w.Sound)
    (hlives : ∀ c e, w'.LivesOver c e ↔ w.LivesOver c e)
    (hfresh : ∀ c, w'.next ≤ c → w'.arcs c = none)
    (hcaches : ∀ c e, w.LivesOver c e → c ∈ w.caches e → c ∈ w'.caches e)
    (hwatcher : w'.watcherId = w.watcherId) : w'.Sound := by
  refine ⟨hfresh, fun c e h => ?_, fun c e h => ?_⟩
  · have hold := (hlives c e).mp h
    exact hcaches c e hold (hw.found c e hold)
  · rw [hwatcher]
    exact hw.watcher c e ((hlives c e).mp h)

omit [DecidableEq Dict] in
theorem clone_livesOver (c' : ℕ) (e : Dict) : (w.clone c).LivesOver c' e ↔ w.LivesOver c' e := by
  unfold clone
  split
  · next d b owners handlers harc =>
    by_cases hc : c' = c
    · subst hc
      rw [livesOver_setArc_self]
      unfold LivesOver
      rw [harc]
      simp only [Option.some.injEq, exists_eq_left']
      unfold ArcCache.strongCount ArcCache.Uses
      refine and_congr_left fun _ => ?_
      show 0 < owners + 2 + handlers ↔ 0 < owners + 1 + handlers
      omega
    · exact (apart_setArc w c _).livesOver_iff hc e
  · rfl

omit [DecidableEq Dict] in
theorem clone_step (hw : w.Sound) : (w.clone c).Sound ∧
    (w.AllWatched → (w.clone c).AllWatched) := by
  have hsame : (w.clone c).watched = w.watched ∧ (w.clone c).caches = w.caches ∧
      (w.clone c).next = w.next ∧ (w.clone c).watcherId = w.watcherId := by
    unfold clone
    split <;> exact ⟨rfl, rfl, rfl, rfl⟩
  obtain ⟨hwatched, hcaches, hnext, hwatcher⟩ := hsame
  refine ⟨hw.of_livesOver clone_livesOver (fun c' hc' => ?_) (fun c' e _ h => by rwa [hcaches])
    hwatcher, fun h c' e hlives => ?_⟩
  · rw [hnext] at hc'
    by_cases hc : c' = c
    · subst hc
      unfold clone
      rw [hw.fresh c' hc']
      exact hw.fresh c' hc'
    · rw [(apart_clone w c).arcs c' hc]
      exact hw.fresh c' hc'
  · rw [hwatched]
    exact h c' e ((clone_livesOver c' e).mp hlives)

/-! ## Events -/

theorem notify_livesOver (d : Dict) (c : ℕ) (e : Dict) :
    (w.notify d).LivesOver c e ↔ w.LivesOver c e := by
  unfold notify
  split_ifs
  · unfold LivesOver
    cases harc : w.arcs c with
    | none => simp [harc]
    | some arc =>
      -- a cache that is dead is not among those that are called
      have hdead : arc.strongCount = 0 → (w.registeredCaches d).count c = 0 := by
        intro hzero
        refine List.count_eq_zero.mpr fun hmem => ?_
        have hpos := (List.mem_filter.mp hmem).2
        simp [strongCount, harc, hzero] at hpos
      simp only [harc, Option.map_some, Option.some.injEq, exists_eq_left']
      refine and_congr_left fun _ => ?_
      show 0 < arc.owners + (arc.handlers + (w.registeredCaches d).count c) ↔ _
      unfold ArcCache.strongCount at hdead ⊢
      refine ⟨fun h => ?_, fun h => by omega⟩
      by_contra hzero
      have := hdead (by omega)
      omega
  · rfl

theorem notify_step (hw : w.Sound) (d : Dict) : (w.notify d).Sound ∧
    (w.AllWatched → (w.notify d).AllWatched) := by
  have hsame : (w.notify d).watched = w.watched ∧ (w.notify d).next = w.next ∧
      (w.notify d).watcherId = w.watcherId := by
    unfold notify
    split_ifs <;> exact ⟨rfl, rfl, rfl⟩
  obtain ⟨hwatched, hnext, hwatcher⟩ := hsame
  refine ⟨hw.of_livesOver (notify_livesOver d) (fun c hc => ?_) (fun c e hlives h => ?_) hwatcher,
    fun h c e hlives => ?_⟩
  · rw [hnext] at hc
    unfold notify
    split_ifs
    · show (w.arcs c).map _ = none
      rw [hw.fresh c hc]
      rfl
    · exact hw.fresh c hc
  · unfold notify
    split_ifs
    · show c ∈ Function.update w.caches d (w.registeredCaches d) e
      by_cases he : e = d
      · subst he
        rw [Function.update_self]
        exact List.mem_filter.mpr ⟨h, by simpa using hlives.pos⟩
      · rw [Function.update_of_ne he]
        exact h
    · exact h
  · rw [hwatched]
    exact h c e ((notify_livesOver d c e).mp hlives)

/-! ## Creations -/

/-- A cache that `new` does not return is gone where `new` returns. -/
theorem release_failed {d b : Dict} (harc : w.arcs c = some ⟨d, b, 1, 0⟩) :
    w.release c = (w.setArc c ⟨d, b, 0, 0⟩).drop c ⟨d, b, 0, 0⟩ := by
  unfold release
  rw [harc]
  rfl

theorem watched_watch_self (w : Registry Dict) (d : Dict) : (w.watch d).watched d = true := by
  show Function.update w.watched d true d = true
  rw [Function.update_self]

theorem watched_watch {d e : Dict} (h : w.watched e = true) : (w.watch d).watched e = true := by
  by_cases he : e = d
  · subst he
    exact watched_watch_self w e
  · exact (Function.update_of_ne he true w.watched).trans h

theorem mem_registerCache_self (w : Registry Dict) (c : ℕ) (d : Dict) :
    c ∈ (w.registerCache d c).caches d := by
  show c ∈ Function.update w.caches d (w.caches d ++ [c]) d
  rw [Function.update_self]
  exact List.mem_append_right _ (List.mem_singleton.mpr rfl)

theorem mem_registerCache {d e : Dict} {c' : ℕ} (h : c ∈ w.caches e) :
    c ∈ (w.registerCache d c').caches e := by
  show c ∈ Function.update w.caches d (w.caches d ++ [c']) e
  by_cases he : e = d
  · subst he
    rw [Function.update_self]
    exact List.mem_append_left _ h
  · rw [Function.update_of_ne he]
    exact h

section Created

variable {d b : Dict} {w' : Registry Dict}

omit [DecidableEq Dict] in
theorem apart_allocate (addWatcher : Bool) : Apart w.next w (w.allocate d b addWatcher) :=
  ⟨fun _ hc => Function.update_of_ne hc _ _, fun _ _ _ _ => Iff.rfl⟩

omit [DecidableEq Dict] in
theorem arcs_allocate (addWatcher : Bool) :
    (w.allocate d b addWatcher).arcs w.next = some ⟨d, b, 1, 0⟩ :=
  Function.update_self w.next _ w.arcs

omit [DecidableEq Dict] in
/-- What is the same for every end of a creation. -/
theorem Sound.of_created (hw : w.Sound) (hapart : Apart w.next w w')
    (hnext : w'.next = w.next + 1) (hwatcherId : w.watcherId = some true →
      w'.watcherId = some true)
    (hfound : ∀ e, w'.LivesOver w.next e → w.next ∈ w'.caches e ∧ w'.watcherId = some true) :
    w'.Sound := by
  refine hw.of_apart hapart (fun c hc => ?_) (fun e h => (hfound e h).1) fun c e h => ?_
  · rw [hnext] at hc
    rw [hapart.arcs c (by omega)]
    exact hw.fresh c (by omega)
  · by_cases hc : c = w.next
    · subst hc
      exact (hfound e h).2
    · exact hwatcherId (hw.watcher c e ((hapart.livesOver_iff hc e).mp h))

theorem dead_drop (e : Dict) :
    ¬ ((w.setArc c ⟨d, b, 0, 0⟩).drop c ⟨d, b, 0, 0⟩).LivesOver c e := by
  unfold LivesOver
  rw [arcs_drop]
  intro h
  have := ((livesOver_setArc_self w c ⟨d, b, 0, 0⟩ e).mp h).1
  exact Nat.lt_irrefl 0 this

/-- A creation that fails behind the allocation of the watcher drops the new cache. -/
theorem drops_created (hapart : Apart w.next w w') (harc : w'.arcs w.next = some ⟨d, b, 1, 0⟩)
    (hwatcher : w'.watcherId = some true)
    (hwatched : ∀ e, ¬ (e = d ∨ e = b) → w'.watched e = w.watched e) :
    Drops w.next d b w (w'.release w.next) := by
  have hrelease := release_failed harc
  refine ⟨fun e => ?_, fun c e => ?_⟩
  · rw [hrelease, watched_drop (w'.setArc w.next ⟨d, b, 0, 0⟩) w.next ⟨d, b, 0, 0⟩ hwatcher e]
    refine and_congr_left fun hnot => ?_
    show w'.watched e = true ↔ _
    rw [hwatched e hnot]
  · by_cases hc : c = w.next
    · subst hc
      rw [hrelease]
      exact iff_of_false (dead_drop e) fun h => h.1 rfl
    · rw [(hapart.trans (apart_release w' w.next)).livesOver_iff hc e]
      exact (and_iff_right hc).symm

omit [DecidableEq Dict] in
/-- The end of a creation that succeeds: both dicts are watched, the new cache is found for both,
and no watch is taken away. -/
theorem succeeded_step (hw : w.Sound) (hapart : Apart w.next w w') (hnext : w'.next = w.next + 1)
    (harc : w'.arcs w.next = some ⟨d, b, 1, 0⟩) (hwatcher : w'.watcherId = some true)
    (hwatched : ∀ e, w.watched e = true → w'.watched e = true)
    (hd : w'.watched d = true ∧ w.next ∈ w'.caches d)
    (hb : w'.watched b = true ∧ w.next ∈ w'.caches b) :
    w'.Sound ∧ (w.AllWatched → w'.AllWatched) := by
  have huses : ∀ e, w'.LivesOver w.next e → e = d ∨ e = b := by
    rintro e ⟨arc, harc', -, huses⟩
    rw [harc] at harc'
    obtain rfl := Option.some.inj harc'
    exact huses
  have hnew : ∀ e, w'.LivesOver w.next e → w'.watched e = true ∧ w.next ∈ w'.caches e := by
    intro e hlives
    rcases huses e hlives with rfl | rfl
    · exact hd
    · exact hb
  refine ⟨hw.of_created hapart hnext (fun _ => hwatcher)
    fun e hlives => ⟨(hnew e hlives).2, hwatcher⟩, ?_⟩
  refine Grows.allWatched ⟨hwatched, fun c e hlives => ?_⟩
  by_cases hc : c = w.next
  · subst hc
    exact .inr (hnew e hlives).1
  · exact .inl ((hapart.livesOver_iff hc e).mp hlives)

/-- The end of a creation that fails. -/
theorem failed_step (hw : w.Sound) (hapart : Apart w.next w w') (hnext : w'.next = w.next + 1)
    (harc : w'.arcs w.next = some ⟨d, b, 1, 0⟩) (hwatcher : w'.watcherId = some true)
    (hwatched : ∀ e, ¬ (e = d ∨ e = b) → w'.watched e = w.watched e) :
    (w'.release w.next).Sound ∧
      (w.AllWatched → ((w'.release w.next).AllWatched ↔ w.Alone w.next d b)) := by
  have hrelease := release_failed harc
  have hsame : (w'.release w.next).next = w'.next ∧
      (w'.release w.next).watcherId = w'.watcherId := by
    rw [hrelease]
    unfold drop unwatchDicts
    split_ifs <;> exact ⟨rfl, rfl⟩
  refine ⟨hw.of_created (hapart.trans (apart_release w' w.next)) (hsame.1.trans hnext)
    (fun _ => hsame.2.trans hwatcher) fun e hlives => ?_,
    (drops_created hapart harc hwatcher hwatched).allWatched_iff⟩
  rw [hrelease] at hlives
  exact absurd hlives (dead_drop e)

end Created

theorem newCache_step (hw : w.Sound) (d b : Dict) (r : NewResults) :
    (w.newCache (some d) (some b) r).2.Sound ∧
      (w.AllWatched → ((w.newCache (some d) (some b) r).2.AllWatched ↔
        w.KeepsWatches (.new (some d) (some b) r))) := by
  have hapart : Apart w.next w (w.allocate d b r.addWatcher) := apart_allocate r.addWatcher
  have harc : (w.allocate d b r.addWatcher).arcs w.next = some ⟨d, b, 1, 0⟩ :=
    arcs_allocate r.addWatcher
  let w₀ := w.allocate d b r.addWatcher
  -- the parts of the registry that registering and watching leave alone
  have hd := (hapart.trans (apart_registerCache w₀ w.next d))
  have hboth := (hd.trans (apart_watch _ w.next d)).trans (apart_registerCache _ w.next b)
  simp only [newCache]
  split_ifs with hwatcher hdict hsame hbuiltins
  · -- no watcher, and so no cache at all
    have hnone : w.watcherId ≠ some true := fun h => hwatcher (by
      show w.watcherId.or _ = some true
      rw [h]
      rfl)
    have hdead : ∀ c e, ¬ w.LivesOver c e := fun c e h => hnone (hw.watcher c e h)
    have hrelease := release_failed harc
    have hrefl := hapart.trans (apart_release w₀ w.next)
    have hdead' : ∀ c e, ¬ (w₀.release w.next).LivesOver c e := by
      intro c e
      by_cases hc : c = w.next
      · subst hc
        rw [hrelease]
        exact dead_drop e
      · exact fun h => hdead c e ((hrefl.livesOver_iff hc e).mp h)
    have hnext : (w₀.release w.next).next = w.next + 1 := by
      rw [hrelease]
      unfold drop unwatchDicts
      split_ifs <;> rfl
    refine ⟨hw.of_created hrefl hnext (fun h => absurd h hnone)
      fun e h => absurd h (hdead' w.next e), fun _ => ?_⟩
    exact iff_of_true (fun c e h => absurd h (hdead' c e))
      fun _ c _ => ⟨hdead c d, hdead c b⟩
  · -- the first watch fails
    have hkeeps : w.KeepsWatches (.new (some d) (some b) r) ↔ w.Alone w.next d b :=
      imp_iff_right (.inl hdict)
    rw [hkeeps]
    exact failed_step hw (hd.trans (apart_unregisterCache _ w.next d)) rfl harc
      (not_not.mp hwatcher) fun _ _ => rfl
  · -- one dict
    subst hsame
    obtain ⟨hsound, hgrows⟩ := succeeded_step hw (hd.trans (apart_watch _ w.next b)) rfl harc
      (not_not.mp hwatcher) (fun e he => watched_watch he)
      ⟨watched_watch_self _ b, mem_registerCache_self w₀ w.next b⟩
      ⟨watched_watch_self _ b, mem_registerCache_self w₀ w.next b⟩
    refine ⟨hsound, fun h => iff_of_true (hgrows h) fun hfail => ?_⟩
    rcases hfail with h | h
    · exact absurd h hdict
    · exact absurd rfl h.1
  · -- the second watch fails
    have hkeeps : w.KeepsWatches (.new (some d) (some b) r) ↔ w.Alone w.next d b :=
      imp_iff_right (.inr ⟨hsame, hbuiltins⟩)
    rw [hkeeps]
    refine failed_step hw (((hboth.trans (apart_unregisterCache _ w.next d)).trans
      (apart_unregisterCache _ w.next b)).trans (apart_unwatch _ w.next d)) rfl harc
      (not_not.mp hwatcher) fun e he => ?_
    show Function.update (Function.update w.watched d true) d false e = w.watched e
    have hed : e ≠ d := fun h => he (.inl h)
    rw [Function.update_of_ne hed, Function.update_of_ne hed]
  · -- two dicts
    obtain ⟨hsound, hgrows⟩ := succeeded_step hw (hboth.trans (apart_watch _ w.next b)) rfl harc
      (not_not.mp hwatcher) (fun e he => watched_watch (watched_watch he))
      ⟨watched_watch (watched_watch_self _ d),
        mem_registerCache (mem_registerCache_self w₀ w.next d)⟩
      ⟨watched_watch_self _ b, mem_registerCache_self _ w.next b⟩
    refine ⟨hsound, fun h => iff_of_true (hgrows h) fun hfail => ?_⟩
    rcases hfail with h | h
    · exact absurd h hdict
    · exact absurd h.2 hbuiltins

/-! ## Histories -/

/-- **One step.** The registry stays sound, and every change is still seen exactly when the step
takes no watch away from a live cache. -/
theorem step_covered_iff (hw : w.Sound) (a : CacheAction Dict) :
    (w.step a).1.Sound ∧ (w.Covered → ((w.step a).1.Covered ↔ w.KeepsWatches a)) := by
  have hstep : (w.step a).1.Sound ∧
      (w.AllWatched → ((w.step a).1.AllWatched ↔ w.KeepsWatches a)) := by
    cases a with
    | new dictObj builtinsDictObj r =>
      cases dictObj with
      | none => exact ⟨hw, fun h => iff_of_true h trivial⟩
      | some d =>
        cases builtinsDictObj with
        | none => exact ⟨hw, fun h => iff_of_true h trivial⟩
        | some b => exact newCache_step hw d b r
    | clone c => exact ⟨(clone_step hw).1, fun h => iff_of_true ((clone_step hw).2 h) trivial⟩
    | release c => exact release_step hw
    | changed d => exact ⟨(notify_step hw d).1, fun h =>
      iff_of_true ((notify_step hw d).2 h) trivial⟩
    | handled c => exact handled_step hw
  refine ⟨hstep.1, fun h => ?_⟩
  rw [hstep.1.covered_iff]
  exact hstep.2 (hw.covered_iff.mp h)

omit [DecidableEq Dict] in
theorem sound_new : (new : Registry Dict).Sound :=
  ⟨fun _ _ => rfl, fun _ _ ⟨_, h, _⟩ => (by cases h), fun _ _ ⟨_, h, _⟩ => (by cases h)⟩

/-- **No change goes unseen.** Along a history of creations, clones, drops and events, the live
caches see every change of their dicts, and only live caches are called, exactly when every step
keeps the watches: the last reference to a cache goes, or a creation fails at a watch, only when no
other live cache is over one of the dicts. -/
theorem covered_trace_iff (actions : List (CacheAction Dict)) :
    (∀ w ∈ (machine : Transducer (Registry Dict) (CacheAction Dict) (List ℕ)).trace new actions,
      w.Covered) ↔ machine.Guarded KeepsWatches new actions :=
  machine.trace_invariant_iff KeepsWatches (fun _ a hw => (step_covered_iff hw a).1)
    (fun _ a hw hcovered => (step_covered_iff hw a).2 hcovered) sound_new
    (sound_new.covered_iff.mpr fun _ _ ⟨_, h, _⟩ => (by cases h)) actions

/-- Two modules that share their builtins, and one of them goes. -/
def sharedBuiltins : List (CacheAction ℕ) :=
  [.new (some 1) (some 9) ⟨true, true, true⟩, .new (some 2) (some 9) ⟨true, true, true⟩, .release 1]

/-- The cache that is left is alive, and no change of the builtins reaches it. -/
theorem drop_unwatches_shared :
    ((machine : Transducer (Registry ℕ) (CacheAction ℕ) (List ℕ)).final new
        sharedBuiltins).strongCount 0 = 1 ∧
      (machine.final new (sharedBuiltins ++ [.changed 9])).notified 9 = [] ∧
      ¬ ∀ w ∈ (machine : Transducer (Registry ℕ) (CacheAction ℕ) (List ℕ)).trace new sharedBuiltins,
        w.Covered := by
  refine ⟨by decide, by decide, fun h => ?_⟩
  have hlast := h _ (Transducer.final_mem_trace machine new sharedBuiltins)
  have hseen := hlast.seen 0 9 ⟨⟨1, 9, 1, 0⟩, rfl, by decide, .inr rfl⟩
  exact absurd hseen (by decide)

end Registry

end DietPython.ModuleGlobals
