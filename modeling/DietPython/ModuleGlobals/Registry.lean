import Mathlib.Data.List.Basic
import Mathlib.Logic.Function.Basic
import DietPython.Lib.Transducer

/-!
# The registry of module global caches

A cache is found by its two dicts, the module dict and the builtins dict, through a registry of
weak references; a dict reports its changes while its watch flag is set. There is one flag for each
dict and any number of caches over it.

A cache lives as long as somebody holds a strong reference: an owner, or a callback that is handling
an event for it. When the last one goes, `Drop` runs.
-/

namespace DietPython.ModuleGlobals

open Transducers

variable {Dict : Type} [DecidableEq Dict]

/-! ## Caches and dicts -/

/-- A cache behind its `Arc`: the dicts it is over, and who holds it. -/
structure ArcCache (Dict : Type) where
  dictObj : Dict
  builtinsDictObj : Dict
  owners : ℕ
  /-- Callbacks that are handling an event for it. -/
  handlers : ℕ

def ArcCache.strongCount (arc : ArcCache Dict) : ℕ := arc.owners + arc.handlers

/-- The dicts of a cache. -/
def ArcCache.Uses (arc : ArcCache Dict) (d : Dict) : Prop :=
  d = arc.dictObj ∨ d = arc.builtinsDictObj

structure Registry (Dict : Type) where
  /-- `WATCHER_ID`: not asked for yet, or asked for with this result. -/
  watcherId : Option Bool
  /-- The weak references of each dict, the oldest first. -/
  caches : Dict → List ℕ
  /-- The watch flag of each dict. -/
  watched : Dict → Bool
  next : ℕ
  arcs : ℕ → Option (ArcCache Dict)

namespace Registry

/-- Before the first cache. -/
def new : Registry Dict := ⟨none, fun _ => [], fun _ => false, 0, fun _ => none⟩

/-- The strong count of a cache, which a weak reference asks for. -/
def strongCount (w : Registry Dict) (c : ℕ) : ℕ := (w.arcs c).elim 0 ArcCache.strongCount

def registerCache (w : Registry Dict) (d : Dict) (c : ℕ) : Registry Dict :=
  { w with caches := Function.update w.caches d (w.caches d ++ [c]) }

def unregisterCache (w : Registry Dict) (d : Dict) (c : ℕ) : Registry Dict :=
  let kept := (w.caches d).filter fun c' => c' ≠ c ∧ 0 < w.strongCount c'
  { w with caches := Function.update w.caches d kept }

/-- `registered_caches`: the caches of a dict that are alive. -/
def registeredCaches (w : Registry Dict) (d : Dict) : List ℕ :=
  (w.caches d).filter fun c => 0 < w.strongCount c

/-- `PyDict_Watch`, when it succeeds. -/
def watch (w : Registry Dict) (d : Dict) : Registry Dict :=
  { w with watched := Function.update w.watched d true }

/-- `PyDict_Unwatch`. -/
def unwatch (w : Registry Dict) (d : Dict) : Registry Dict :=
  { w with watched := Function.update w.watched d false }

def setArc (w : Registry Dict) (c : ℕ) (arc : ArcCache Dict) : Registry Dict :=
  { w with arcs := Function.update w.arcs c (some arc) }

/-- The unwatching in `Drop`. -/
def unwatchDicts (w : Registry Dict) (arc : ArcCache Dict) : Registry Dict :=
  if w.watcherId = some true then
    let w := w.unwatch arc.dictObj
    if arc.builtinsDictObj ≠ arc.dictObj then w.unwatch arc.builtinsDictObj else w
  else w

/-- `Drop for ModuleGlobalCache`. -/
def drop (w : Registry Dict) (c : ℕ) (arc : ArcCache Dict) : Registry Dict :=
  ((w.unwatchDicts arc).unregisterCache arc.dictObj c).unregisterCache arc.builtinsDictObj c

/-- A strong reference has gone. -/
def lower (w : Registry Dict) (c : ℕ) (arc : ArcCache Dict) : Registry Dict :=
  if arc.strongCount = 0 then (w.setArc c arc).drop c arc else w.setArc c arc

/-- An owner lets go of a cache. -/
def release (w : Registry Dict) (c : ℕ) : Registry Dict :=
  match w.arcs c with
  | some ⟨d, b, owners + 1, handlers⟩ => w.lower c ⟨d, b, owners, handlers⟩
  | _ => w

/-- The registry with a new cache, which nobody finds yet, and the watcher asked for. -/
def allocate (w : Registry Dict) (d b : Dict) (addWatcher : Bool) : Registry Dict :=
  { { w with next := w.next + 1 }.setArc w.next ⟨d, b, 1, 0⟩ with
    watcherId := w.watcherId.or (some addWatcher) }

/-- How the calls in `ModuleGlobalCache::new` end that may fail. -/
structure NewResults where
  addWatcher : Bool
  watchDict : Bool
  watchBuiltins : Bool

/-- `ModuleGlobalCache::new`. The null pointer is `none`. A cache that is not returned is dropped
where `new` returns. -/
def newCache (w : Registry Dict) (dictObj builtinsDictObj : Option Dict) (r : NewResults) :
    Option ℕ × Registry Dict :=
  match dictObj, builtinsDictObj with
  | none, _ | _, none => (none, w)
  | some d, some b =>
    let c := w.next
    let w := w.allocate d b r.addWatcher
    if w.watcherId ≠ some true then (none, w.release c)
    else
      let w := w.registerCache d c
      if r.watchDict = false then (none, (w.unregisterCache d c).release c)
      else
        let w := w.watch d
        if b = d then (some c, w)
        else
          let w := w.registerCache b c
          if r.watchBuiltins = false then
            (none, (((w.unregisterCache d c).unregisterCache b c).unwatch d).release c)
          else (some c, w.watch b)

/-- Somebody else becomes an owner of a cache that has one. -/
def clone (w : Registry Dict) (c : ℕ) : Registry Dict :=
  match w.arcs c with
  | some ⟨d, b, owners + 1, handlers⟩ => w.setArc c ⟨d, b, owners + 2, handlers⟩
  | _ => w

/-- The caches that a change of a dict is reported to. -/
def notified (w : Registry Dict) (d : Dict) : List ℕ :=
  if w.watched d = true then w.registeredCaches d else []

/-- `dict_watcher_callback`, up to the first handler: dead references are removed, and the caches
that are called are held. -/
def notify (w : Registry Dict) (d : Dict) : Registry Dict :=
  if w.watched d = true then
    { w with
      caches := Function.update w.caches d (w.registeredCaches d)
      arcs := fun c => (w.arcs c).map fun arc =>
        { arc with handlers := arc.handlers + (w.registeredCaches d).count c } }
  else w

/-- A handler has returned. -/
def handled (w : Registry Dict) (c : ℕ) : Registry Dict :=
  match w.arcs c with
  | some ⟨d, b, owners, handlers + 1⟩ => w.lower c ⟨d, b, owners, handlers⟩
  | _ => w

end Registry

/-! ## Histories -/

/-- What may happen to caches and dicts, in any order. -/
inductive CacheAction (Dict : Type)
  | new (dictObj builtinsDictObj : Option Dict) (results : Registry.NewResults)
  | clone (c : ℕ)
  | release (c : ℕ)
  | changed (d : Dict)
  | handled (c : ℕ)

namespace Registry

/-- A step, and the caches that are called in it. -/
def step (w : Registry Dict) : CacheAction Dict → Registry Dict × List ℕ
  | .new d b r => ((w.newCache d b r).2, [])
  | .clone c => (w.clone c, [])
  | .release c => (w.release c, [])
  | .changed d => (w.notify d, w.notified d)
  | .handled c => (w.handled c, [])

def machine : Transducer (Registry Dict) (CacheAction Dict) (List ℕ) := ⟨step⟩

/-- The cache is alive and over the dict. -/
def LivesOver (w : Registry Dict) (c : ℕ) (d : Dict) : Prop :=
  ∃ arc, w.arcs c = some arc ∧ 0 < arc.strongCount ∧ arc.Uses d

/-- No change of a dict goes unseen by a live cache over it, and only live caches are called. -/
structure Covered (w : Registry Dict) : Prop where
  seen : ∀ c d, w.LivesOver c d → c ∈ w.notified d
  alive : ∀ d, ∀ c ∈ w.notified d, 0 < w.strongCount c

/-! ## Steps that keep the watches -/

/-- No live cache other than `c` is over a dict of the cache. -/
def Alone (w : Registry Dict) (c : ℕ) (d b : Dict) : Prop :=
  ∀ c', c' ≠ c → ¬ w.LivesOver c' d ∧ ¬ w.LivesOver c' b

/-- A step takes no watch away from a live cache: a cache is dropped, or its creation fails at a
watch, only when no other live cache is over one of its dicts. -/
def KeepsWatches (w : Registry Dict) : CacheAction Dict → Prop
  | .new (some d) (some b) r =>
    r.watchDict = false ∨ b ≠ d ∧ r.watchBuiltins = false → w.Alone w.next d b
  | .release c => ∀ d b, w.arcs c = some ⟨d, b, 1, 0⟩ → w.Alone c d b
  | .handled c => ∀ d b, w.arcs c = some ⟨d, b, 0, 1⟩ → w.Alone c d b
  | _ => True

/-! ## What a step leaves alone -/

/-- Caches other than `c` are left alone. -/
structure Apart (c : ℕ) (w w' : Registry Dict) : Prop where
  arcs : ∀ c' ≠ c, w'.arcs c' = w.arcs c'
  caches : ∀ c' ≠ c, 0 < w.strongCount c' → ∀ d, c' ∈ w'.caches d ↔ c' ∈ w.caches d

namespace Apart

variable {c : ℕ} {w w' w'' : Registry Dict}

omit [DecidableEq Dict] in
theorem refl (w : Registry Dict) : Apart c w w := ⟨fun _ _ => rfl, fun _ _ _ _ => Iff.rfl⟩

omit [DecidableEq Dict] in
theorem strongCount (h : Apart c w w') {c' : ℕ} (hc : c' ≠ c) :
    w'.strongCount c' = w.strongCount c' := by
  unfold Registry.strongCount
  rw [h.arcs c' hc]

omit [DecidableEq Dict] in
theorem trans (h : Apart c w w') (h' : Apart c w' w'') : Apart c w w'' :=
  ⟨fun c' hc => (h'.arcs c' hc).trans (h.arcs c' hc), fun c' hc hpos d =>
    (h'.caches c' hc (by rw [h.strongCount hc]; exact hpos) d).trans (h.caches c' hc hpos d)⟩

omit [DecidableEq Dict] in
theorem livesOver_iff (h : Apart c w w') {c' : ℕ} (hc : c' ≠ c) (d : Dict) :
    w'.LivesOver c' d ↔ w.LivesOver c' d := by
  unfold LivesOver
  rw [h.arcs c' hc]

end Apart

section Parts

variable (w : Registry Dict) (c : ℕ) (d : Dict) (arc : ArcCache Dict)

theorem apart_registerCache : Apart c w (w.registerCache d c) := by
  refine ⟨fun _ _ => rfl, fun c' hc _ e => ?_⟩
  show c' ∈ Function.update w.caches d (w.caches d ++ [c]) e ↔ _
  by_cases he : e = d
  · subst he
    rw [Function.update_self, List.mem_append, List.mem_singleton, or_iff_left hc]
  · rw [Function.update_of_ne he]

theorem apart_unregisterCache : Apart c w (w.unregisterCache d c) := by
  refine ⟨fun _ _ => rfl, fun c' hc hpos e => ?_⟩
  show c' ∈ Function.update w.caches d _ e ↔ _
  by_cases he : e = d
  · subst he
    rw [Function.update_self, List.mem_filter, decide_eq_true_eq]
    exact and_iff_left ⟨hc, hpos⟩
  · rw [Function.update_of_ne he]

omit [DecidableEq Dict] in
theorem apart_setArc : Apart c w (w.setArc c arc) :=
  ⟨fun _ hc => Function.update_of_ne hc _ _, fun _ _ _ _ => Iff.rfl⟩

theorem apart_watch : Apart c w (w.watch d) := ⟨fun _ _ => rfl, fun _ _ _ _ => Iff.rfl⟩

theorem apart_unwatch : Apart c w (w.unwatch d) := ⟨fun _ _ => rfl, fun _ _ _ _ => Iff.rfl⟩

theorem apart_unwatchDicts : Apart c w (w.unwatchDicts arc) := by
  unfold unwatchDicts
  split_ifs
  · exact (apart_unwatch w c arc.dictObj).trans (apart_unwatch _ c arc.builtinsDictObj)
  · exact apart_unwatch w c arc.dictObj
  · exact .refl w

theorem apart_drop : Apart c w (w.drop c arc) :=
  ((apart_unwatchDicts w c arc).trans (apart_unregisterCache _ c arc.dictObj)).trans
    (apart_unregisterCache _ c arc.builtinsDictObj)

theorem apart_lower : Apart c w (w.lower c arc) := by
  unfold lower
  split_ifs
  · exact (apart_setArc w c arc).trans (apart_drop _ c arc)
  · exact apart_setArc w c arc

theorem apart_release : Apart c w (w.release c) := by
  unfold release
  split
  · exact apart_lower w c _
  · exact .refl w

omit [DecidableEq Dict] in
theorem apart_clone : Apart c w (w.clone c) := by
  unfold clone
  split
  · exact apart_setArc w c _
  · exact .refl w

/-! ## The watch flags -/

/-- A dropped cache takes the watch of both its dicts away. -/
theorem watched_drop (h : w.watcherId = some true) (e : Dict) :
    (w.drop c arc).watched e = true ↔ w.watched e = true ∧ ¬ arc.Uses e := by
  show (w.unwatchDicts arc).watched e = true ↔ _
  unfold unwatchDicts ArcCache.Uses
  rw [if_pos h]
  by_cases hsame : arc.builtinsDictObj = arc.dictObj
  · rw [if_neg (not_not.mpr hsame), hsame, or_self]
    show Function.update w.watched arc.dictObj false e = true ↔ _
    by_cases he : e = arc.dictObj
    · simp [he]
    · simp [he]
  · rw [if_pos hsame]
    show Function.update (Function.update w.watched arc.dictObj false) arc.builtinsDictObj false e =
      true ↔ _
    by_cases he : e = arc.builtinsDictObj
    · simp [he]
    · by_cases he' : e = arc.dictObj
      · simp [he', Ne.symm hsame]
      · simp [he, he']

omit [DecidableEq Dict] in
theorem livesOver_setArc_self (e : Dict) :
    (w.setArc c arc).LivesOver c e ↔ 0 < arc.strongCount ∧ arc.Uses e := by
  unfold LivesOver setArc
  simp

theorem arcs_drop : (w.drop c arc).arcs = w.arcs := by
  show (w.unwatchDicts arc).arcs = w.arcs
  unfold unwatchDicts
  split_ifs <;> rfl

end Parts

/-! ## What a step does to the watches -/

/-- Nothing is taken away: a dict that a cache has come to live over is watched. -/
structure Grows (w w' : Registry Dict) : Prop where
  watched : ∀ e, w.watched e = true → w'.watched e = true
  lives : ∀ c e, w'.LivesOver c e → w.LivesOver c e ∨ w'.watched e = true

/-- A cache is gone, and the watches of its dicts with it. -/
structure Drops (c : ℕ) (d b : Dict) (w w' : Registry Dict) : Prop where
  watched : ∀ e, w'.watched e = true ↔ w.watched e = true ∧ ¬ (e = d ∨ e = b)
  lives : ∀ c' e, w'.LivesOver c' e ↔ c' ≠ c ∧ w.LivesOver c' e

/-- Every dict that a live cache is over is watched. -/
def AllWatched (w : Registry Dict) : Prop := ∀ c e, w.LivesOver c e → w.watched e = true

omit [DecidableEq Dict] in
theorem Grows.allWatched {w w' : Registry Dict} (h : Grows w w') (hw : w.AllWatched) :
    w'.AllWatched := by
  intro c e hlives
  rcases h.lives c e hlives with hold | hnew
  · exact h.watched e (hw c e hold)
  · exact hnew

omit [DecidableEq Dict] in
/-- After a drop the watches are there exactly when the cache was alone. -/
theorem Drops.allWatched_iff {c : ℕ} {d b : Dict} {w w' : Registry Dict} (h : Drops c d b w w')
    (hw : w.AllWatched) : w'.AllWatched ↔ w.Alone c d b := by
  constructor
  · intro hw' c' hc
    have hnot : ∀ e, e = d ∨ e = b → ¬ w.LivesOver c' e := fun e he hlives =>
      ((h.watched e).mp (hw' c' e ((h.lives c' e).mpr ⟨hc, hlives⟩))).2 he
    exact ⟨hnot d (.inl rfl), hnot b (.inr rfl)⟩
  · intro halone c' e hlives
    obtain ⟨hc, hold⟩ := (h.lives c' e).mp hlives
    refine (h.watched e).mpr ⟨hw c' e hold, ?_⟩
    rintro (rfl | rfl)
    · exact (halone c' hc).1 hold
    · exact (halone c' hc).2 hold

/-- A cache whose strong count falls, and stays above zero or not. -/
theorem lower_effect {w : Registry Dict} {c : ℕ} {old arc : ArcCache Dict}
    (hold : w.arcs c = some old) (hpos : 0 < old.strongCount)
    (hdicts : arc.dictObj = old.dictObj ∧ arc.builtinsDictObj = old.builtinsDictObj)
    (hwatcher : w.watcherId = some true) :
    (arc.strongCount ≠ 0 → Grows w (w.lower c arc)) ∧
      (arc.strongCount = 0 → Drops c arc.dictObj arc.builtinsDictObj w (w.lower c arc)) := by
  have hapart := apart_lower w c arc
  refine ⟨fun hne => ?_, fun hzero => ?_⟩
  · have hlower : w.lower c arc = w.setArc c arc := by
      unfold lower
      rw [if_neg hne]
    refine ⟨fun e h => by rw [hlower]; exact h, fun c' e hlives => .inl ?_⟩
    by_cases hc : c' = c
    · subst hc
      rw [hlower, livesOver_setArc_self] at hlives
      refine ⟨old, hold, hpos, ?_⟩
      have huses := hlives.2
      unfold ArcCache.Uses at huses ⊢
      rw [← hdicts.1, ← hdicts.2]
      exact huses
    · exact (hapart.livesOver_iff hc e).mp hlives
  · have hlower : w.lower c arc = (w.setArc c arc).drop c arc := by
      unfold lower
      rw [if_pos hzero]
    refine ⟨fun e => ?_, fun c' e => ?_⟩
    · rw [hlower]
      exact watched_drop (w.setArc c arc) c arc hwatcher e
    · by_cases hc : c' = c
      · subst hc
        have hdead : ¬ (w.lower c' arc).LivesOver c' e := by
          rw [hlower]
          unfold LivesOver
          rw [arcs_drop]
          intro hlives
          have := ((livesOver_setArc_self w c' arc e).mp hlives).1
          omega
        exact iff_of_false hdead fun h => h.1 rfl
      · rw [hapart.livesOver_iff hc e]
        exact (and_iff_right hc).symm

/-- What holds whatever happens: ids are fresh, a live cache is in the registry for both dicts, and
there is no cache without a watcher. -/
structure Sound (w : Registry Dict) : Prop where
  fresh : ∀ c, w.next ≤ c → w.arcs c = none
  found : ∀ c e, w.LivesOver c e → c ∈ w.caches e
  watcher : ∀ c e, w.LivesOver c e → w.watcherId = some true

omit [DecidableEq Dict] in
theorem LivesOver.pos {w : Registry Dict} {c : ℕ} {e : Dict} (h : w.LivesOver c e) :
    0 < w.strongCount c := by
  obtain ⟨arc, harc, hpos, -⟩ := h
  unfold strongCount
  rw [harc]
  exact hpos

omit [DecidableEq Dict] in
theorem mem_notified {w : Registry Dict} {c : ℕ} {e : Dict} :
    c ∈ w.notified e ↔ w.watched e = true ∧ c ∈ w.caches e ∧ 0 < w.strongCount c := by
  unfold notified registeredCaches
  split_ifs with h
  · rw [List.mem_filter, decide_eq_true_eq]
    exact (and_iff_right h).symm
  · exact iff_of_false (by simp) fun hw => h hw.1

omit [DecidableEq Dict] in
/-- A live cache is found, so what matters is the watch. -/
theorem Sound.covered_iff {w : Registry Dict} (h : w.Sound) : w.Covered ↔ w.AllWatched := by
  constructor
  · intro hcovered c e hlives
    exact (mem_notified.mp (hcovered.seen c e hlives)).1
  · intro hw
    refine ⟨fun c e hlives => ?_, fun e c hc => (mem_notified.mp hc).2.2⟩
    exact mem_notified.mpr ⟨hw c e hlives, h.found c e hlives, hlives.pos⟩

omit [DecidableEq Dict] in
/-- A step that is about one cache keeps the others found. -/
theorem Sound.of_apart {w w' : Registry Dict} {c : ℕ} (h : w.Sound) (hapart : Apart c w w')
    (hfresh : ∀ c', w'.next ≤ c' → w'.arcs c' = none)
    (hfound : ∀ e, w'.LivesOver c e → c ∈ w'.caches e)
    (hwatcher : ∀ c' e, w'.LivesOver c' e → w'.watcherId = some true) : w'.Sound := by
  refine ⟨hfresh, fun c' e hlives => ?_, hwatcher⟩
  by_cases hc : c' = c
  · subst hc
    exact hfound e hlives
  · have hold := (hapart.livesOver_iff hc e).mp hlives
    exact (hapart.caches c' hc hold.pos e).mpr (h.found c' e hold)

section Lower

variable {w : Registry Dict} {c : ℕ} {old arc : ArcCache Dict}

theorem watcherId_lower : (w.lower c arc).watcherId = w.watcherId := by
  unfold lower drop unwatchDicts
  split_ifs <;> rfl

theorem next_lower : (w.lower c arc).next = w.next := by
  unfold lower drop unwatchDicts
  split_ifs <;> rfl

theorem arcs_lower_self : (w.lower c arc).arcs c = some arc := by
  unfold lower
  split_ifs
  · rw [arcs_drop]
    exact Function.update_self c (some arc) w.arcs
  · exact Function.update_self c (some arc) w.arcs

theorem livesOver_lower_self (e : Dict) :
    (w.lower c arc).LivesOver c e ↔ 0 < arc.strongCount ∧ arc.Uses e := by
  unfold LivesOver
  rw [arcs_lower_self]
  simp

theorem arcs_lower_of_next_le (hw : w.Sound) (hold : w.arcs c = some old) {c' : ℕ}
    (hc' : w.next ≤ c') : (w.lower c arc).arcs c' = none := by
  have hne : c' ≠ c := by
    rintro rfl
    rw [hw.fresh c' hc'] at hold
    cases hold
  rw [(apart_lower w c arc).arcs c' hne]
  exact hw.fresh c' hc'

theorem Sound.lower (hw : w.Sound) (hold : w.arcs c = some old) (hpos : 0 < old.strongCount)
    (hdicts : arc.dictObj = old.dictObj ∧ arc.builtinsDictObj = old.builtinsDictObj) :
    (w.lower c arc).Sound := by
  have hlived : ∀ e, (w.lower c arc).LivesOver c e → w.LivesOver c e := by
    intro e hlives
    have huses := ((livesOver_lower_self e).mp hlives).2
    unfold ArcCache.Uses at huses
    rw [hdicts.1, hdicts.2] at huses
    exact ⟨old, hold, hpos, huses⟩
  refine hw.of_apart (apart_lower w c arc) (fun c' hc' => ?_) (fun e hlives => ?_)
    fun c' e hlives => ?_
  · rw [next_lower] at hc'
    exact arcs_lower_of_next_le hw hold hc'
  · have hne : arc.strongCount ≠ 0 := by
      have := ((livesOver_lower_self e).mp hlives).1
      omega
    have hlower : w.lower c arc = w.setArc c arc := by
      unfold Registry.lower
      rw [if_neg hne]
    rw [hlower]
    exact hw.found c e (hlived e hlives)
  · rw [watcherId_lower]
    by_cases hc : c' = c
    · subst hc
      exact hw.watcher c' e (hlived e hlives)
    · exact hw.watcher c' e (((apart_lower w c arc).livesOver_iff hc e).mp hlives)

/-- **A strong reference goes.** The watches stay, unless it was the last one and another cache
needs them. -/
theorem lower_allWatched (hw : w.Sound) (hold : w.arcs c = some old) (hpos : 0 < old.strongCount)
    (hdicts : arc.dictObj = old.dictObj ∧ arc.builtinsDictObj = old.builtinsDictObj)
    (hwatched : w.AllWatched) :
    (w.lower c arc).AllWatched ↔
      (arc.strongCount = 0 → w.Alone c arc.dictObj arc.builtinsDictObj) := by
  have hwatcher := hw.watcher c old.dictObj ⟨old, hold, hpos, .inl rfl⟩
  obtain ⟨hgrows, hdrops⟩ := lower_effect hold hpos hdicts hwatcher
  by_cases hzero : arc.strongCount = 0
  · rw [(hdrops hzero).allWatched_iff hwatched]
    exact (imp_iff_right hzero).symm
  · exact iff_of_true ((hgrows hzero).allWatched hwatched) fun h => absurd h hzero

end Lower

end Registry

end DietPython.ModuleGlobals
