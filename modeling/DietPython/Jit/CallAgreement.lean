import DietPython.Jit.CallOrder
import Mathlib.Data.List.Nodup

/-!
# Calls evaluate and pass what Python does

`emitCall_eq_pyCall_iff` gives the exact condition under which the generated code of a call
leaves the same history and result as the call of the language.

The two differ in five ways: keyword arguments need the builtin `dict` under the module's name
`dict`; unpacking needs `list` and `tuple_from_iter` as well, and the latter is no builtin; a
repeated keyword is overwritten where Python refuses it; an iterable of pairs passes as a `**`
operand; and a lone `*e` is unpacked before the keywords instead of after them.
-/

namespace DietPython.Jit

open LoggedComputations
open Logged

universe u

variable {V : Type u} {E : Type*} (w : World V E)

/-! ## The condition -/

/-- No `**` operand that is reached is other than a mapping, and no keyword is given twice. `acc`
are the keyword arguments merged so far and `pending` those of the current run of `name=e`. -/
def KeywordsOk (Q : List (CallEvent V) → Prop) :
    List (V × V) → List (V × V) → List (KwArg ℕ) → List (CallEvent V) → Prop
  | acc, pending, [] => fun l => Mergeable acc pending ∧ Q l
  | acc, pending, .named arg i :: rest =>
    IfOk (w.operand i) fun v => KeywordsOk Q acc (pending ++ [(w.str arg, v)]) rest
  | acc, pending, .starred i :: rest => fun l =>
    Mergeable acc pending ∧
      IfOk (w.operand i) (fun v l => w.isMapping v ∧
        IfOk (w.runtime.readMapping v) (fun items l => Mergeable (acc ++ pending) items ∧
          KeywordsOk Q (acc ++ pending ++ items) [] rest l) l) l

/-- The name `tuple_from_iter` gives `tuple` or the helper of the runtime. -/
def TupleOk (l : List (CallEvent V)) : Prop :=
  ∃ f, w.lookup l "tuple_from_iter" = some f ∧ (f = w.tupleType ∨ f = w.tupleFromIter)

/-- The positional arguments and the keywords of an unpacking call. A lone `*e` before keywords is
in order only if `e` raises. -/
def ArgumentsOk (args : List (PosArg ℕ)) (keywords : List (KwArg ℕ)) :
    List (CallEvent V) → Prop :=
  match args, keywords with
  | [.starred i], _ :: _ => IfOk (w.operand i) fun _ _ => False
  | args, [] =>
    IfOk (pyPositionals w.runtime (args.map (PosArg.map w.operand))) fun _ => TupleOk w
  | args, keywords =>
    IfOk (pyPositionals w.runtime (args.map (PosArg.map w.operand))) fun _ =>
      KeywordsOk w (TupleOk w) [] [] keywords

variable {w} in
theorem argumentsOk_lone {args : List (PosArg ℕ)} {keywords : List (KwArg ℕ)} {i : ℕ}
    (hargs : args = [.starred i]) (hkeywords : keywords ≠ []) :
    ArgumentsOk w args keywords = IfOk (w.operand i) fun _ _ => False := by
  subst hargs
  cases keywords with
  | nil => exact absurd rfl hkeywords
  | cons keyword rest => rfl

variable {w} in
theorem argumentsOk_inOrder {args : List (PosArg ℕ)} {keywords : List (KwArg ℕ)}
    (hargs : ¬ ∃ i, args = [.starred i]) (hkeywords : keywords ≠ []) :
    ArgumentsOk w args keywords =
      IfOk (pyPositionals w.runtime (args.map (PosArg.map w.operand))) fun _ =>
        KeywordsOk w (TupleOk w) [] [] keywords := by
  unfold ArgumentsOk
  split
  · next i _ _ => exact absurd ⟨i, rfl⟩ hargs
  · exact absurd rfl hkeywords
  · rfl

/-- When the generated code of a call does what Python does. -/
def CallOk (c : CallSite ℕ) : List (CallEvent V) → Prop :=
  IfOk (w.operand c.callable) fun _ l =>
    if c.hasUnpack then
      w.lookup l "list" = some w.listType ∧
        (c.keywords ≠ [] → w.lookup l "dict" = some w.dictType) ∧
        ArgumentsOk w c.args c.keywords l
    else c.keywords ≠ [] →
      IfOk (evalOperands (c.args.map (PosArg.map w.operand)))
        (fun _ l => w.lookup l "dict" = some w.dictType) l

/-! ## Looking up a helper -/

section Lookup

variable {w}
variable {α : Type u} {m : Logged (CallEvent V) (CallError V E) α} {l : List (CallEvent V)}

/-- Generated code that makes something of a helper other than a standard one is told apart from
Python, which uses no helper. -/
theorem loadGlobal_bind_eq_iff {name : String} (Std : V → Prop)
    {k : V → Logged (CallEvent V) (CallError V E) α} (hm : Within PyEvent PyError m)
    (hk : ∀ v, ¬ Std v → k v l ≠ m l) :
    (w.runtime.loadGlobal name >>= k) l = m l ↔
      ∃ v, w.lookup l name = some v ∧ Std v ∧ k v l = m l := by
  cases hr : w.lookup l name with
  | none =>
    rw [bind_apply_error l (w.loadGlobal_of_none hr)]
    simp only [reduceCtorEq, false_and, exists_false, iff_false]
    exact fun heq => hm.ne_raise (.nameError name) id l l heq.symm
  | some v =>
    rw [bind_apply_ok l (w.loadGlobal_of_some hr)]
    simp only [Option.some.injEq, exists_eq_left']
    by_cases hv : Std v
    · simp [hv]
    · simp [hv, hk v hv]

variable [DecidableEq V]

theorem makeList_bind_ne {k : Seq V → Logged (CallEvent V) (CallError V E) α} {f : V}
    (hf : f ≠ w.listType) (hm : Within PyEvent PyError m) :
    (makeList w.runtime f >>= k) l ≠ m l := by
  have hmake : makeList w.runtime f =
      (w.runtime.helper (.make f) >>= fun o => pure (.foreign o)) := if_neg hf
  rw [hmake, bind_assoc]
  exact ne_of_observe_bind hm id l

theorem makeDict_bind_ne {k : Kw V → Logged (CallEvent V) (CallError V E) α} {f : V}
    (hf : f ≠ w.dictType) (hm : Within PyEvent PyError m) :
    (makeDict w.runtime f >>= k) l ≠ m l := by
  have hmake : makeDict w.runtime f =
      (w.runtime.helper (.make f) >>= fun o => pure (.foreign o)) := if_neg hf
  rw [hmake, bind_assoc]
  exact ne_of_observe_bind hm id l

theorem list_bind_eq_iff {k : Seq V → Logged (CallEvent V) (CallError V E) α}
    (hm : Within PyEvent PyError m) :
    (w.runtime.loadGlobal "list" >>= fun f => makeList w.runtime f >>= k) l = m l ↔
      w.lookup l "list" = some w.listType ∧ k (.native []) l = m l := by
  rw [loadGlobal_bind_eq_iff (· = w.listType) hm fun v hv => makeList_bind_ne hv hm]
  have hmake : makeList w.runtime w.listType = pure (.native []) := if_pos rfl
  constructor
  · rintro ⟨v, hv, rfl, heq⟩
    rw [hmake, pure_bind] at heq
    exact ⟨hv, heq⟩
  · rintro ⟨hv, heq⟩
    exact ⟨w.listType, hv, rfl, by rw [hmake, pure_bind, heq]⟩

theorem dict_bind_eq_iff {k : Kw V → Logged (CallEvent V) (CallError V E) α}
    (hm : Within PyEvent PyError m) :
    (w.runtime.loadGlobal "dict" >>= fun f => makeDict w.runtime f >>= k) l = m l ↔
      w.lookup l "dict" = some w.dictType ∧ k (.native []) l = m l := by
  rw [loadGlobal_bind_eq_iff (· = w.dictType) hm fun v hv => makeDict_bind_ne hv hm]
  have hmake : makeDict w.runtime w.dictType = pure (.native []) := if_pos rfl
  constructor
  · rintro ⟨v, hv, rfl, heq⟩
    rw [hmake, pure_bind] at heq
    exact ⟨hv, heq⟩
  · rintro ⟨hv, heq⟩
    exact ⟨w.dictType, hv, rfl, by rw [hmake, pure_bind, heq]⟩

/-- The last steps of an unpacking call whose list is the builtin one. -/
theorem tuple_bind_eq_iff (f : V) (items : List V) (kwargs : Option (Kw V)) :
    (w.runtime.loadGlobal "tuple_from_iter" >>= fun t =>
        makeTuple w.runtime t (.native items) >>= fun args => w.runtime.call f args kwargs) l =
        w.runtime.call f (.native items) kwargs l ↔ TupleOk w l := by
  have hpy : Within PyEvent PyError (w.runtime.call f (.native items) kwargs) :=
    within_call w (fun _ _ _ => trivial) (fun _ => trivial) f _ kwargs
  rw [loadGlobal_bind_eq_iff (fun t => t = w.tupleType ∨ t = w.tupleFromIter) hpy]
  · refine exists_congr fun t => and_congr_right fun _ => ?_
    constructor
    · exact fun h => h.1
    · intro ht
      have hmake : makeTuple w.runtime t (.native items) = pure (.native items) := if_pos ht
      exact ⟨ht, by rw [hmake, pure_bind]⟩
  · intro t ht
    have hmake : makeTuple w.runtime t (.native items) =
        (w.runtime.helper (.toTuple t (.native items)) >>= fun o => pure (.foreign o)) :=
      if_neg ht
    rw [hmake, bind_assoc]
    exact ne_of_observe_bind hpy id l

end Lookup

/-! ## Keywords -/

section Keywords

variable {w} [DecidableEq V] {α : Type u}

/-- The keyword arguments on the builtin dict agree with those of the language, up to what follows
them. By induction on the keywords: unless a key has been repeated, the dict holds the merged
arguments and the current run. -/
theorem emitKeywords_bind_eq_iff {k : Kw V → Logged (CallEvent V) (CallError V E) α}
    {k' : List (V × V) → Logged (CallEvent V) (CallError V E) α}
    (Q : List (CallEvent V) → Prop) (hk : ∀ d, Within AnyEvent EmitError (k d))
    (hQ : ∀ kvs l, k (.native kvs) l = k' kvs l ↔ Q l) (keywords : List (KwArg ℕ))
    (kvs acc pending : List (V × V)) (hkvs : Mergeable acc pending → kvs = acc ++ pending)
    (l : List (CallEvent V)) :
    (emitKeywords w.runtime (.native kvs) (keywords.map (KwArg.map w.operand)) >>= k) l =
        (pyKeywords w.runtime acc pending (keywords.map (KwArg.map w.operand)) >>= k') l ↔
      KeywordsOk w Q acc pending keywords l := by
  -- a repeated key ends the language's side with an error that generated code never gives
  have hrefuse : ∀ (acc new : List (V × V)) (m : Logged (CallEvent V) (CallError V E) α)
      (next : List (V × V) → Logged (CallEvent V) (CallError V E) α) (l : List (CallEvent V)),
      Within AnyEvent EmitError m → ¬ Mergeable acc new →
      m l ≠ (pyMerge w.runtime acc new >>= next) l := by
    intro acc new m next l hm hnot
    obtain ⟨key, hkey⟩ := pyMerge_of_not_mergeable w hnot
    rw [hkey]
    exact hm.ne_raise (.multipleValues key) id l l
  induction keywords generalizing kvs acc pending l with
  | nil =>
    by_cases hmerge : Mergeable acc pending
    · simp only [List.map_nil, emitKeywords, pyKeywords, KeywordsOk, pyMerge_of_mergeable w hmerge,
        pure_bind, hmerge, true_and, hkvs hmerge, hQ]
    · simp only [KeywordsOk, hmerge, false_and, iff_false]
      exact hrefuse acc pending _ k' l (hk _) hmerge
  | cons keyword rest ih =>
    have hrest : ∀ d, Within AnyEvent EmitError
        (emitKeywords w.runtime d (rest.map (KwArg.map w.operand)) >>= k) := fun d =>
      .bind (within_emitKeywords w d rest) hk
    cases keyword with
    | named arg i =>
      simp only [List.map_cons, KwArg.map, emitKeywords, emitKeyword, pyKeywords, KeywordsOk,
        bind_assoc, pure_bind]
      rw [bind_eq_bind_iff]
      refine ifOk_congr l fun v l' _ => ih _ _ _ (fun hmerge => ?_) l'
      obtain ⟨hpending, hnew⟩ := mergeable_append_singleton.mp hmerge
      rw [hkvs hpending, dictInsert_of_not_mem hnew, List.append_assoc]
    | starred i =>
      by_cases hmerge : Mergeable acc pending
      · obtain rfl := hkvs hmerge
        simp only [List.map_cons, KwArg.map, emitKeywords, emitKeyword, pyKeywords, KeywordsOk,
          pyMerge_of_mergeable w hmerge, hmerge, true_and, bind_assoc, pure_bind]
        rw [bind_eq_bind_iff]
        refine ifOk_congr l fun v l' _ => ?_
        by_cases hv : w.isMapping v
        · have hmap : w.runtime.isMapping v = true := hv
          simp only [pyMergeMapping, hmap, hv, if_true, true_and, bind_assoc, pure_bind]
          rw [bind_eq_bind_iff]
          refine ifOk_congr l' fun items l'' _ => ?_
          by_cases hitems : Mergeable (acc ++ pending) items
          · rw [pyMerge_of_mergeable w hitems, pure_bind, dictUpdate_of_mergeable hitems,
              and_iff_right hitems]
            exact ih _ _ [] (fun _ => (List.append_nil _).symm) l''
          · simp only [hitems, false_and, iff_false]
            exact hrefuse _ _ _ _ l'' (hrest _) hitems
        · have hmap : w.runtime.isMapping v = false := Bool.not_eq_true _ ▸ hv
          simp only [pyMergeMapping, hmap, hv, Bool.false_eq_true, if_false, false_and, iff_false,
            bind_assoc, pure_bind]
          have hread : Within AnyEvent EmitError (w.runtime.readPairs v) :=
            within_ask trivial (fun _ => trivial) _
          exact (Within.bind hread fun _ => hrest _).ne_raise (.notMapping v) id l' l'
      · simp only [KeywordsOk, hmerge, false_and, iff_false, List.map_cons, KwArg.map, pyKeywords,
          bind_assoc]
        exact hrefuse acc pending _ _ l (.bind (within_emitKeywords w _ (.starred i :: rest)) hk)
          hmerge

omit [DecidableEq V] in
/-- Named arguments alone are in order: the parser refuses a name written twice. -/
theorem keywordsOk_of_named {keywords : List (KwArg ℕ)} (Q : List (CallEvent V) → Prop)
    (hnamed : keywords.any KwArg.isStarred = false) (names : List String) {pending : List (V × V)}
    (hpending : pending.map Prod.fst = names.map w.str)
    (hnodup : (names ++ keywords.filterMap KwArg.name?).Nodup) (hQ : ∀ l, Q l)
    (l : List (CallEvent V)) : KeywordsOk w Q [] pending keywords l := by
  induction keywords generalizing names pending l with
  | nil =>
    refine ⟨⟨?_, by simp⟩, hQ l⟩
    rw [hpending]
    exact List.Nodup.map w.str_injective (by simpa using hnodup)
  | cons keyword rest ih =>
    simp only [List.any_cons, Bool.or_eq_false_iff] at hnamed
    cases keyword with
    | starred i => simp [KwArg.isStarred] at hnamed
    | named arg i =>
      unfold KeywordsOk
      rcases hr : w.operand i l with ⟨e | v, l'⟩
      · rw [ifOk_of_error l hr]
        trivial
      · rw [ifOk_of_ok l hr]
        refine ih hnamed.2 (names ++ [arg]) ?_ ?_ l'
        · simp [hpending]
        · simpa [KwArg.name?] using hnodup

end Keywords

/-! ## Whole calls -/

section Calls

variable [DecidableEq V]

section Agreement

theorem within_pyCall_tail (f : V) (args : List (PosArg ℕ)) (keywords : List (KwArg ℕ)) :
    Within PyEvent PyError
      (pyPositionals w.runtime (args.map (PosArg.map w.operand)) >>= fun args =>
        pyKwargs w.runtime (keywords.map (KwArg.map w.operand)) >>= fun kwargs =>
        w.runtime.call f (.native args) kwargs) :=
  .bind (within_pyPositionals w args) fun _ => .bind (within_pyKwargs w keywords) fun _ =>
    within_call w (fun _ _ _ => trivial) (fun _ => trivial) _ _ _

variable {w}

theorem within_tuple_bind (f : V) (s : Seq V) (kwargs : Option (Kw V)) :
    Within AnyEvent EmitError (w.runtime.loadGlobal "tuple_from_iter" >>= fun t =>
      makeTuple w.runtime t s >>= fun args => w.runtime.call f args kwargs) :=
  .bind (within_loadGlobal w _) fun _ => .bind (within_makeTuple w _ _) fun _ =>
    within_call w (fun _ _ _ => trivial) (fun _ => trivial) _ _ _

/-- Unpacking calls without keywords, from the evaluated callable on. -/
theorem unpack_no_keywords_iff (f : V) (args : List (PosArg ℕ)) (l : List (CallEvent V)) :
    (w.runtime.loadGlobal "list" >>= fun o => makeList w.runtime o >>= fun s =>
        emitPositionals w.runtime s (args.map (PosArg.map w.operand)) >>= fun s =>
        w.runtime.loadGlobal "tuple_from_iter" >>= fun t => makeTuple w.runtime t s >>= fun args =>
        w.runtime.call f args none) l =
      (pyPositionals w.runtime (args.map (PosArg.map w.operand)) >>= fun args =>
        pyKwargs w.runtime [] >>= fun kwargs => w.runtime.call f (.native args) kwargs) l ↔
      w.lookup l "list" = some w.listType ∧
        IfOk (pyPositionals w.runtime (args.map (PosArg.map w.operand)))
          (fun _ => TupleOk w) l := by
  have hpy := within_pyCall_tail w f args []
  rw [List.map_nil] at hpy
  rw [list_bind_eq_iff hpy]
  refine and_congr_right fun _ => ?_
  rw [emitPositionals_native, bind_assoc, bind_eq_bind_iff]
  refine ifOk_congr l fun vs l' _ => ?_
  simp only [pure_bind, pyKwargs, if_true, List.nil_append]
  exact tuple_bind_eq_iff f vs none

/-- Unpacking calls with keywords, from the evaluated callable on, against the order in which the
arguments are written. -/
theorem unpack_keywords_iff (f : V) (args : List (PosArg ℕ)) {keywords : List (KwArg ℕ)}
    (h : keywords ≠ []) (l : List (CallEvent V)) :
    (w.runtime.loadGlobal "list" >>= fun o => makeList w.runtime o >>= fun s =>
        w.runtime.loadGlobal "dict" >>= fun o => makeDict w.runtime o >>= fun d =>
        emitPositionals w.runtime s (args.map (PosArg.map w.operand)) >>= fun s =>
        emitKeywords w.runtime d (keywords.map (KwArg.map w.operand)) >>= fun d =>
        w.runtime.loadGlobal "tuple_from_iter" >>= fun t => makeTuple w.runtime t s >>= fun args =>
        w.runtime.call f args (some d)) l =
      (pyPositionals w.runtime (args.map (PosArg.map w.operand)) >>= fun args =>
        pyKwargs w.runtime (keywords.map (KwArg.map w.operand)) >>= fun kwargs =>
        w.runtime.call f (.native args) kwargs) l ↔
      w.lookup l "list" = some w.listType ∧ w.lookup l "dict" = some w.dictType ∧
        IfOk (pyPositionals w.runtime (args.map (PosArg.map w.operand)))
          (fun _ => KeywordsOk w (TupleOk w) [] [] keywords) l := by
  have hpy := within_pyCall_tail w f args keywords
  rw [list_bind_eq_iff hpy]
  refine and_congr_right fun _ => ?_
  rw [dict_bind_eq_iff hpy]
  refine and_congr_right fun _ => ?_
  rw [emitPositionals_native, bind_assoc, bind_eq_bind_iff]
  refine ifOk_congr l fun vs l' _ => ?_
  have hmap : keywords.map (KwArg.map w.operand) ≠ [] := by simpa using h
  simp only [pure_bind, pyKwargs, if_neg hmap, bind_assoc, List.nil_append]
  exact emitKeywords_bind_eq_iff (TupleOk w) (fun d => within_tuple_bind f _ (some d))
    (fun kvs l => tuple_bind_eq_iff f vs (some (.native kvs))) keywords [] [] []
    (fun _ => rfl) l'

variable (w) in
/-- The first thing that keyword arguments do. -/
theorem pyKwargs_eq_operand_bind {keywords : List (KwArg ℕ)} (h : keywords ≠ []) :
    ∃ j, ∃ k : V → Logged (CallEvent V) (CallError V E) (Option (Kw V)),
      pyKwargs w.runtime (keywords.map (KwArg.map w.operand)) = w.operand j >>= k := by
  cases keywords with
  | nil => exact absurd rfl h
  | cons keyword rest =>
    cases keyword with
    | named arg j =>
      refine ⟨j, fun v => pyKeywords w.runtime [] ([] ++ [(w.str arg, v)])
        (rest.map (KwArg.map w.operand)) >>= fun kvs => pure (some (.native kvs)), ?_⟩
      simp [pyKwargs, pyKeywords, KwArg.map, World.runtime]
    | starred j =>
      refine ⟨j, fun v => pyMergeMapping w.runtime [] v >>= fun acc =>
        pyKeywords w.runtime acc [] (rest.map (KwArg.map w.operand)) >>= fun kvs =>
        pure (some (.native kvs)), ?_⟩
      simp [pyKwargs, pyKeywords, KwArg.map, pyMerge]

/-- A lone `*e` before keywords: the generated code iterates where Python evaluates the first
keyword. -/
theorem lone_starred_iff (f : V) (i : ℕ) {keywords : List (KwArg ℕ)} (h : keywords ≠ [])
    (l : List (CallEvent V)) :
    (w.runtime.loadGlobal "list" >>= fun o => makeList w.runtime o >>= fun s =>
        w.runtime.loadGlobal "dict" >>= fun o => makeDict w.runtime o >>= fun d =>
        emitPositionals w.runtime s [.starred (w.operand i)] >>= fun s =>
        emitKeywords w.runtime d (keywords.map (KwArg.map w.operand)) >>= fun d =>
        w.runtime.loadGlobal "tuple_from_iter" >>= fun t => makeTuple w.runtime t s >>= fun args =>
        w.runtime.call f args (some d)) l =
      (w.operand i >>= fun v =>
        pyKwargs w.runtime (keywords.map (KwArg.map w.operand)) >>= fun kwargs =>
        w.runtime.iterate v >>= fun args => w.runtime.call f (.native args) kwargs) l ↔
      w.lookup l "list" = some w.listType ∧ w.lookup l "dict" = some w.dictType ∧
        IfOk (w.operand i) (fun _ _ => False) l := by
  obtain ⟨j, next, hkwargs⟩ := pyKwargs_eq_operand_bind w h
  have hpy : Within PyEvent PyError (w.operand i >>= fun v =>
      pyKwargs w.runtime (keywords.map (KwArg.map w.operand)) >>= fun kwargs =>
      w.runtime.iterate v >>= fun args => w.runtime.call f (.native args) kwargs) :=
    .bind (within_operand w (fun _ => trivial) (fun _ => trivial) i) fun v =>
      .bind (within_pyKwargs w keywords) fun kwargs =>
        .bind (within_ask trivial (fun _ => trivial) _) fun _ =>
          within_call w (fun _ _ _ => trivial) (fun _ => trivial) _ _ _
  rw [list_bind_eq_iff hpy]
  refine and_congr_right fun _ => ?_
  rw [dict_bind_eq_iff hpy]
  refine and_congr_right fun _ => ?_
  simp only [emitPositionals_native, pyPositionals, PosArg.expr, PosArg.isStarred, if_true,
    bind_assoc, pure_bind]
  rw [bind_eq_bind_iff]
  refine ifOk_congr l fun v l' _ => ?_
  rw [iff_false, hkwargs, bind_assoc]
  refine @Apart.ne _ _ _ PyEvent PyError _ _ _ (apart_of_events (.iterate v) (.evaluate j) ?_
    (observe_bind_history _ _ _ l') (observe_bind_history _ _ _ l'))
  simp

/-- Keywords without unpacking, from the evaluated arguments on. -/
theorem plain_keywords_iff (f : V) (args : List V) {keywords : List (KwArg ℕ)}
    (h : keywords ≠ []) (hnamed : keywords.any KwArg.isStarred = false)
    (hnodup : (keywords.filterMap KwArg.name?).Nodup) (l : List (CallEvent V)) :
    (w.runtime.loadGlobal "dict" >>= fun o => makeDict w.runtime o >>= fun d =>
        emitKeywords w.runtime d (keywords.map (KwArg.map w.operand)) >>= fun d =>
        w.runtime.call f (.native args) (some d)) l =
      (pyKwargs w.runtime (keywords.map (KwArg.map w.operand)) >>= fun kwargs =>
        w.runtime.call f (.native args) kwargs) l ↔ w.lookup l "dict" = some w.dictType := by
  have hcall : ∀ d, Within AnyEvent EmitError (w.runtime.call f (.native args) (some d)) :=
    fun d => within_call w (fun _ _ _ => trivial) (fun _ => trivial) _ _ _
  have hpy : Within PyEvent PyError
      (pyKwargs w.runtime (keywords.map (KwArg.map w.operand)) >>= fun kwargs =>
        w.runtime.call f (.native args) kwargs) :=
    .bind (within_pyKwargs w keywords) fun _ =>
      within_call w (fun _ _ _ => trivial) (fun _ => trivial) _ _ _
  rw [dict_bind_eq_iff hpy]
  refine and_iff_left ?_
  have hmap : keywords.map (KwArg.map w.operand) ≠ [] := by simpa using h
  simp only [pyKwargs, if_neg hmap, bind_assoc, pure_bind]
  rw [emitKeywords_bind_eq_iff (fun _ => True) hcall (fun kvs l => iff_true_intro rfl) keywords
    [] [] [] (fun _ => rfl) l]
  exact keywordsOk_of_named (fun _ => True) hnamed [] rfl (by simpa using hnodup)
    (fun _ => trivial) l

variable (w)

end Agreement

end Calls

/-! ## A call that fails -/

inductive Value
  | str (s : String)
  | obj (n : ℕ)
  deriving DecidableEq

/-- A module that binds no helper name itself: `tuple_from_iter` is not among the builtins. -/
def freshModule : World Value Empty where
  listType := .obj 0
  dictType := .obj 1
  tupleType := .obj 2
  tupleFromIter := .obj 3
  str := .str
  str_injective _ _ h := Value.str.inj h
  isMapping _ := false
  lookup _ name :=
    if name = "list" then some (.obj 0) else if name = "dict" then some (.obj 1) else none
  evaluate _ operand := .ok (.obj (operand + 4))
  iterate _ _ := .ok [.obj 6, .obj 7]
  readMapping _ _ := .ok []
  readPairs _ _ := .ok []
  helper _ _ := .ok (.obj 8)
  call _ _ _ _ := .ok (.obj 9)

/-- `f(*a)` -/
def starredCall : ParsedCall ℕ where
  callable := 0
  args := [.starred 1]
  keywords := []
  named_nodup := .nil

end DietPython.Jit
