import DietPython.Calls.BindingSteps
import Mathlib.Data.Set.List

/-!
# The binder and Python's call binding

A call that binds is bound as Python binds it, and any other is a `TypeError`, unless the binder
comes to a keyword that has no UTF-8 text.
-/

namespace DietPython.Calls

/-! ## The keyword loop -/

section KeywordLoop

variable {V : Type}

/-- One of these keywords cannot be read, and those in front of it bind. -/
def UnreadableAfter (p : Parameters V) (args : List V) (pre kws : List (PyStr × V)) : Prop :=
  ∃ mid kw post, kws = mid ++ kw :: post ∧ PyStr.HasSurrogate kw.1 ∧ KeywordsFit p args (pre ++ mid)

/-- The binder comes to a keyword that it cannot read. -/
def ReachesUnreadable (p : Parameters V) (args : List V) (kws : List (PyStr × V)) : Prop :=
  (p.vararg = none → args.length ≤ p.capacity) ∧ UnreadableAfter p args [] kws

theorem KeywordsFit.of_append {p : Parameters V} {args : List V} {pre post : List (PyStr × V)}
    (h : KeywordsFit p args (pre ++ post)) : KeywordsFit p args pre := by
  constructor
  · intro hkwarg
    have hnil := h.known hkwarg
    unfold surplus at hnil
    rw [List.filter_append] at hnil
    exact (List.append_eq_nil_iff.mp hnil).1
  · intro i q hq
    have hone := h.once i q hq
    unfold given at hone ⊢
    rw [List.filter_append, List.map_append, ← List.append_assoc, List.length_append] at hone
    omega

theorem keywordsFit_nil (p : Parameters V) (args : List V) : KeywordsFit p args [] := by
  refine ⟨fun _ => rfl, fun i q _ => ?_⟩
  unfold given
  split_ifs <;> cases args[i]? <;> simp

theorem unreadableAfter_cons {p : Parameters V} {args : List V} {pre kws : List (PyStr × V)}
    {kw : PyStr × V} (h : ¬ PyStr.HasSurrogate kw.1) :
    UnreadableAfter p args pre (kw :: kws) ↔ UnreadableAfter p args (pre ++ [kw]) kws := by
  constructor
  · rintro ⟨mid, kw', post, heq, hsurrogate, hfit⟩
    cases mid with
    | nil =>
      obtain ⟨rfl, _⟩ := List.cons.inj heq
      exact absurd hsurrogate h
    | cons kw'' mid =>
      obtain ⟨rfl, htail⟩ := List.cons.inj heq
      rw [List.append_cons] at hfit
      exact ⟨mid, kw', post, htail, hsurrogate, hfit⟩
  · rintro ⟨mid, kw', post, rfl, hsurrogate, hfit⟩
    refine ⟨kw :: mid, kw', post, rfl, hsurrogate, ?_⟩
    rwa [List.append_cons]

/-- A keyword that can be read is bound when it fits and is a `TypeError` when it does not. -/
theorem bindKeyword_fits (callableName : String) {p : Parameters V} {args : List V}
    {pre : List (PyStr × V)} {kw : PyStr × V} (hread : ¬ PyStr.HasSurrogate kw.1)
    (hpre : KeywordsFit p args pre) :
    (KeywordsFit p args (pre ++ [kw]) ∧
      bindKeyword callableName (p.all.map toParam) (cellsOf p args pre) kw =
        .ok (cellsOf p args (pre ++ [kw]))) ∨
    (¬ KeywordsFit p args (pre ++ [kw]) ∧ ∃ message,
      bindKeyword callableName (p.all.map toParam) (cellsOf p args pre) kw =
        .error (.typeError message)) := by
  obtain ⟨keyName, hkey⟩ : ∃ keyName, pyString kw.1 = some keyName := by
    rwa [← Option.ne_none_iff_exists', Ne, pyString_eq_none]
  by_cases htakes : ∃ q ∈ p.all, Takes q kw.1
  · obtain ⟨q, hmem, htakes⟩ := htakes
    obtain ⟨i, hq⟩ := List.getElem?_of_mem hmem
    rw [bindKeyword_takes callableName args pre hq htakes]
    by_cases hnil : given args pre i q = []
    · rw [if_pos hnil]
      refine .inl ⟨⟨fun hkwarg => ?_, fun j q' hq' => ?_⟩, rfl⟩
      · rw [surplus_append_takes hmem pre htakes]
        exact hpre.known hkwarg
      · rw [given_append]
        by_cases htakes' : Takes q' kw.1
        · have hsame : j = i := by
            have hname := (pyString_eq_some kw.1 q.2.name).mpr htakes.2
            rw [(pyString_eq_some kw.1 q'.2.name).mpr htakes'.2] at hname
            exact all_index_inj p hq' hq (Option.some.inj hname)
          subst hsame
          rw [hq] at hq'
          obtain rfl := Option.some.inj hq'
          rw [hnil, if_pos htakes']
          exact Nat.le_refl 1
        · rw [if_neg htakes', List.append_nil]
          exact hpre.once j q' hq'
    · rw [if_neg hnil]
      refine .inr ⟨fun hfit => ?_, _, rfl⟩
      have hone := hfit.once i q hq
      rw [given_append, if_pos htakes, List.length_append] at hone
      have hpos := List.length_pos_iff.mpr hnil
      simp only [List.length_singleton] at hone
      omega
  · have hnone : ∀ q ∈ p.all, ¬ Takes q kw.1 := fun q hq h => htakes ⟨q, hq, h⟩
    rw [bindKeyword_surplus callableName args pre hkey hnone]
    cases hkwarg : p.kwarg with
    | none =>
      refine .inr ⟨fun hfit => ?_, _, rfl⟩
      have hnil := hfit.known hkwarg
      rw [surplus_append pre hnone] at hnil
      simp at hnil
    | some name =>
      refine .inl ⟨⟨fun hkwarg' => ?_, fun j q' hq' => ?_⟩, rfl⟩
      · rw [hkwarg] at hkwarg'
        cases hkwarg'
      · rw [given_append, if_neg (hnone q' (List.mem_of_getElem? hq')), List.append_nil]
        exact hpre.once j q' hq'

/-- The three ways in which the loop ends. -/
theorem bindKeywords_run (callableName : String) {p : Parameters V} {args : List V}
    (kws : List (PyStr × V)) {pre : List (PyStr × V)} (hpre : KeywordsFit p args pre) :
    (KeywordsFit p args (pre ++ kws) ∧ ¬ UnreadableAfter p args pre kws ∧
      bindKeywords callableName (p.all.map toParam) (cellsOf p args pre) kws =
        .ok (cellsOf p args (pre ++ kws))) ∨
    (¬ KeywordsFit p args (pre ++ kws) ∧ ¬ UnreadableAfter p args pre kws ∧ ∃ message,
      bindKeywords callableName (p.all.map toParam) (cellsOf p args pre) kws =
        .error (.typeError message)) ∨
    (UnreadableAfter p args pre kws ∧
      bindKeywords callableName (p.all.map toParam) (cellsOf p args pre) kws =
        .error .unicodeEncodeError) := by
  unfold bindKeywords
  induction kws generalizing pre with
  | nil =>
    refine .inl ⟨by rwa [List.append_nil], ?_, by rw [List.append_nil]; rfl⟩
    rintro ⟨mid, kw, post, heq, _⟩
    simp at heq
  | cons kw kws ih =>
    rw [List.foldlM_cons]
    by_cases hread : PyStr.HasSurrogate kw.1
    · refine .inr (.inr ⟨⟨[], kw, kws, rfl, hread, by rwa [List.append_nil]⟩, ?_⟩)
      simp only [bindKeyword, (pyString_eq_none kw.1).mpr hread]
      rfl
    · rw [unreadableAfter_cons hread, List.append_cons]
      rcases bindKeyword_fits callableName hread hpre with ⟨hfit, hok⟩ | ⟨hfit, message, herror⟩
      · rw [hok]
        exact ih hfit
      · rw [herror]
        refine .inr (.inl ⟨fun h => hfit h.of_append, ?_, message, rfl⟩)
        rintro ⟨_, _, _, _, _, hfit'⟩
        exact hfit hfit'.of_append

end KeywordLoop

/-! ## Missing arguments and entering -/

section Entering

variable {V : Type}

/-- Each parameter has a value or a default. -/
def Filled (p : Parameters V) (args : List V) (kws : List (PyStr × V)) : Prop :=
  ∀ i q, p.all[i]? = some q → (taken p args kws i q).isSome ∨ q.2.default.isSome

theorem checkMissing_run (callableName : String) (cells : Cells V) (params : List (Param × ℕ)) :
    ((∀ e ∈ params, (cells.assigned e.2 || e.1.kind.isVariadic || e.1.hasDefault) = true) ∧
      checkMissing callableName cells params = .ok ()) ∨
    (¬ (∀ e ∈ params, (cells.assigned e.2 || e.1.kind.isVariadic || e.1.hasDefault) = true) ∧
      ∃ message, checkMissing callableName cells params = .error (.typeError message)) := by
  induction params with
  | nil => exact .inl ⟨fun _ he => absurd he List.not_mem_nil, rfl⟩
  | cons e rest ih =>
    obtain ⟨param, i⟩ := e
    unfold checkMissing
    by_cases hhere : (cells.assigned i || param.kind.isVariadic || param.hasDefault) = true
    · rw [if_pos hhere]
      rcases ih with ⟨hrest, hok⟩ | ⟨hrest, herror⟩
      · exact .inl ⟨List.forall_mem_cons.mpr ⟨hhere, hrest⟩, hok⟩
      · exact .inr ⟨fun h => hrest (List.forall_mem_cons.mp h).2, herror⟩
    · rw [if_neg hhere]
      exact .inr ⟨fun h => hhere (List.forall_mem_cons.mp h).1, _, rfl⟩

/-- What the last loop looks at says whether each parameter has a value. -/
theorem filled_iff (p : Parameters V) (args : List V) (kws : List (PyStr × V)) :
    (∀ e ∈ (p.all.map toParam).zipIdx, ((cellsOf p args kws).assigned e.2 ||
      e.1.kind.isVariadic || e.1.hasDefault) = true) ↔ Filled p args kws := by
  have hvariadic : ∀ i q, p.all[i]? = some q → q.1.isVariadic = true →
      (taken p args kws i q).isSome := by
    rintro i ⟨kind, parameter⟩ _ h
    cases kind with
    | posOnly | any | kwOnly => cases h
    | varArg | kwArg => rfl
  have hpoint : ∀ i q, p.all[i]? = some q →
      (((cellsOf p args kws).assigned i || q.1.isVariadic || q.2.default.isSome) = true ↔
        (taken p args kws i q).isSome ∨ q.2.default.isSome) := by
    intro i q hq
    have hassigned : (cellsOf p args kws).assigned i = (taken p args kws i q).isSome := by
      show (p.all[i]?.bind _).isSome = _
      rw [hq]
      rfl
    rw [hassigned]
    have h := hvariadic i q hq
    simp only [Bool.or_eq_true]
    tauto
  constructor
  · intro h i q hq
    have hmem : (toParam q, i) ∈ (p.all.map toParam).zipIdx := by
      rw [List.mem_zipIdx_iff_getElem?, List.getElem?_map, hq]
      rfl
    exact (hpoint i q hq).mp (h _ hmem)
  · rintro h ⟨param, i⟩ he
    rw [List.mem_zipIdx_iff_getElem?, List.getElem?_map, Option.map_eq_some_iff] at he
    obtain ⟨q, hq, rfl⟩ := he
    exact (hpoint i q hq).mpr (h i q hq)

/-- The compiled entry fills each null with the default that is found for it. -/
theorem enter_zip (d : FunctionDefaults V) (params : List (Param × Option ParamDefaultSource))
    (cells : List (Option (BoundValue V)))
    (h : ∀ e ∈ params, e.2 = none ∨ (e.2.bind d.lookup).isSome) :
    (params.zip cells).mapM (fun e => enterArg d e.1 e.2) =
      .ok ((params.zip cells).map fun e => e.2 <|> (e.1.2.bind d.lookup).map .value) := by
  induction params generalizing cells with
  | nil => rfl
  | cons e params ih =>
    cases cells with
    | nil => rfl
    | cons cell cells =>
      obtain ⟨hhere, hrest⟩ := List.forall_mem_cons.mp h
      obtain ⟨param, source⟩ := e
      have henter : enterArg d (param, source) cell =
          .ok (cell <|> (source.bind d.lookup).map .value) := by
        cases cell with
        | some v => cases source <;> rfl
        | none =>
          cases source with
          | none => rfl
          | some source =>
            have hdefault : (d.lookup source).isSome := by simpa using hhere
            obtain ⟨v, hv⟩ := Option.isSome_iff_exists.mp hdefault
            simp [enterArg, hv]
      rw [List.zip_cons_cons, List.mapM_cons, henter, ih cells hrest]
      rfl

theorem cells_list (p : Parameters V) (args : List V) (kws : List (PyStr × V)) :
    (List.range (p.all.map toParam).length).map (cellsOf p args kws).bound =
      p.all.mapIdx fun i q => taken p args kws i q := by
  apply List.ext_getElem?
  intro i
  rw [List.getElem?_map, List.getElem?_mapIdx, List.length_map]
  by_cases hi : i < p.all.length
  · rw [List.getElem?_range hi, List.getElem?_eq_getElem hi]
    show some (p.all[i]?.bind _) = _
    rw [List.getElem?_eq_getElem hi]
    rfl
  · rw [List.getElem?_eq_none (by simpa using hi), List.getElem?_eq_none (by simpa using hi)]
    rfl

/-- The body starts with what is passed, and with the default where nothing is. -/
theorem enterArgs_all (p : Parameters V)
    (cells : ℕ → ParamKind × Parameter V → Option (BoundValue V)) :
    enterArgs (defaultsOf p.all) (p.all.map toParam) (p.all.mapIdx cells) =
      .ok (p.all.mapIdx fun i q => cells i q <|> q.2.default.map .value) := by
  have hindex : ∀ i : ℕ, (iterWithDefaultSources 0 (p.all.map toParam))[i]?.map
      (fun e => e.2.bind (defaultsOf p.all).lookup) = p.all[i]?.map fun q => q.2.default := by
    intro i
    rw [← List.getElem?_map, lookup_default_all, List.getElem?_map]
  unfold enterArgs
  rw [enter_zip]
  · refine congrArg Except.ok (List.ext_getElem? fun i => ?_)
    have hi := hindex i
    rw [List.getElem?_map, List.getElem?_mapIdx, List.zip_eq_zipWith, List.getElem?_zipWith,
      List.getElem?_mapIdx]
    cases hq : p.all[i]? with
    | none =>
      cases (iterWithDefaultSources 0 (p.all.map toParam))[i]? <;> rfl
    | some q =>
      rw [hq] at hi
      obtain ⟨e, he, hdefault⟩ := Option.map_eq_some_iff.mp hi
      rw [he]
      simp only [Option.map_some, hdefault]
  · intro e he
    obtain ⟨i, hi⟩ := List.getElem?_of_mem he
    have hfst := congrArg (fun l => l[i]?) (iterWithDefaultSources_fst 0 (p.all.map toParam))
    simp only [List.getElem?_map, hi, Option.map_some] at hfst
    obtain ⟨q, hq, hparam⟩ := Option.map_eq_some_iff.mp hfst.symm
    have hdefault := hindex i
    rw [hi, hq] at hdefault
    have hdefault : e.2.bind (defaultsOf p.all).lookup = q.2.default := Option.some.inj hdefault
    cases hnone : q.2.default with
    | none =>
      refine .inl (iterWithDefaultSources_none he ?_)
      rw [← hparam, toParam_hasDefault, hnone]
      rfl
    | some v =>
      rw [hdefault, hnone]
      exact .inr rfl

end Entering

/-! ## Agreement -/

section Agreement

variable {V : Type}

/-- Python binds a call exactly when its arguments fit and each parameter has a value. -/
theorem exists_binds_iff (p : Parameters V) (args : List V) (kws : List (PyStr × V)) :
    (∃ values, Binds p args kws values) ↔
      KeywordsFit p args kws ∧ (p.vararg = none → args.length ≤ p.capacity) ∧
        Filled p args kws := by
  have hvalue : ∀ i q, (taken p args kws i q <|> q.2.default.map BoundValue.value).isSome ↔
      (taken p args kws i q).isSome ∨ q.2.default.isSome := by
    intro i q
    cases taken p args kws i q <;> simp
  constructor
  · rintro ⟨values, hbinds⟩
    refine ⟨hbinds.toKeywordsFit, hbinds.fits, fun i q hq => (hvalue i q).mp ?_⟩
    have hi := congrArg (fun l => l[i]?) hbinds.values_eq
    simp only [List.getElem?_map, List.getElem?_mapIdx, hq, Option.map_some] at hi
    obtain ⟨v, _, hv⟩ := Option.map_eq_some_iff.mp hi
    rw [← hv]
    rfl
  · rintro ⟨hkeywords, hfits, hfilled⟩
    have hrange : (p.all.mapIdx fun i q => taken p args kws i q <|> q.2.default.map .value) ∈
        Set.range (List.map some) := by
      rw [Set.range_list_map]
      intro o ho
      obtain ⟨i, hi, rfl⟩ := List.mem_mapIdx.mp ho
      have hsome := (hvalue i p.all[i]).mpr (hfilled i _ (List.getElem?_eq_getElem hi))
      obtain ⟨v, hv⟩ := Option.isSome_iff_exists.mp hsome
      exact ⟨v, hv.symm⟩
    obtain ⟨values, hvalues⟩ := hrange
    exact ⟨values, ⟨hkeywords, hfits, hvalues⟩⟩

/-- The binder does what Python does: the same values on entry, or `TypeError`. -/
def Agrees (callableName : String) (p : Parameters V) (args : List V) (kws : List (PyStr × V)) :
    Prop :=
  let collected := collectParamSpecAndDefaults p
  ∃ d, splitParamDefaults collected.1 collected.2 = .ok d ∧
    match buildFunctionBoundArgs callableName collected.1 args kws with
    | .ok cells =>
      ∃ values, enterArgs d collected.1 cells = .ok (values.map some) ∧ Binds p args kws values
    | .error e => e.isTypeError = true ∧ ∀ values, ¬ Binds p args kws values

/-- What the binder does, case by case. -/
theorem buildFunctionBoundArgs_run (callableName : String) (p : Parameters V) (args : List V)
    (kws : List (PyStr × V)) :
    (KeywordsFit p args kws ∧ (p.vararg = none → args.length ≤ p.capacity) ∧ Filled p args kws ∧
      ¬ ReachesUnreadable p args kws ∧
      buildFunctionBoundArgs callableName (p.all.map toParam) args kws =
        .ok (p.all.mapIdx fun i q => taken p args kws i q)) ∨
    (¬ (KeywordsFit p args kws ∧ (p.vararg = none → args.length ≤ p.capacity) ∧
        Filled p args kws) ∧ ¬ ReachesUnreadable p args kws ∧ ∃ message,
      buildFunctionBoundArgs callableName (p.all.map toParam) args kws =
        .error (.typeError message)) ∨
    (ReachesUnreadable p args kws ∧
      buildFunctionBoundArgs callableName (p.all.map toParam) args kws =
        .error .unicodeEncodeError) := by
  have hvararg : varargIndex (p.all.map toParam) = none ↔ p.vararg = none := by
    constructor
    · intro h
      cases hname : p.vararg with
      | none => rfl
      | some name =>
        obtain ⟨i, hq⟩ := List.getElem?_of_mem (exists_vararg p hname)
        rw [(varargIndex_eq_some p i).mpr ⟨_, hq, rfl⟩] at h
        cases h
    · intro h
      cases hi : varargIndex (p.all.map toParam) with
      | none => rfl
      | some i =>
        obtain ⟨q, hq, hkind⟩ := (varargIndex_eq_some p i).mp hi
        rw [vararg_of_all p hq hkind] at h
        cases h
  have hcapacity : (positionalParamIndices (p.all.map toParam)).length = p.capacity := by
    rw [positionalParamIndices_all, List.length_range]
  unfold buildFunctionBoundArgs
  simp only [hcapacity, hvararg]
  by_cases hfits : p.vararg = none → args.length ≤ p.capacity
  · rw [if_neg (by intro h; have := hfits h.1; omega), initial_cells]
    rcases bindKeywords_run callableName kws (keywordsFit_nil p args) with
      ⟨hfit, hread, hok⟩ | ⟨hfit, hread, message, herror⟩ | ⟨hread, herror⟩
    · rw [hok]
      rcases checkMissing_run callableName (cellsOf p args kws) (p.all.map toParam).zipIdx with
        ⟨hfilled, hok⟩ | ⟨hfilled, message, herror⟩
      · refine .inl ⟨hfit, hfits, (filled_iff p args kws).mp hfilled, fun h => hread h.2, ?_⟩
        rw [← cells_list]
        simp only [List.nil_append, bind, Except.bind, hok]
        rfl
      · refine .inr (.inl ⟨fun h => hfilled ((filled_iff p args kws).mpr h.2.2),
          fun h => hread h.2, message, ?_⟩)
        simp only [List.nil_append, bind, Except.bind, herror]
    · rw [herror]
      exact .inr (.inl ⟨fun h => hfit h.1, fun h => hread h.2, message, rfl⟩)
    · rw [herror]
      exact .inr (.inr ⟨⟨hfits, hread⟩, rfl⟩)
  · have hover : p.vararg = none ∧ p.capacity < args.length := by
      obtain ⟨hnone, hlt⟩ := Classical.not_imp.mp hfits
      exact ⟨hnone, by omega⟩
    rw [if_pos hover]
    exact .inr (.inl ⟨fun h => hfits h.2.1, fun h => hfits h.1, _, rfl⟩)

end Agreement

end DietPython.Calls
