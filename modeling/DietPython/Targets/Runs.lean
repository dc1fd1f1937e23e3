import DietPython.Targets.Lowering

/-!
# What lowered assignments do

Both lowerings of a target have the effects of the assignment itself, in the same order: what is
unpacked is taken first, and each target evaluates its object and its index just before its store.
They differ in their temporaries only, which nothing behind the assignment reads.
-/

namespace DietPython.Targets

section Runs

variable {E N V X σ β : Type} (rt : Storing E N V X σ)

/-! ## What is accepted -/

/-- An action that fails with this message exactly when `accepted` is false. -/
def Accepts {α : Type} (accepted : Bool) (message : String) (m : Except String α) : Prop :=
  if accepted then ∃ r, m = .ok r else m = .error message

theorem Accepts.bind {α γ : Type} {a b : Bool} {message : String} {m : Except String α}
    {f : α → Except String γ} (hm : Accepts a message m) (hf : ∀ r, Accepts b message (f r)) :
    Accepts (a && b) message (m >>= f) := by
  unfold Accepts at hm ⊢
  cases a with
  | false =>
    rw [if_neg Bool.false_ne_true] at hm
    rw [hm]
    rfl
  | true =>
    obtain ⟨r, rfl⟩ := hm
    exact hf r

theorem Accepts.pure {α : Type} (message : String) (r : α) :
    Accepts true message (pure r : Except String α) := ⟨r, rfl⟩

theorem Accepts.ite {α : Type} {a : Bool} {message : String} {m : Except String α} {b : Bool}
    (hm : Accepts b message m) :
    Accepts (a && b) message (if !a then throw message else m) := by
  cases a with
  | false => exact rfl
  | true => exact hm

theorem Accepts.and_true {α : Type} {a : Bool} {message : String} {m : Except String α}
    (hm : Accepts (a && true) message m) : Accepts a message m := by
  rwa [Bool.and_true] at hm

mutual

theorem accepts_lower (target : Target E N) (rhs : Operand E) (t : ℕ) :
    Accepts target.accepted "unsupported starred assignment target" (target.lower rhs t) := by
  match target with
  | .name n => exact Accepts.pure _ _
  | .attribute object attr => exact Accepts.pure _ _
  | .subscript object slice => exact Accepts.pure _ _
  | .unpack elts =>
    unfold Target.lower Target.accepted
    exact Accepts.ite ((accepts_lowerElts elts t 0 (t + 1)).bind fun _ => Accepts.pure _ _).and_true

theorem accepts_lowerElts (elts : Elts E N) (u i t : ℕ) :
    Accepts elts.accepted "unsupported starred assignment target" (elts.lower u i t) := by
  match elts with
  | .nil => exact Accepts.pure _ _
  | .cons starred target rest =>
    unfold Elts.lower Elts.accepted
    exact (accepts_lower target _ t).bind fun _ =>
      ((accepts_lowerElts rest u (i + 1) _).bind fun _ => Accepts.pure _ _).and_true

end

mutual

theorem accepts_rewrite (target : Target E N) (rhs : Operand E) (t : ℕ) :
    Accepts target.accepted "unsupported starred with-target assignment"
      (target.rewrite rhs t) := by
  match target with
  | .name n => exact Accepts.pure _ _
  | .attribute object attr => exact Accepts.pure _ _
  | .subscript object slice => exact Accepts.pure _ _
  | .unpack elts =>
    unfold Target.rewrite Target.accepted
    exact Accepts.ite
      ((accepts_rewriteElts elts t 0 (t + 1)).bind fun _ => Accepts.pure _ _).and_true

theorem accepts_rewriteElts (elts : Elts E N) (u i t : ℕ) :
    Accepts elts.accepted "unsupported starred with-target assignment" (elts.rewrite u i t) := by
  match elts with
  | .nil => exact Accepts.pure _ _
  | .cons starred target rest =>
    unfold Elts.rewrite Elts.accepted
    exact (accepts_rewrite target _ t).bind fun _ =>
      ((accepts_rewriteElts rest u (i + 1) _).bind fun _ => Accepts.pure _ _).and_true

end

theorem accepts_targets (targets : List (Target E N)) (u : ℕ) (acc : List (Instr E N) × ℕ) :
    Accepts (targets.all Target.accepted) "unsupported starred assignment target"
      (targets.foldlM (fun (code, next) target => do
        let (more, last) ← target.lower (.temp u) next
        pure (code ++ more, last)) acc) := by
  induction targets generalizing acc with
  | nil => exact Accepts.pure _ _
  | cons target targets ih =>
    rw [List.foldlM_cons, List.all_cons]
    exact ((accepts_lower target _ acc.2).bind fun _ => Accepts.pure _ _).and_true.bind
      fun r => ih r

theorem accepts_lowerAssign (value : Operand E) (targets : List (Target E N)) (t : ℕ) :
    Accepts (targets.all Target.accepted) "unsupported starred assignment target"
      (lowerAssign value targets t) := by
  unfold lowerAssign
  split
  · exact Accepts.pure _ _
  · exact ((accepts_targets targets t _).bind fun _ => Accepts.pure _ _).and_true

theorem accepts_buildForTargetAssignBody (target : Target E N) (rhs : Operand E) (tmp t : ℕ) :
    Accepts target.accepted "unsupported starred with-target assignment"
      (buildForTargetAssignBody target rhs tmp t) :=
  ((accepts_rewrite target (.temp tmp) t).bind fun _ => Accepts.pure _ _).and_true

/-! ## Temporaries -/

/-- The same temporaries below `t`. -/
def SameBelow (t : ℕ) (temps temps' : Temps V) : Prop := ∀ u < t, temps' u = temps u

/-- The operand has this value, and only temporaries below `t` matter for that. -/
def Denotes (rhs : Operand E) (t : ℕ) (temps : Temps V) (v : V) : Prop :=
  ∀ temps', SameBelow t temps temps' → rhs.eval rt temps' = pure v

/-- What follows reads only temporaries below `t`. -/
def ReadsBelow (t : ℕ) (temps : Temps V) (k : Temps V → Act X σ β) : Prop :=
  ∀ temps', SameBelow t temps temps' → k temps' = k temps

theorem SameBelow.refl (t : ℕ) (temps : Temps V) : SameBelow t temps temps := fun _ _ => rfl

theorem SameBelow.update {t u : ℕ} (h : t ≤ u) {temps temps' : Temps V}
    (hs : SameBelow t temps temps') (value : Option (TempValue V)) :
    SameBelow t temps (Function.update temps' u value) := by
  intro w hw
  rw [Function.update_of_ne (by omega), hs w hw]

theorem SameBelow.mono {t u : ℕ} (h : t ≤ u) {temps temps' : Temps V}
    (hs : SameBelow u temps temps') : SameBelow t temps temps' :=
  fun w hw => hs w (by omega)

theorem SameBelow.trans {t : ℕ} {temps temps' temps'' : Temps V}
    (h : SameBelow t temps temps') (h' : SameBelow t temps' temps'') : SameBelow t temps temps'' :=
  fun w hw => (h' w hw).trans (h w hw)

variable {rt}

theorem ReadsBelow.mono {t u : ℕ} (h : t ≤ u) {temps temps' : Temps V}
    {k : Temps V → Act X σ β} (hk : ReadsBelow t temps k) (hs : SameBelow t temps temps') :
    ReadsBelow u temps' k := by
  intro temps'' hs'
  rw [hk temps'' (hs.trans (hs'.mono h)), hk temps' hs]

theorem denotes_temp {t u : ℕ} {temps : Temps V} {v : V} (hu : u < t)
    (h : temps u = some (.object v)) : Denotes rt (.temp u) t temps v := by
  intro temps' hs
  simp only [Operand.eval, hs u hu, h]

theorem denotes_item {t u i : ℕ} {temps : Temps V} {slots : List (Slot V)} {slot : Slot V}
    {starred : Bool} (hu : u < t) (h : temps u = some (.unpacked slots))
    (hi : slots[i]? = some slot) (hs : slot.isItem = !starred) :
    Denotes rt (itemOperand starred u i) t temps (slotValue rt slot) := by
  intro temps' hsame
  unfold itemOperand
  cases starred with
  | false =>
    show (Operand.item u i).eval rt temps' = _
    simp only [Operand.eval, hsame u hu, h, hi]
  | true =>
    cases slot with
    | item v => cases hs
    | rest vs =>
      show (Operand.listItem u i).eval rt temps' = _
      simp only [Operand.eval, hsame u hu, h, hi]
      rfl

theorem readTemp_of_eq {t : ℕ} {temps : Temps V} {v : V} (h : temps t = some (.object v)) :
    readTemp rt temps t = pure v := by
  simp only [readTemp, Operand.eval, h]

/-! ## Steps -/

variable (rt) in
theorem runInstrs_append (as bs : List (Instr E N)) (temps : Temps V) :
    runInstrs rt (as ++ bs) temps = runInstrs rt as temps >>= runInstrs rt bs := by
  induction as generalizing temps with
  | nil =>
    show runInstrs rt bs temps = pure temps >>= runInstrs rt bs
    rw [pure_bind]
  | cons a as ih =>
    show (a.run rt temps >>= fun temps => runInstrs rt (as ++ bs) temps) = _
    simp only [ih]
    show _ = (a.run rt temps >>= runInstrs rt as) >>= runInstrs rt bs
    rw [bind_assoc]

variable (rt) in
/-- Store into a temporary, and go on. -/
theorem runInstrs_bind (t : ℕ) (value : Operand E) (rest : List (Instr E N)) (temps : Temps V)
    (k : Temps V → Act X σ β) :
    runInstrs rt (.bind t value :: rest) temps >>= k =
      value.eval rt temps >>= fun v =>
        runInstrs rt rest (Function.update temps t (some (.object v))) >>= k := by
  show ((Instr.bind t value).run rt temps >>= runInstrs rt rest) >>= k = _
  unfold Instr.run
  simp only [bind_assoc, pure_bind]

variable (rt) in
theorem runInstrs_last (instr : Instr E N) (temps : Temps V) (k : Temps V → Act X σ β) :
    runInstrs rt [instr] temps >>= k = instr.run rt temps >>= k := by
  show (instr.run rt temps >>= fun temps => pure temps) >>= k = _
  rw [bind_pure]

/-! ## Stores -/

section Stores

variable {t : ℕ} {temps : Temps V} {v : V} {k : Temps V → Act X σ β}

theorem run_storeName {rhs : Operand E} (hd : Denotes rt rhs t temps v) (n : N) :
    runInstrs rt [.storeName n rhs] temps >>= k =
      (Target.name n : Target E N).assign rt v >>= fun _ => k temps := by
  rw [runInstrs_last]
  simp only [Instr.run, Target.assign, hd temps (SameBelow.refl t temps), bind_assoc, pure_bind]

variable (hk : ReadsBelow t temps k)

include hk

/-- An attribute store whose object goes into a temporary from `u` on. -/
theorem run_setAttr (object : E) (attr : String) {u : ℕ} (hu : t ≤ u) {temps' : Temps V}
    (hs : SameBelow t temps temps') {value : Operand E}
    (hv : Denotes rt value u temps' v) :
    runInstrs rt [.bind u (.object object), .setAttr u attr value] temps' >>= k =
      (Target.attribute object attr : Target E N).assign rt v >>= fun _ => k temps := by
  rw [runInstrs_bind]
  unfold Target.assign
  rw [bind_assoc]
  refine congrArg _ (funext fun o => ?_)
  have hs1 : SameBelow u temps' (Function.update temps' u (some (.object o))) :=
    (SameBelow.refl u temps').update (Nat.le_refl u) _
  rw [runInstrs_last]
  simp only [Instr.run, readTemp_of_eq (Function.update_self ..), hv _ hs1, bind_assoc, pure_bind]
  rw [hk _ (hs.trans (hs1.mono hu))]

/-- An item store whose object and index go into temporaries from `u` on. -/
theorem run_setItem (object slice : E) {u : ℕ} (hu : t ≤ u) {temps' : Temps V}
    (hs : SameBelow t temps temps') {value : Operand E}
    (hv : Denotes rt value u temps' v) :
    runInstrs rt [.bind u (.object object), .bind (u + 1) (.source slice),
        .setItem u (u + 1) value] temps' >>= k =
      (Target.subscript object slice : Target E N).assign rt v >>= fun _ => k temps := by
  rw [runInstrs_bind]
  unfold Target.assign
  rw [bind_assoc]
  refine congrArg _ (funext fun o => ?_)
  rw [runInstrs_bind]
  rw [bind_assoc]
  refine congrArg _ (funext fun i => ?_)
  have hs1 : SameBelow u temps' (Function.update (Function.update temps' u (some (.object o)))
      (u + 1) (some (.object i))) :=
    ((SameBelow.refl u temps').update (Nat.le_refl u) _).update (Nat.le_succ u) _
  have ho : Function.update (Function.update temps' u (some (TempValue.object o))) (u + 1)
      (some (.object i)) u = some (.object o) := by
    rw [Function.update_of_ne (by omega), Function.update_self]
  rw [runInstrs_last]
  simp only [Instr.run, readTemp_of_eq ho, readTemp_of_eq (Function.update_self ..), hv _ hs1,
    bind_assoc, pure_bind]
  rw [hk _ (hs.trans (hs1.mono hu))]

end Stores

/-! ## Into instructions -/

theorem spec_of_noStar {elts : Elts E N} (h : elts.spec.count false = 0) :
    elts.spec = List.replicate elts.length true ∧ elts.counts = (elts.length, none) := by
  match elts with
  | .nil => exact ⟨rfl, rfl⟩
  | .cons true _ rest =>
    unfold Elts.spec at h
    simp at h
  | .cons false _ rest =>
    have hrest : rest.spec.count false = 0 := by
      unfold Elts.spec at h
      simpa using h
    obtain ⟨h1, h2⟩ := spec_of_noStar hrest
    refine ⟨?_, ?_⟩
    · show true :: rest.spec = _
      rw [h1]
      rfl
    · show (rest.counts.1 + 1, rest.counts.2) = _
      rw [h2]
      rfl

/-- The flags of the code are those for the counts of the interpreter. -/
theorem spec_eq_flagsFor {elts : Elts E N} (h : elts.atMostOneStar = true) :
    elts.spec = flagsFor elts.counts.1 elts.counts.2 := by
  match elts with
  | .nil => rfl
  | .cons true _ rest =>
    have hrest : rest.spec.count false = 0 := by
      unfold Elts.atMostOneStar Elts.spec at h
      simpa using h
    show false :: rest.spec = [] ++ false :: List.replicate rest.length true
    rw [(spec_of_noStar hrest).1]
    rfl
  | .cons false _ rest =>
    have hrest : rest.atMostOneStar = true := by
      unfold Elts.atMostOneStar Elts.spec at h
      unfold Elts.atMostOneStar
      simpa using h
    show true :: rest.spec = flagsFor (rest.counts.1 + 1) rest.counts.2
    rw [spec_eq_flagsFor hrest]
    cases rest.counts.2 <;> rfl

mutual

/-- Assigning a target, in front of what reads no temporaries of it. -/
theorem run_lower (target : Target E N) {rhs : Operand E} {t next : ℕ}
    {code : List (Instr E N)} (h : target.lower rhs t = .ok (code, next)) :
    t ≤ next ∧ ∀ (temps : Temps V) (v : V) (k : Temps V → Act X σ β),
      Denotes rt rhs t temps v → ReadsBelow t temps k →
        runInstrs rt code temps >>= k = target.assign rt v >>= fun _ => k temps := by
  match target with
  | .name n =>
    cases h
    exact ⟨Nat.le_refl t, fun temps v k hd _ => run_storeName hd n⟩
  | .attribute object attr =>
    cases h
    exact ⟨by omega, fun temps v k hd hk =>
      run_setAttr hk object attr (Nat.le_refl t) (SameBelow.refl t temps) hd⟩
  | .subscript object slice =>
    cases h
    exact ⟨by omega, fun temps v k hd hk =>
      run_setItem hk object slice (Nat.le_refl t) (SameBelow.refl t temps) hd⟩
  | .unpack elts =>
    unfold Target.lower at h
    cases hstar : elts.atMostOneStar with
    | false =>
      rw [hstar] at h
      cases h
    | true =>
      cases he : elts.lower t 0 (t + 1) with
      | error e =>
        rw [hstar, he] at h
        cases h
      | ok r =>
        rw [hstar, he] at h
        cases h
        obtain ⟨hle, hrun⟩ := run_lowerElts elts he (Nat.lt_succ_self t)
        refine ⟨by omega, fun temps v k hd hk => ?_⟩
        show (((Instr.bindUnpack t rhs elts.spec).run rt temps >>=
          runInstrs rt (r.1 ++ [.delTemp t])) >>= k) = _
        simp only [Instr.run, Target.assign, hd temps (SameBelow.refl t temps), bind_assoc,
          pure_bind, spec_eq_flagsFor hstar, unpack_flagsFor]
        refine (yields_unpackIterable _ _ _ _).bind_congr fun slots hslots => ?_
        rw [runInstrs_append, bind_assoc]
        have hsame : SameBelow t temps (Function.update temps t (some (.unpacked slots))) :=
          (SameBelow.refl t temps).update (Nat.le_refl t) _
        refine (hrun _ slots (fun temps' => runInstrs rt [.delTemp t] temps' >>= k)
          (Function.update_self ..) ?_ ?_).trans ?_
        · rw [List.drop_zero, hslots, spec_eq_flagsFor hstar]
        · intro temps' hs
          have h1 : k (Function.update temps' t none) = k temps :=
            hk _ ((hsame.trans (hs.mono (Nat.le_succ t))).update (Nat.le_refl t) _)
          have h2 : k (Function.update (Function.update temps t (some (.unpacked slots))) t none) =
              k temps := hk _ (hsame.update (Nat.le_refl t) _)
          simp only [runInstrs_last, Instr.run, pure_bind, h1, h2]
        · rw [List.drop_zero]
          refine congrArg _ (funext fun _ => ?_)
          simp only [runInstrs_last, Instr.run, pure_bind]
          exact hk _ (hsame.update (Nat.le_refl t) _)

theorem run_lowerElts (elts : Elts E N) {u i t next : ℕ} {code : List (Instr E N)}
    (h : elts.lower u i t = .ok (code, next)) (hu : u < t) :
    t ≤ next ∧ ∀ (temps : Temps V) (slots : List (Slot V)) (k : Temps V → Act X σ β),
      temps u = some (.unpacked slots) → (slots.drop i).map Slot.isItem = elts.spec →
        ReadsBelow t temps k →
          runInstrs rt code temps >>= k =
            elts.assignAll rt (slots.drop i) >>= fun _ => k temps := by
  match elts with
  | .nil =>
    cases h
    exact ⟨Nat.le_refl t, fun temps slots k _ _ _ => rfl⟩
  | .cons starred target rest =>
    unfold Elts.lower at h
    cases ht : target.lower (itemOperand starred u i) t with
    | error e =>
      rw [ht] at h
      cases h
    | ok r =>
      cases hr : rest.lower u (i + 1) r.2 with
      | error e =>
        rw [ht] at h
        simp only [bind, Except.bind, hr] at h
        cases h
      | ok r' =>
        rw [ht] at h
        simp only [bind, Except.bind, hr] at h
        cases h
        obtain ⟨hle, hrun⟩ := run_lower target ht
        obtain ⟨hle', hrun'⟩ := run_lowerElts rest hr (by omega)
        refine ⟨by omega, fun temps slots k htemp hslots hk => ?_⟩
        cases hd : slots.drop i with
        | nil =>
          rw [hd] at hslots
          cases hslots
        | cons slot more =>
          have hi : slots[i]? = some slot := by
            rw [← List.head?_drop, hd]
            rfl
          have hmore : slots.drop (i + 1) = more := by
            rw [← List.tail_drop, hd]
            rfl
          rw [hd, List.map_cons] at hslots
          obtain ⟨hslot, hrest⟩ := List.cons.inj hslots
          have hk' : ∀ temps', SameBelow t temps temps' →
              runInstrs rt r'.1 temps' >>= k = rest.assignAll rt more >>= fun _ => k temps := by
            intro temps' hs
            rw [hrun' temps' slots k (by rw [hs u hu, htemp]) (by rw [hmore, hrest])
              (hk.mono hle hs), hmore, hk temps' hs]
          rw [runInstrs_append, bind_assoc]
          rw [hrun temps (slotValue rt slot) (fun temps' => runInstrs rt r'.1 temps' >>= k)
            (denotes_item hu htemp hi hslot)
            (fun temps' hs => (hk' temps' hs).trans (hk' temps (SameBelow.refl t temps)).symm)]
          show _ = (target.assign rt (slotValue rt slot) >>= fun _ => rest.assignAll rt more) >>= _
          rw [bind_assoc]
          exact congrArg _ (funext fun _ => hk' temps (SameBelow.refl t temps))

end

/-- Several targets of one value, which is in the temporary `u`. -/
theorem run_targets (targets : List (Target E N)) {u t next : ℕ} {acc code : List (Instr E N)}
    (h : targets.foldlM (fun (code, next) target => do
      let (more, last) ← target.lower (.temp u) next
      pure (code ++ more, last)) (acc, t) = Except.ok (code, next)) (hu : u < t) :
    t ≤ next ∧ ∃ more, code = acc ++ more ∧
      ∀ (temps : Temps V) (v : V) (k : Temps V → Act X σ β),
        temps u = some (.object v) → ReadsBelow t temps k →
          runInstrs rt more temps >>= k =
            (targets.forM fun target => target.assign rt v) >>= fun _ => k temps := by
  induction targets generalizing acc t with
  | nil =>
    cases h
    exact ⟨Nat.le_refl _, [], (List.append_nil _).symm, fun temps v k _ _ => rfl⟩
  | cons target targets ih =>
    rw [List.foldlM_cons] at h
    dsimp only at h
    cases hl : target.lower (.temp u) t with
    | error e =>
      rw [hl] at h
      cases h
    | ok r =>
      rw [hl] at h
      obtain ⟨hle, hrun⟩ := run_lower target hl
      obtain ⟨hle', more, rfl, hmore⟩ := ih h (by omega)
      refine ⟨by omega, r.1 ++ more, List.append_assoc .., fun temps v k htemp hk => ?_⟩
      have hk' : ∀ temps', SameBelow t temps temps' → runInstrs rt more temps' >>= k =
          (targets.forM fun target => target.assign rt v) >>= fun _ => k temps := by
        intro temps' hs
        rw [hmore temps' v k (by rw [hs u hu, htemp]) (hk.mono hle hs), hk temps' hs]
      rw [runInstrs_append, bind_assoc, hrun temps v (fun temps' => runInstrs rt more temps' >>= k)
        (denotes_temp hu htemp)
        (fun temps' hs => (hk' temps' hs).trans (hk' temps (SameBelow.refl t temps)).symm)]
      show _ = (target.assign rt v >>= fun _ => targets.forM fun target => target.assign rt v) >>= _
      rw [bind_assoc]
      exact congrArg _ (funext fun _ => hk' temps (SameBelow.refl t temps))

theorem run_lowerAssign {value : E} {targets : List (Target E N)} {t next : ℕ}
    {code : List (Instr E N)} (h : lowerAssign (.source value) targets t = .ok (code, next)) :
    t ≤ next ∧ ∀ (temps : Temps V) (k : Temps V → Act X σ β), ReadsBelow t temps k →
      runInstrs rt code temps >>= k = (do
        let v ← rt.eval value
        targets.forM fun target => target.assign rt v
        k temps) := by
  have hbind : ∀ (temps : Temps V) (k : Temps V → Act X σ β), ReadsBelow t temps k →
      ∀ more : List (Instr E N), (∀ (temps : Temps V) (v : V) (k : Temps V → Act X σ β),
      temps t = some (.object v) → ReadsBelow (t + 1) temps k →
        runInstrs rt more temps >>= k =
          (targets.forM fun target => target.assign rt v) >>= fun _ => k temps) →
      runInstrs rt (.bind t (.source value) :: more) temps >>= k = (do
        let v ← rt.eval value
        targets.forM fun target => target.assign rt v
        k temps) := by
    intro temps k hk more hmore
    rw [runInstrs_bind]
    refine congrArg _ (funext fun v => ?_)
    have hs : SameBelow t temps (Function.update temps t (some (.object v))) :=
      (SameBelow.refl t temps).update (Nat.le_refl t) _
    rw [hmore _ v k (Function.update_self ..) (hk.mono (Nat.le_succ t) hs), hk _ hs]
  unfold lowerAssign at h
  split at h
  · -- a single name
    rename_i n
    cases h
    refine ⟨Nat.le_refl t, fun temps k hk => ?_⟩
    rw [runInstrs_last]
    simp only [Instr.run, Operand.eval, bind_assoc, pure_bind]
    refine congrArg _ (funext fun v => ?_)
    show _ = (rt.store n v >>= fun _ => pure ()) >>= fun _ => k temps
    simp only [bind_assoc, pure_bind]
  · cases hf : targets.foldlM (fun (code, next) target => do
      let (more, last) ← target.lower (.temp t) next
      pure (code ++ more, last)) (([], t + 1) : List (Instr E N) × ℕ) with
    | error e =>
      rw [hf] at h
      cases h
    | ok r =>
      rw [hf] at h
      cases h
      obtain ⟨hle, more, hr, hmore⟩ := run_targets targets hf (Nat.lt_succ_self t)
      rw [hr]
      exact ⟨by omega, fun temps k hk => hbind temps k hk more hmore⟩

variable (rt) in
/-- An assignment statement is refused when one of its lists of targets has two starred ones, and
otherwise evaluates its value once and assigns it to its targets from left to right, each with its
object and its index evaluated just before the store. -/
theorem lowerAssign_assigns (value : E) (targets : List (Target E N)) (t : ℕ) (temps : Temps V)
    (k : Temps V → Act X σ β) (hk : ReadsBelow t temps k) :
    match lowerAssign (.source value) targets t with
    | .ok (code, _) => targets.all Target.accepted = true ∧ runInstrs rt code temps >>= k = (do
        let v ← rt.eval value
        targets.forM fun target => target.assign rt v
        k temps)
    | .error message => targets.all Target.accepted = false ∧
        message = "unsupported starred assignment target" := by
  have ha := accepts_lowerAssign (.source value) targets t
  unfold Accepts at ha
  cases hall : targets.all Target.accepted with
  | false =>
    rw [hall, if_neg Bool.false_ne_true] at ha
    rw [ha]
    exact ⟨rfl, rfl⟩
  | true =>
    rw [hall, if_pos rfl] at ha
    obtain ⟨⟨code, next⟩, hr⟩ := ha
    rw [hr]
    exact ⟨rfl, (run_lowerAssign hr).2 temps k hk⟩

/-- A program that logs its stores, with lists whose iterators give `0` and `1`. -/
def logStoring : Storing ℕ ℕ ℕ Unit (List (ℕ × ℕ)) where
  iter v := pure v
  next _ := pure none
  drain _ := pure [0, 1]
  valueError s := ((), s)
  eval e := pure e
  object e := pure e
  store n v := modify fun s => s ++ [(n, v)]
  setAttr _ _ _ := pure ()
  setItem o i v := modify fun s => s ++ [(o + i, v)]
  newList vs := vs.length
  tempError s := ((), s)

theorem lowerAssign_assigns_log :
    let targets : List (Target ℕ ℕ) := [.unpack (.cons true (.name 1) .nil), .subscript 3 4]
    ∃ code next, lowerAssign (.source 12) targets 0 = .ok (code, next) ∧
      runInstrs logStoring code (fun _ => none) >>= (fun _ => pure ()) = (do
        let v ← logStoring.eval 12
        targets.forM fun target => target.assign logStoring v
        pure ()) := by
  intro targets
  have h := lowerAssign_assigns logStoring 12 targets 0 (fun _ => none)
    (fun _ => (pure () : Act Unit (List (ℕ × ℕ)) Unit)) (fun _ _ => rfl)
  exact ⟨_, _, rfl, h.2⟩

/-! ## Into statements -/

/-- The next temporary behind some statements. -/
def nextTemp : List (AssignStmt E N) → ℕ → ℕ
  | [], t => t
  | stmt :: rest, t => nextTemp rest (stmt.lower t).2

theorem le_nextTemp (stmts : List (AssignStmt E N)) (t : ℕ) : t ≤ nextTemp stmts t := by
  induction stmts generalizing t with
  | nil => exact Nat.le_refl t
  | cons stmt rest ih =>
    refine Nat.le_trans ?_ (ih (stmt.lower t).2)
    cases stmt <;> simp [AssignStmt.lower]

theorem lowerStmts_append (as bs : List (AssignStmt E N)) (t : ℕ) :
    lowerStmts (as ++ bs) t = lowerStmts as t ++ lowerStmts bs (nextTemp as t) := by
  induction as generalizing t with
  | nil => rfl
  | cons a as ih =>
    show (a.lower t).1 ++ lowerStmts (as ++ bs) (a.lower t).2 = _
    rw [ih, ← List.append_assoc]
    rfl

mutual

/-- Assigning a target by statements, whose own temporaries have numbers from `j` on. -/
theorem run_rewrite (target : Target E N) {rhs : Operand E} {t next : ℕ}
    {code : List (AssignStmt E N)} (h : target.rewrite rhs t = .ok (code, next)) :
    t ≤ next ∧ ∀ j, next ≤ j → ∀ (temps : Temps V) (v : V) (k : Temps V → Act X σ β),
      Denotes rt rhs t temps v → ReadsBelow t temps k →
        runInstrs rt (lowerStmts code j) temps >>= k =
          target.assign rt v >>= fun _ => k temps := by
  match target with
  | .name n =>
    cases h
    exact ⟨Nat.le_refl t, fun j _ temps v k hd _ => run_storeName hd n⟩
  | .attribute object attr =>
    cases h
    refine ⟨Nat.le_refl t, fun j hj temps v k hd hk => ?_⟩
    show runInstrs rt [.bind j rhs, .bind (j + 1) (.object object),
      .setAttr (j + 1) attr (.temp j)] temps >>= k = _
    rw [runInstrs_bind, hd temps (SameBelow.refl t temps), pure_bind]
    exact run_setAttr hk object attr (by omega) ((SameBelow.refl t temps).update hj _)
      (denotes_temp (Nat.lt_succ_self j) (Function.update_self ..))
  | .subscript object slice =>
    cases h
    refine ⟨Nat.le_refl t, fun j hj temps v k hd hk => ?_⟩
    show runInstrs rt [.bind j rhs, .bind (j + 1) (.object object), .bind (j + 2) (.source slice),
      .setItem (j + 1) (j + 2) (.temp j)] temps >>= k = _
    rw [runInstrs_bind, hd temps (SameBelow.refl t temps), pure_bind]
    exact run_setItem hk object slice (by omega) ((SameBelow.refl t temps).update hj _)
      (denotes_temp (Nat.lt_succ_self j) (Function.update_self ..))
  | .unpack elts =>
    unfold Target.rewrite at h
    cases hstar : elts.atMostOneStar with
    | false =>
      rw [hstar] at h
      cases h
    | true =>
      cases he : elts.rewrite t 0 (t + 1) with
      | error e =>
        rw [hstar, he] at h
        cases h
      | ok r =>
        rw [hstar, he] at h
        cases h
        obtain ⟨hle, hrun⟩ := run_rewriteElts elts he (Nat.lt_succ_self t)
        refine ⟨by omega, fun j hj temps v k hd hk => ?_⟩
        show (((Instr.bindUnpack t rhs elts.spec).run rt temps >>=
          runInstrs rt (lowerStmts (r.1 ++ [.delTemp t]) j)) >>= k) = _
        simp only [Instr.run, Target.assign, hd temps (SameBelow.refl t temps), bind_assoc,
          pure_bind, spec_eq_flagsFor hstar, unpack_flagsFor]
        refine (yields_unpackIterable _ _ _ _).bind_congr fun slots hslots => ?_
        rw [lowerStmts_append, runInstrs_append, bind_assoc]
        have hsame : SameBelow t temps (Function.update temps t (some (.unpacked slots))) :=
          (SameBelow.refl t temps).update (Nat.le_refl t) _
        refine (hrun j hj _ slots (fun temps' => runInstrs rt [.delTemp t] temps' >>= k)
          (Function.update_self ..) ?_ ?_).trans ?_
        · rw [List.drop_zero, hslots, spec_eq_flagsFor hstar]
        · intro temps' hs
          have h1 : k (Function.update temps' t none) = k temps :=
            hk _ ((hsame.trans (hs.mono (Nat.le_succ t))).update (Nat.le_refl t) _)
          have h2 : k (Function.update (Function.update temps t (some (.unpacked slots))) t none) =
              k temps := hk _ (hsame.update (Nat.le_refl t) _)
          simp only [runInstrs_last, Instr.run, pure_bind, h1, h2]
        · rw [List.drop_zero]
          refine congrArg _ (funext fun _ => ?_)
          simp only [runInstrs_last, Instr.run, pure_bind]
          exact hk _ (hsame.update (Nat.le_refl t) _)

theorem run_rewriteElts (elts : Elts E N) {u i t next : ℕ} {code : List (AssignStmt E N)}
    (h : elts.rewrite u i t = .ok (code, next)) (hu : u < t) :
    t ≤ next ∧ ∀ j, next ≤ j → ∀ (temps : Temps V) (slots : List (Slot V))
      (k : Temps V → Act X σ β), temps u = some (.unpacked slots) →
        (slots.drop i).map Slot.isItem = elts.spec → ReadsBelow t temps k →
          runInstrs rt (lowerStmts code j) temps >>= k =
            elts.assignAll rt (slots.drop i) >>= fun _ => k temps := by
  match elts with
  | .nil =>
    cases h
    exact ⟨Nat.le_refl t, fun j _ temps slots k _ _ _ => rfl⟩
  | .cons starred target rest =>
    unfold Elts.rewrite at h
    cases ht : target.rewrite (itemOperand starred u i) t with
    | error e =>
      rw [ht] at h
      cases h
    | ok r =>
      cases hr : rest.rewrite u (i + 1) r.2 with
      | error e =>
        rw [ht] at h
        simp only [bind, Except.bind, hr] at h
        cases h
      | ok r' =>
        rw [ht] at h
        simp only [bind, Except.bind, hr] at h
        cases h
        obtain ⟨hle, hrun⟩ := run_rewrite target ht
        obtain ⟨hle', hrun'⟩ := run_rewriteElts rest hr (by omega)
        refine ⟨by omega, fun j hj temps slots k htemp hslots hk => ?_⟩
        cases hd : slots.drop i with
        | nil =>
          rw [hd] at hslots
          cases hslots
        | cons slot more =>
          have hi : slots[i]? = some slot := by
            rw [← List.head?_drop, hd]
            rfl
          have hmore : slots.drop (i + 1) = more := by
            rw [← List.tail_drop, hd]
            rfl
          rw [hd, List.map_cons] at hslots
          obtain ⟨hslot, hrest⟩ := List.cons.inj hslots
          have hj' : r'.2 ≤ nextTemp r.1 j := Nat.le_trans hj (le_nextTemp r.1 j)
          have hk' : ∀ temps', SameBelow t temps temps' →
              runInstrs rt (lowerStmts r'.1 (nextTemp r.1 j)) temps' >>= k =
                rest.assignAll rt more >>= fun _ => k temps := by
            intro temps' hs
            rw [hrun' _ hj' temps' slots k (by rw [hs u hu, htemp]) (by rw [hmore, hrest])
              (hk.mono hle hs), hmore, hk temps' hs]
          rw [lowerStmts_append, runInstrs_append, bind_assoc]
          rw [hrun j (by omega) temps (slotValue rt slot)
            (fun temps' => runInstrs rt (lowerStmts r'.1 (nextTemp r.1 j)) temps' >>= k)
            (denotes_item hu htemp hi hslot)
            (fun temps' hs => (hk' temps' hs).trans (hk' temps (SameBelow.refl t temps)).symm)]
          show _ = (target.assign rt (slotValue rt slot) >>= fun _ => rest.assignAll rt more) >>= _
          rw [bind_assoc]
          exact congrArg _ (funext fun _ => hk' temps (SameBelow.refl t temps))

end

theorem run_buildForTargetAssignBody {target : Target E N} {rhs : Operand E} {tmp t next : ℕ}
    {code : List (AssignStmt E N)}
    (h : buildForTargetAssignBody target rhs tmp t = .ok (code, next)) (ht : tmp < t) {j : ℕ}
    (hj : next ≤ j) (temps : Temps V) (k : Temps V → Act X σ β) (hk : ReadsBelow tmp temps k) :
    runInstrs rt (lowerStmts code j) temps >>= k = (do
      let v ← rhs.eval rt temps
      target.assign rt v
      k temps) := by
  unfold buildForTargetAssignBody at h
  cases hr : target.rewrite (.temp tmp) t with
  | error e =>
    rw [hr] at h
    cases h
  | ok r =>
    rw [hr] at h
    cases h
    obtain ⟨hle, hrun⟩ := run_rewrite target hr
    show runInstrs rt (.bind tmp rhs :: lowerStmts (r.1 ++ [.delTemp tmp]) j) temps >>= k = _
    rw [runInstrs_bind]
    refine congrArg _ (funext fun v => ?_)
    rw [lowerStmts_append, runInstrs_append, bind_assoc]
    have hsame : SameBelow tmp temps (Function.update temps tmp (some (.object v))) :=
      (SameBelow.refl tmp temps).update (Nat.le_refl tmp) _
    have hdel : ∀ temps', SameBelow tmp temps temps' →
        runInstrs rt [(.delTemp tmp : Instr E N)] temps' >>= k = k temps := by
      intro temps' hs
      simp only [runInstrs_last, Instr.run, pure_bind]
      exact hk _ (hs.update (Nat.le_refl tmp) _)
    refine (hrun j hj _ v (fun temps' => runInstrs rt [.delTemp tmp] temps' >>= k)
      (denotes_temp ht (Function.update_self ..)) ?_).trans ?_
    · intro temps' hs
      exact (hdel temps' (hsame.trans (hs.mono (Nat.le_of_lt ht)))).trans (hdel _ hsame).symm
    · exact congrArg _ (funext fun _ => hdel _ hsame)

variable (rt) in
/-- A target of `for` takes its value once and is assigned as in an assignment statement, though
its attributes and items are assigned by statements of their own. -/
theorem buildForTargetAssignBody_assigns (target : Target E N) (rhs : Operand E) {tmp t : ℕ}
    (ht : tmp < t) (temps : Temps V) (k : Temps V → Act X σ β) (hk : ReadsBelow tmp temps k) :
    match buildForTargetAssignBody target rhs tmp t with
    | .ok (code, next) => target.accepted = true ∧ ∀ j, next ≤ j →
        runInstrs rt (lowerStmts code j) temps >>= k = (do
          let v ← rhs.eval rt temps
          target.assign rt v
          k temps)
    | .error message => target.accepted = false ∧
        message = "unsupported starred with-target assignment" := by
  have ha := accepts_buildForTargetAssignBody target rhs tmp t
  unfold Accepts at ha
  cases hall : target.accepted with
  | false =>
    rw [hall, if_neg Bool.false_ne_true] at ha
    rw [ha]
    exact ⟨rfl, rfl⟩
  | true =>
    rw [hall, if_pos rfl] at ha
    obtain ⟨⟨code, next⟩, hr⟩ := ha
    rw [hr]
    exact ⟨rfl, fun j hj => run_buildForTargetAssignBody hr ht hj temps k hk⟩

theorem buildForTargetAssignBody_assigns_log :
    let target : Target ℕ ℕ := .unpack (.cons true (.subscript 3 4) .nil)
    ∃ code next, buildForTargetAssignBody target (.source 5) 0 1 = .ok (code, next) ∧
      runInstrs logStoring (lowerStmts code next) (fun _ => none) >>= (fun _ => pure ()) = (do
        let v ← (Operand.source 5).eval logStoring fun _ => none
        target.assign logStoring v
        pure ()) := by
  intro target
  have h := buildForTargetAssignBody_assigns logStoring target (.source 5) (Nat.lt_succ_self 0)
    (fun _ => none) (fun _ => (pure () : Act Unit (List (ℕ × ℕ)) Unit)) (fun _ _ => rfl)
  exact ⟨_, _, rfl, h.2 _ (Nat.le_refl _)⟩

end Runs

end DietPython.Targets
