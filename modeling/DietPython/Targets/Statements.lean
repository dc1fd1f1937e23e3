import DietPython.Targets.Runs

/-!
# Assignments, augmented assignments and deletions

An augmented assignment has its object and its index in temporaries, then the value that is there,
and stores what the operator makes of it. A deletion has temporaries of the same kind. `Lowers` says
what the code of a statement is to be: refused with a message, or with the effects of the statement
in front of anything that reads no temporaries of it. It goes from the targets of a statement to its
list, and from statements to a body.

Names are loaded and deleted as the program does it, and the objects of targets are those of
`Target.lower`.
-/

namespace DietPython.Targets

/-! ## Statements -/

inductive SimpleStmt (E N Op : Type)
  | assign (targets : List (Target E N)) (value : E)
  | augAssign (target : Target E N) (op : Op) (value : E)
  | delete (targets : List (Target E N))

/-- What is updated or deleted; objects and indexes are in temporaries. -/
inductive Place (N : Type)
  | name (n : N)
  | attribute (object : ℕ) (attr : String)
  | item (object index : ℕ)

inductive UpdateInstr (E N Op : Type)
  | plain (instr : Instr E N)
  /-- `t = place` -/
  | bindPlace (t : ℕ) (place : Place N)
  /-- `place = current op rhs`, with the operator of an augmented assignment. -/
  | storeInplace (place : Place N) (op : Op) (current : ℕ) (rhs : E)
  | delPlace (place : Place N)

section Lowering

variable {E N Op : Type}

/-- The object and the index of a target in temporaries. -/
def Target.bindPlace : Target E N → ℕ → Option (List (UpdateInstr E N Op) × Place N × ℕ)
  | .name n, t => some ([], .name n, t)
  | .attribute object attr, t =>
    some ([.plain (.bind t (.object object))], .attribute t attr, t + 1)
  | .subscript object slice, t =>
    some ([.plain (.bind t (.object object)), .plain (.bind (t + 1) (.source slice))],
      .item t (t + 1), t + 2)
  | .unpack _, _ => none

/-- One after the other. -/
def lowerAll {α I : Type} (lower : α → ℕ → Except String (List I × ℕ)) :
    List α → ℕ → Except String (List I × ℕ)
  | [], t => pure ([], t)
  | a :: rest, t => do
    let (code, next) ← lower a t
    let (more, last) ← lowerAll lower rest next
    pure (code ++ more, last)

variable (render : SimpleStmt E N Op → String)

/-- `assign_delete_error`, with the text of the statement. -/
def assignDeleteError (message : String) (stmt : SimpleStmt E N Op) : String :=
  message ++ "\nstmt:\n" ++ render stmt

/-- `StmtAugAssign::to_blockpy` -/
def lowerAugAssign (target : Target E N) (op : Op) (value : E) (t : ℕ) :
    Except String (List (UpdateInstr E N Op) × ℕ) :=
  match target.bindPlace t with
  | some (code, place, next) =>
    pure (code ++ [.bindPlace next place, .storeInplace place op next value], next + 1)
  | none => throw (assignDeleteError render
      "unsupported augmented assignment target reached BlockPy conversion"
      (.augAssign target op value))

/-- `lower_delete_target_into` -/
def lowerDeleteTarget (target : Target E N) (t : ℕ) :
    Except String (List (UpdateInstr E N Op) × ℕ) :=
  match target.bindPlace t with
  | some (code, place, next) => pure (code ++ [.delPlace place], next)
  | none => throw (assignDeleteError render
      "unsupported delete target reached BlockPy conversion" (.delete [target]))

/-- `to_blockpy` of each statement. -/
def SimpleStmt.lower : SimpleStmt E N Op → ℕ → Except String (List (UpdateInstr E N Op) × ℕ)
  | .assign targets value, t => do
    let (code, next) ← lowerAssign (.source value) targets t
    pure (code.map .plain, next)
  | .augAssign target op value, t => lowerAugAssign render target op value t
  | .delete targets, t => lowerAll (lowerDeleteTarget render) targets t

/-- The statements of a body, with one count of temporaries. -/
def lowerBody (stmts : List (SimpleStmt E N Op)) (t : ℕ) :
    Except String (List (UpdateInstr E N Op) × ℕ) :=
  lowerAll (SimpleStmt.lower render) stmts t

/-! ## What is refused -/

def Target.isUnpack : Target E N → Bool
  | .unpack _ => true
  | _ => false

def deleteRefusal (target : Target E N) : Option String :=
  if target.isUnpack then
    some (assignDeleteError render "unsupported delete target reached BlockPy conversion"
      (.delete [target]))
  else none

/-- The message for a statement that is refused. -/
def SimpleStmt.refusal : SimpleStmt E N Op → Option String
  | .assign targets _ =>
    if targets.all Target.accepted then none else some "unsupported starred assignment target"
  | .augAssign target op value =>
    if target.isUnpack then
      some (assignDeleteError render
        "unsupported augmented assignment target reached BlockPy conversion"
        (.augAssign target op value))
    else none
  | .delete targets => targets.findSome? (deleteRefusal render)

end Lowering

/-! ## Running -/

/-- What these statements ask of the program. -/
structure Updating (E N Op V X σ : Type) extends Storing E N V X σ where
  load : N → Act X σ V
  getAttr : V → String → Act X σ V
  getItem : V → V → Act X σ V
  inplace : Op → V → V → Act X σ V
  delName : N → Act X σ Unit
  delAttr : V → String → Act X σ Unit
  delItem : V → V → Act X σ Unit

section Running

variable {E N Op V X σ : Type} (rt : Updating E N Op V X σ)

/-- The object in a temporary. -/
def readObject (temps : Temps V) (t : ℕ) : Act X σ V := readTemp rt.toStoring temps t

def UpdateInstr.run (temps : Temps V) : UpdateInstr E N Op → Act X σ (Temps V)
  | .plain instr => instr.run rt.toStoring temps
  | .bindPlace t place => do
    let v ← match place with
      | .name n => rt.load n
      | .attribute object attr => do rt.getAttr (← readObject rt temps object) attr
      | .item object index => do
        rt.getItem (← readObject rt temps object) (← readObject rt temps index)
    pure (Function.update temps t (some (.object v)))
  | .storeInplace place op current rhs => do
    let target ← match place with
      | .name n => pure (rt.store n)
      | .attribute object attr => do
        let o ← readObject rt temps object
        pure (rt.setAttr o attr)
      | .item object index => do
        let o ← readObject rt temps object
        let i ← readObject rt temps index
        pure (rt.setItem o i)
    target (← rt.inplace op (← readObject rt temps current) (← rt.eval rhs))
    pure temps
  | .delPlace place => do
    match place with
      | .name n => rt.delName n
      | .attribute object attr => do rt.delAttr (← readObject rt temps object) attr
      | .item object index => do
        rt.delItem (← readObject rt temps object) (← readObject rt temps index)
    pure temps

def runUpdates : List (UpdateInstr E N Op) → Temps V → Act X σ (Temps V)
  | [], temps => pure temps
  | instr :: rest, temps => do runUpdates rest (← instr.run rt temps)

/-! ## What the statements do -/

mutual

/-- Delete a target; of a tuple or a list, every target from left to right. -/
def Target.delete : Target E N → Act X σ Unit
  | .name n => rt.delName n
  | .attribute object attr => do rt.delAttr (← rt.object object) attr
  | .subscript object slice => do rt.delItem (← rt.object object) (← rt.eval slice)
  | .unpack elts => elts.deleteAll

def Elts.deleteAll : Elts E N → Act X σ Unit
  | .nil => pure ()
  | .cons _ target rest => do
    target.delete
    rest.deleteAll

end

def SimpleStmt.exec : SimpleStmt E N Op → Act X σ Unit
  | .assign targets value => do
    let v ← rt.eval value
    targets.forM fun target => target.assign rt.toStoring v
  | .augAssign (.name n) op value => do
    let current ← rt.load n
    rt.store n (← rt.inplace op current (← rt.eval value))
  | .augAssign (.attribute object attr) op value => do
    let o ← rt.object object
    let current ← rt.getAttr o attr
    rt.setAttr o attr (← rt.inplace op current (← rt.eval value))
  | .augAssign (.subscript object slice) op value => do
    let o ← rt.object object
    let i ← rt.eval slice
    let current ← rt.getItem o i
    rt.setItem o i (← rt.inplace op current (← rt.eval value))
  -- no such statement
  | .augAssign (.unpack _) _ _ => raiseTempError rt.toStoring
  | .delete targets => targets.forM fun target => target.delete rt

/-! ## Code with the effects of an action -/

/-- In front of anything that reads temporaries below `t` only, the code acts as this. -/
def Runs (β : Type) (t next : ℕ) (code : List (UpdateInstr E N Op)) (act : Act X σ Unit) : Prop :=
  t ≤ next ∧ ∀ (temps : Temps V) (k : Temps V → Act X σ β), ReadsBelow t temps k →
    runUpdates rt code temps >>= k = act >>= fun _ => k temps

/-- Refused with the message, if there is one, and code that acts as this otherwise. -/
def Lowers (β : Type) (result : Except String (List (UpdateInstr E N Op) × ℕ)) (t : ℕ)
    (refusal : Option String) (act : Act X σ Unit) : Prop :=
  match result with
  | .ok (code, next) => refusal = none ∧ Runs rt β t next code act
  | .error message => refusal = some message

variable {rt} {β : Type}

variable (rt) in
theorem runUpdates_append (as bs : List (UpdateInstr E N Op)) (temps : Temps V) :
    runUpdates rt (as ++ bs) temps = runUpdates rt as temps >>= runUpdates rt bs := by
  induction as generalizing temps with
  | nil =>
    show runUpdates rt bs temps = pure temps >>= runUpdates rt bs
    rw [pure_bind]
  | cons a as ih =>
    show (a.run rt temps >>= fun temps => runUpdates rt (as ++ bs) temps) = _
    simp only [ih]
    show _ = (a.run rt temps >>= runUpdates rt as) >>= runUpdates rt bs
    rw [bind_assoc]

variable (rt) in
theorem runUpdates_plain (code : List (Instr E N)) (temps : Temps V) :
    runUpdates rt (code.map .plain) temps = runInstrs rt.toStoring code temps := by
  induction code generalizing temps with
  | nil => rfl
  | cons instr code ih =>
    show (instr.run rt.toStoring temps >>= fun temps => runUpdates rt (code.map .plain) temps) = _
    simp only [ih]
    rfl

theorem Runs.nil (t : ℕ) : Runs rt β t t [] (pure ()) :=
  ⟨Nat.le_refl t, fun _ _ _ => rfl⟩

theorem Runs.append {t m next : ℕ} {code more : List (UpdateInstr E N Op)} {act act' : Act X σ Unit}
    (h : Runs rt β t m code act) (h' : Runs rt β m next more act') :
    Runs rt β t next (code ++ more) (act >>= fun _ => act') := by
  refine ⟨Nat.le_trans h.1 h'.1, fun temps k hk => ?_⟩
  have hmore : ∀ temps', SameBelow t temps temps' →
      runUpdates rt more temps' >>= k = act' >>= fun _ => k temps := by
    intro temps' hs
    rw [h'.2 temps' k (hk.mono h.1 hs), hk temps' hs]
  rw [runUpdates_append, bind_assoc, h.2 temps (fun temps' => runUpdates rt more temps' >>= k)
    (fun temps' hs => (hmore temps' hs).trans (hmore temps (SameBelow.refl t temps)).symm),
    bind_assoc]
  exact congrArg _ (funext fun _ => hmore temps (SameBelow.refl t temps))

/-- What is lowered one after the other acts so; the first that is refused gives the message. -/
theorem lowers_all {α : Type} {lower : α → ℕ → Except String (List (UpdateInstr E N Op) × ℕ)}
    {refusal : α → Option String} {act : α → Act X σ Unit}
    (h : ∀ a t, Lowers rt β (lower a t) t (refusal a) (act a)) (as : List α) (t : ℕ) :
    Lowers rt β (lowerAll lower as t) t (as.findSome? refusal) (as.forM act) := by
  induction as generalizing t with
  | nil => exact ⟨rfl, Runs.nil t⟩
  | cons a as ih =>
    unfold lowerAll
    have ha := h a t
    cases hlower : lower a t with
    | error message =>
      rw [hlower] at ha
      rw [List.findSome?_cons, show refusal a = some message from ha]
      exact rfl
    | ok r =>
      rw [hlower] at ha
      obtain ⟨hnone, hruns⟩ := ha
      have hrest := ih r.2
      simp only [bind, Except.bind, List.findSome?_cons, hnone]
      cases hmore : lowerAll lower as r.2 with
      | error message =>
        rw [hmore] at hrest
        exact hrest
      | ok r' =>
        rw [hmore] at hrest
        exact ⟨hrest.1, hruns.append hrest.2⟩

/-! ## Statements of one kind -/

theorem lowers_assign (render : SimpleStmt E N Op → String) (targets : List (Target E N))
    (value : E) (t : ℕ) :
    Lowers rt β ((SimpleStmt.assign targets value).lower render t) t
      ((SimpleStmt.assign targets value).refusal render)
      ((SimpleStmt.assign targets value).exec rt) := by
  have haccepts := accepts_lowerAssign (.source value) targets t
  unfold Accepts at haccepts
  simp only [SimpleStmt.lower, SimpleStmt.refusal]
  cases hall : targets.all Target.accepted with
  | false =>
    rw [hall, if_neg Bool.false_ne_true] at haccepts
    rw [haccepts]
    exact rfl
  | true =>
    rw [hall, if_pos rfl] at haccepts
    obtain ⟨⟨code, next⟩, hcode⟩ := haccepts
    rw [hcode]
    obtain ⟨hle, hrun⟩ := @run_lowerAssign E N V X σ β rt.toStoring _ _ _ _ _ hcode
    refine ⟨rfl, hle, fun temps k hk => ?_⟩
    rw [runUpdates_plain, hrun temps k hk]
    show _ = (rt.eval value >>= fun v => _) >>= _
    rw [bind_assoc]

variable (rt) in
theorem readObject_self (temps : Temps V) (t : ℕ) (v : V) :
    readObject rt (Function.update temps t (some (.object v))) t = pure v :=
  readTemp_of_eq (Function.update_self ..)

variable (rt) in
theorem readObject_below {u t : ℕ} (h : u < t) (temps : Temps V) (value : Option (TempValue V)) :
    readObject rt (Function.update temps t value) u = readObject rt temps u := by
  have hread : Function.update temps t value u = temps u := Function.update_of_ne (by omega) _ _
  simp only [readObject, readTemp, Operand.eval, hread]

theorem lowers_augAssign (render : SimpleStmt E N Op → String) (target : Target E N) (op : Op)
    (value : E) (t : ℕ) :
    Lowers rt β ((SimpleStmt.augAssign target op value).lower render t) t
      ((SimpleStmt.augAssign target op value).refusal render)
      ((SimpleStmt.augAssign target op value).exec rt) := by
  match target with
  | .unpack _ => exact rfl
  | .name n =>
    refine ⟨rfl, Nat.le_succ t, fun temps k hk => ?_⟩
    have hafter : ∀ a, k (Function.update temps t a) = k temps := fun a =>
      hk _ ((SameBelow.refl t temps).update (Nat.le_refl t) a)
    show runUpdates rt [.bindPlace t (.name n), .storeInplace (.name n) op t value] temps >>= k = _
    simp only [runUpdates, UpdateInstr.run, bind_assoc, pure_bind, readObject_self,
      SimpleStmt.exec, hafter]
  | .attribute object attr =>
    refine ⟨rfl, by omega, fun temps k hk => ?_⟩
    have hafter : ∀ a b,
        k (Function.update (Function.update temps t a) (t + 1) b) = k temps := fun a b =>
      hk _ (((SameBelow.refl t temps).update (Nat.le_refl t) a).update (by omega) b)
    show runUpdates rt [.plain (.bind t (.object object)), .bindPlace (t + 1) (.attribute t attr),
      .storeInplace (.attribute t attr) op (t + 1) value] temps >>= k = _
    simp (disch := omega) only [runUpdates, UpdateInstr.run, Instr.run, Operand.eval, bind_assoc,
      pure_bind, readObject_self, readObject_below, SimpleStmt.exec, hafter]
  | .subscript object slice =>
    refine ⟨rfl, by omega, fun temps k hk => ?_⟩
    have hafter : ∀ a b c, k (Function.update (Function.update (Function.update temps t a)
        (t + 1) b) (t + 2) c) = k temps := fun a b c =>
      hk _ ((((SameBelow.refl t temps).update (Nat.le_refl t) a).update (by omega) b).update
        (by omega) c)
    show runUpdates rt [.plain (.bind t (.object object)), .plain (.bind (t + 1) (.source slice)),
      .bindPlace (t + 2) (.item t (t + 1)), .storeInplace (.item t (t + 1)) op (t + 2) value]
      temps >>= k = _
    simp (disch := omega) only [runUpdates, UpdateInstr.run, Instr.run, Operand.eval, bind_assoc,
      pure_bind, readObject_self, readObject_below, SimpleStmt.exec, hafter]

theorem lowers_deleteTarget (render : SimpleStmt E N Op → String) (target : Target E N) (t : ℕ) :
    Lowers rt β (lowerDeleteTarget render target t) t (deleteRefusal render target)
      (target.delete rt) := by
  match target with
  | .unpack _ => exact rfl
  | .name n =>
    refine ⟨rfl, Nat.le_refl t, fun temps k _ => ?_⟩
    show runUpdates rt [.delPlace (.name n)] temps >>= k = _
    simp only [runUpdates, UpdateInstr.run, bind_assoc, pure_bind, Target.delete]
  | .attribute object attr =>
    refine ⟨rfl, by omega, fun temps k hk => ?_⟩
    have hafter : ∀ a, k (Function.update temps t a) = k temps := fun a =>
      hk _ ((SameBelow.refl t temps).update (Nat.le_refl t) a)
    show runUpdates rt [.plain (.bind t (.object object)), .delPlace (.attribute t attr)]
      temps >>= k = _
    simp only [runUpdates, UpdateInstr.run, Instr.run, Operand.eval, bind_assoc, pure_bind,
      readObject_self, Target.delete, hafter]
  | .subscript object slice =>
    refine ⟨rfl, by omega, fun temps k hk => ?_⟩
    have hafter : ∀ a b,
        k (Function.update (Function.update temps t a) (t + 1) b) = k temps := fun a b =>
      hk _ (((SameBelow.refl t temps).update (Nat.le_refl t) a).update (by omega) b)
    show runUpdates rt [.plain (.bind t (.object object)), .plain (.bind (t + 1) (.source slice)),
      .delPlace (.item t (t + 1))] temps >>= k = _
    simp (disch := omega) only [runUpdates, UpdateInstr.run, Instr.run, Operand.eval, bind_assoc,
      pure_bind, readObject_self, readObject_below, Target.delete, hafter]

theorem lowers_stmt (render : SimpleStmt E N Op → String) (stmt : SimpleStmt E N Op) (t : ℕ) :
    Lowers rt β (stmt.lower render t) t (stmt.refusal render) (stmt.exec rt) := by
  cases stmt with
  | assign targets value => exact lowers_assign render targets value t
  | augAssign target op value => exact lowers_augAssign render target op value t
  | delete targets =>
    exact lowers_all (fun target t => lowers_deleteTarget render target t) targets t

variable (rt) in
/-- A body of assignments, augmented assignments and deletions is refused with the message of the
first statement that is refused. Otherwise its code does what the statements do, in their order, in
front of anything that reads no temporaries of it. -/
theorem lowerBody_runs (render : SimpleStmt E N Op → String) (stmts : List (SimpleStmt E N Op))
    (t : ℕ) :
    Lowers rt β (lowerBody render stmts t) t (stmts.findSome? (SimpleStmt.refusal render))
      (stmts.forM (SimpleStmt.exec rt)) :=
  lowers_all (lowers_stmt render) stmts t

end Running

end DietPython.Targets
