import DietPython.ControlFlow.Meanings

/-!
# The exception that a handler finds

`current_exception()` and a bare `raise` read the exception parameter of their block.
`set_region_exc_param` gives every block of a region the parameter of the outermost region around
it, so all handlers of a nest share one slot, and an inner one leaves its exception there. What a
read finds is the exception that was caught last, which is the one of the innermost active handler
as long as no handler inside it has caught another.
-/

namespace DietPython.ControlFlow

open Machines

variable {E T V X St : Type}

/-! ## What is read next -/

/-- The expression that a statement evaluates first, or its bare `raise`. -/
def Stmt.asks {l : Bool} : Stmt E T l → Option (RaiseValue E)
  | .raiseStmt none => some .bare
  | .simple e | .raiseStmt (some e) | .returnStmt (some e) | .ifStmt e _ _
  | .forStmt _ _ e _ _ => some (.expr e)
  | _ => none

namespace Config

/-- The expression that is evaluated next, or the bare `raise`. -/
def asks : Config E T V X St → Option (RaiseValue E)
  | run (.cons _ stmt _) _ _ => stmt.asks
  | unwind .cont (.whileLoop _ test _ _ _) _ => some (.expr test)
  | _ => none

/-- The exception of the innermost handler that is still active, or the one that a `finally` body
interrupts. -/
def current : Config E T V X St → Option X
  | run _ k _ | unwind _ k _ => k.current

/-- The exception that was caught last. -/
def caught : Config E T V X St → Option X
  | run _ _ s | unwind _ _ s => s.caught

end Config

def BlockTerm.asks : BlockTerm E → Option (RaiseValue E)
  | .raiseTerm .bare => some .bare
  | .raiseTerm (.expr e) | .ifTerm (.expr e) _ _ | .returnTerm (.expr e) => some (.expr e)
  | _ => none

def Op.asks : Op E T → Option (RaiseValue E)
  | .simple e | .storeIter _ _ e | .storePayload _ (.expr e) => some (.expr e)
  | _ => none

def Place.asks : Place E T V X St → Option (RaiseValue E)
  | .inside _ (op :: _) _ => op.asks
  | .inside b [] _ => b.term.asks
  | _ => none

/-! ## Where it is read -/

section Where

variable {G : Graph E T} {l : Bool} {t : RegionTargets} {ms : List Pass} {n : ℕ}
  {stmt : Stmt E T l} {rest : Stmts E T l} {g : Gen} {linear : List (Op E T)} {b : Block E T}

/-- The block of a statement reads what the statement does. -/
theorem Ready.asks (h : Ready G ms n stmt rest t g linear b) (hw : ∀ p ∈ ms, p.WellNamed)
    (hfits : Fits l t) {r : RaiseValue E} (hr : stmt.asks = some r) (f : Frame V X St) :
    (Place.inside (applyAll ms b) ((applyAll ms b).body.drop linear.length) f).asks = some r := by
  -- a statement whose block the passes leave alone
  have hsettled : ∀ ops term, b.body = linear ++ ops → b.term = term → Settled term →
      (∀ B : Block E T, B.term = term → (Place.inside B ops f).asks = some r) →
      (Place.inside (applyAll ms b) ((applyAll ms b).body.drop linear.length) f).asks = some r := by
    intro ops term hbody hterm hs hasks
    obtain ⟨hdrop, hterm'⟩ := h.settled hw hbody (hterm ▸ hs)
    rw [hdrop]
    exact hasks _ (hterm'.trans hterm)
  have hfresh := lowerStmts_fresh (.cons false stmt rest)
  cases stmt with
  | simple e =>
    obtain ⟨b', hb'⟩ := lowerStmts_entry (linear ++ [.simple e]) t g rest hfits (.inl (by simp))
    obtain rfl : b = b' := h.entry.unique hfresh hb'.mem hb'.label
    obtain ⟨tail, htail⟩ := hb'.body.trans (body_prefix_applyAll ms b)
    rw [← htail, List.append_assoc, List.drop_left]
    exact hr
  | raiseStmt exc =>
    obtain rfl : b = sequenceRaiseBlock g.label linear exc t.activeExc :=
      h.entry.unique hfresh (List.mem_singleton.mpr rfl) rfl
    refine hsettled [] _ (List.append_nil linear).symm rfl trivial fun B hB => ?_
    show B.term.asks = some r
    rw [hB]
    cases exc <;> exact hr
  | returnStmt value =>
    cases value with
    | none => cases hr
    | some e =>
      obtain rfl : b = sequenceReturnBlock g.label linear (some e) t.activeExc :=
        h.entry.unique hfresh (List.mem_singleton.mpr rfl) rfl
      have hterm : (sequenceReturnBlock g.label linear (some e) t.activeExc : Block E T).term =
        .returnTerm (.expr e) := rfl
      have hreturn := applyAll_return hw h.excNamed hterm
      have hbody : (sequenceReturnBlock g.label linear (some e) t.activeExc : Block E T).body =
        linear := rfl
      cases hret : retOf ms with
      | none =>
        rw [hret, hbody] at hreturn
        rw [hreturn.1, List.drop_length]
        show (applyAll ms _).term.asks = some r
        rw [hreturn.2]
        exact hr
      | some target =>
        rw [hret, hbody] at hreturn
        rw [hreturn.1, List.drop_left]
        exact hr
  | ifStmt test body orelse =>
    have hblock := h.entry.unique hfresh (List.mem_append_right _ (List.mem_singleton.mpr rfl)) rfl
    subst hblock
    refine hsettled [] _ (List.append_nil linear).symm rfl trivial fun B hB => ?_
    show B.term.asks = some r
    rw [hB]
    exact hr
  | forStmt isAsync target iter body orelse =>
    have hblock := h.entry.unique hfresh (List.mem_append_right _ (List.mem_cons_of_mem _
      (List.mem_cons_of_mem _ (List.mem_singleton.mpr rfl)))) rfl
    subst hblock
    exact hsettled [_] _ rfl rfl (by simp [sequenceJumpBlock, Settled]) fun B _ => hr
  | whileStmt | breakStmt | continueStmt | tryExcept | tryFinally => cases hr

end Where

/-! ## What is found -/

section Found

variable {rt : Runtime E T V X St} {G : Graph E T} {F : Floor G V X}

/-- In a region, a block with the parameter of the region finds what was caught last. -/
theorem reads_iff {l : Bool} {k : Kont E T V X l} {s : State X St} {f : Frame V X St}
    {ms : List Pass} {b : Block E T} (hregion : (excOf ms none).isSome = k.inRegion)
    (hcaught : CaughtAt rt ms s f) (hb : b.exceptionParam = excOf ms none)
    (huser : f.user = s.user) {e : X} (he : k.current = some e) :
    (currentIn b f = some e ∧ raisedValue rt b f .bare = (e, f.user)) ↔ s.caught = some e := by
  have hin : k.inRegion = true := by
    by_contra h
    rw [Kont.current_eq_none (Bool.not_eq_true _ ▸ h)] at he
    cases he
  rw [currentIn_eq rt hregion hcaught hb, raisedValue_bare rt hregion hcaught hb huser, huser]
  unfold reraise Meaning.lowered Reading.held
  rw [if_pos hin]
  cases s.caught with
  | none => simp [Held.exception?]
  | some x => simp [Held.exception?]

/-- Where a state reads the current exception, the graph reads it too. -/
theorem Corresponds.reads (hG : G.Ok) {c : Config E T V X St} {p : Place E T V X St}
    (h : Corresponds rt G F c p) (hkeeps : KeepsPending c) {r : RaiseValue E}
    (hr : c.asks = some r) {e : X} (he : c.current = some e) :
    ∃ b ops f, (blocks rt G).Reaches p (.inside b ops f) ∧
      (Place.inside b ops f : Place E T V X St).asks = some r ∧ f.user = c.user ∧
      ((currentIn b f = some e ∧ raisedValue rt b f .bare = (e, f.user)) ↔
        c.caught = some e) := by
  cases c with
  | run stmts k s =>
    cases stmts with
    | nil => cases hr
    | cons expanded stmt rest =>
      obtain ⟨t, ms, n, f, hS, huser, hcaught, hstanding⟩ := h
      obtain ⟨i, q, hi, hsettled⟩ := settle_standing hG hS hstanding
      obtain ⟨j, g, linear, b, hj, hready⟩ := enter_standing hG hS hsettled
      exact ⟨_, _, f, ⟨i + j, ((blocks rt G).after_add hi j).trans hj⟩,
        hready.asks hS.wellNamed hS.fits hr f, huser,
        reads_iff hS.inRegion_eq hcaught hready.exceptionParam huser he⟩
  | unwind signal k s =>
    obtain ⟨t, ms, n, f, hS, huser, h⟩ := h
    cases signal with
    | normal | exc | ret | brk => cases hr
    | cont =>
      cases k with
      | whileLoop opens test body orelse k =>
        obtain ⟨hcaught, loopLabels, hloop, hleaving⟩ := h
        cases hS with
        | floor h => cases F.isFloor h
        | @whileLoop _ _ t _ _ _ _ _ _ head go gb hk horelse hbody hhead hopens =>
          obtain rfl := Option.some.inj hloop
          have hkeeps : (!(opens && s.arrival == .jumps)) = true := hkeeps
          have hmark : s.arrival = .jumps → head ∉ marks ms := fun ha =>
            hopens (by simpa [ha] using hkeeps)
          obtain ⟨j, B, hj, hplain⟩ := hleaving.enter rt hG hk.wellNamed hhead
            (List.mem_singleton.mpr rfl) rfl rfl (by simp [ifBranchBlock, Settled]) hmark
          refine ⟨B, [], f, ⟨j, hj⟩, ?_, huser,
            reads_iff hk.inRegion_eq hcaught hplain.exceptionParam huser he⟩
          show B.term.asks = some r
          rw [hplain.term]
          exact hr
      | seq | forLoop | tryBody | guarded | handling | finalBody => cases hr

end Found

/-! ## What the thread handles -/

/-- The exception that the thread handles, which `sys.exception()` gives. What runs user code gives
it back as it was, and no operation of the lowered code sets it. -/
structure ThreadState (rt : Runtime E T V X St) where
  handled : St → Option X
  eval : ∀ e c u, handled (rt.eval e c u).2 = handled u
  test : ∀ e c u, handled (rt.test e c u).2 = handled u
  raiseValue : ∀ v u, handled (rt.raiseValue v u).2 = handled u
  noActiveException : ∀ u, handled (rt.noActiveException u).2 = handled u
  iter : ∀ a v u, handled (rt.iter a v u).2 = handled u
  next : ∀ a v u, handled (rt.next a v u).2 = handled u
  assign : ∀ t v u, handled (rt.assign t v u).2 = handled u
  slotError : ∀ u, handled (rt.slotError u).2 = handled u

namespace ThreadState

attribute [simp] eval test raiseValue noActiveException iter next assign slotError

variable {rt : Runtime E T V X St} (thread : ThreadState rt) (G : Graph E T) (b : Block E T)
  (f : Frame V X St)

@[simp] theorem returnValue (value : ReturnValue E) :
    thread.handled (ControlFlow.returnValue rt b f value).2 = thread.handled f.user := by
  cases value with
  | implicitNone => rfl
  | expr e => exact thread.eval _ _ _
  | name x =>
    simp only [ControlFlow.returnValue]
    split
    · rfl
    · exact thread.slotError _

@[simp] theorem raisedValue (value : RaiseValue E) :
    thread.handled (ControlFlow.raisedValue rt b f value).2 = thread.handled f.user := by
  unfold ControlFlow.raisedValue
  split
  · split
    · exact thread.noActiveException _
    · split <;> simp
  · next e =>
    have heval := thread.eval e (rt.given e (currentIn b f)) f.user
    split
    · next h => rw [thread.raiseValue, ← heval, h]
    · next h => rw [← heval, h]
  · split <;> simp

/-- The place shows this exception as the one that the thread handles. -/
def Shows (h : Option X) (p : Place E T V X St) : Prop :=
  ∀ u, p.user? = some u → thread.handled u = h

variable {thread G b f} {h : Option X}

theorem Shows.jumpFrom (edge : BlockEdge) (hf : thread.handled f.user = h) :
    thread.Shows h (ControlFlow.jumpFrom rt G b edge f) := by
  intro u hu
  unfold ControlFlow.jumpFrom at hu
  split at hu <;> exact Option.some.inj hu ▸ hf

theorem Shows.throwFrom (x : X) (hf : thread.handled f.user = h) :
    thread.Shows h (ControlFlow.throwFrom rt G b x f) := by
  intro u hu
  unfold ControlFlow.throwFrom at hu
  split at hu
  · exact Option.some.inj hu ▸ hf
  · split at hu
    · cases hu
    · exact Option.some.inj hu ▸ hf

/-- The state behind an operation, whether it fails or not. -/
def stateAfter : Except (X × St) (Frame V X St) → St
  | .ok f' => f'.user
  | .error (_, u) => u

theorem runOp (op : Op E T) :
    thread.handled (stateAfter (ControlFlow.runOp rt b f op)) = thread.handled f.user := by
  cases op with
  | simple e =>
    have heval := thread.eval e (rt.given e (currentIn b f)) f.user
    simp only [ControlFlow.runOp]
    split <;> next h => simpa [h, stateAfter] using heval
  | storeIter i isAsync e =>
    have heval := thread.eval e (rt.given e (currentIn b f)) f.user
    simp only [ControlFlow.runOp]
    split
    · next v u h =>
      have hiter := thread.iter isAsync v u
      rw [h] at heval
      split <;> next h' => simpa [h', stateAfter, Frame.set, heval] using hiter
    · next h => simpa [h, stateAfter] using heval
  | storeNext tmp iter isAsync =>
    simp only [ControlFlow.runOp]
    split
    · next it _ =>
      have hnext := thread.next isAsync it f.user
      split <;> next h => simpa [h, stateAfter, Frame.set] using hnext
    · exact thread.slotError _
  | assignTarget target tmp =>
    simp only [ControlFlow.runOp]
    split
    · next v _ =>
      have hassign := thread.assign target v f.user
      split <;> next h => simpa [h, stateAfter, Frame.set] using hassign
    · exact thread.slotError _
  | storePayload payload value =>
    have hreturn := thread.returnValue b f value
    simp only [ControlFlow.runOp]
    split <;> next h => simpa [h, stateAfter, Frame.set] using hreturn

theorem runTerm (term : BlockTerm E) :
    thread.Shows (thread.handled f.user) (ControlFlow.runTerm rt G b f term) := by
  have hgoto : ∀ label u, thread.handled u = thread.handled f.user →
      thread.Shows (thread.handled f.user) (.goto label { f with user := u } : Place E T V X St) :=
    fun _ u hu _ h => Option.some.inj h ▸ hu
  cases term with
  | jump edge => exact Shows.jumpFrom edge rfl
  | ifTerm test thenLabel elseLabel =>
    cases test with
    | expr e =>
      have htest := thread.test e (rt.given e (currentIn b f)) f.user
      simp only [ControlFlow.runTerm]
      split
      · next h => exact hgoto _ _ (by simpa [h] using htest)
      · next h => exact Shows.throwFrom _ (by simpa [h] using htest)
    | iterComplete tmp =>
      simp only [ControlFlow.runTerm]
      split <;> exact hgoto _ f.user rfl
  | branchTable index targets defaultLabel =>
    simp only [ControlFlow.runTerm]
    split
    · exact hgoto _ f.user rfl
    · exact Shows.throwFrom _ (thread.slotError _)
  | raiseTerm exc => exact Shows.throwFrom _ (thread.raisedValue b f exc)
  | returnTerm value =>
    have hreturn := thread.returnValue b f value
    simp only [ControlFlow.runTerm]
    split
    · next h => exact fun _ hu => Option.some.inj hu ▸ by simpa [h] using hreturn
    · next h => exact Shows.throwFrom _ (by simpa [h] using hreturn)

theorem step {p q : Place E T V X St} (hp : thread.Shows h p)
    (hstep : (blocks rt G).step p = .inl q) : thread.Shows h q := by
  cases p with
  | goto label f =>
    have hstep : graphStep rt G (.goto label f) = .inl q := hstep
    simp only [graphStep] at hstep
    split at hstep
    · obtain rfl := Sum.inl.inj hstep
      exact hp
    · split at hstep <;> cases hstep
  | inside b ops f =>
    have hf : thread.handled f.user = h := hp _ rfl
    cases ops with
    | nil =>
      obtain rfl := Sum.inl.inj hstep
      exact hf ▸ thread.runTerm b.term
    | cons op ops =>
      have hop := thread.runOp (b := b) (f := f) op
      have hstep : graphStep rt G (.inside b (op :: ops) f) = .inl q := hstep
      simp only [graphStep] at hstep
      split at hstep
      · next h' =>
        obtain rfl := Sum.inl.inj hstep
        intro u hu
        obtain rfl := Option.some.inj hu
        rw [h'] at hop
        exact hop.trans hf
      · next h' =>
        obtain rfl := Sum.inl.inj hstep
        rw [h'] at hop
        exact Shows.throwFrom _ (hop.trans hf)
  | leave outcome => cases hstep

/-- **The lowered code never changes what the thread handles.** -/
theorem reaches {p q : Place E T V X St} (hp : thread.Shows h p)
    (hreach : (blocks rt G).Reaches p q) : thread.Shows h q :=
  Machine.guardedFrom_of_invariant hp (fun _ _ h hs => thread.step h hs) q hreach

end ThreadState

/-- **The exception that a handler finds.** On every run on which no `finally` body is sent back to
its entry, at every state in an active handler that evaluates an expression or a bare `raise`
next: the graph evaluates it next too, `current_exception()` and a bare `raise` denote there the
exception of the innermost active handler exactly if this is the one that was caught last, and
`sys.exception()` does exactly if the thread handled it already when the callable was entered. -/
theorem current_exception_iff (rt : Runtime E T V X St) (thread : ThreadState rt)
    (body : Stmts E T false) (user : St)
    (hkeeps : (structured rt .lowered).GuardedFrom KeepsPending (start body user))
    {c : Config E T V X St} (hc : (structured rt .lowered).Reaches (start body user) c)
    {r : RaiseValue E} (hr : c.asks = some r) {e : X} (he : c.current = some e) :
    ∃ b ops f, (blocks rt (graphOf body)).Reaches (enter body user) (.inside b ops f) ∧
      (Place.inside b ops f : Place E T V X St).asks = some r ∧ f.user = c.user ∧
      ((currentIn b f = some e ∧ raisedValue rt b f .bare = (e, f.user)) ↔ c.caught = some e) ∧
      (thread.handled f.user = some e ↔ thread.handled user = some e) := by
  obtain ⟨p, hp, hcorr⟩ := simulates_states hkeeps hc
  obtain ⟨b, ops, f, hq, hasks, huser, hreads⟩ := hcorr.reads (graphOf_ok body) (hkeeps c hc) hr he
  have hreach := Machine.Reaches.trans _ hp hq
  have hstart : thread.Shows (thread.handled user) (enter body user : Place E T V X St) :=
    fun _ hu => Option.some.inj hu ▸ rfl
  have hhandled := thread.reaches hstart hreach _ rfl
  exact ⟨b, ops, f, hreach, hasks, huser, hreads, by rw [hhandled]⟩

/-- `try: .. except: (try: .. except: ..); ..; raise`, with both bodies raising. -/
def handlesInside : Stmts ℕ ℕ false :=
  .ofList [
    .tryExcept (.ofList [.simple 101])
      (.tryExcept (.ofList [.simple 102]) (.simple 50) .nil .nil .nil)
      (.ofList [.simple 50, .raiseStmt none]) .nil .nil]

/-- A thread that was handling 102 when it entered the callable. -/
def handling102 : ThreadState tracing where
  handled _ := some 102
  eval _ _ _ := rfl
  test _ _ _ := rfl
  raiseValue _ _ := rfl
  noActiveException _ := rfl
  iter _ _ _ := rfl
  next _ _ _ := rfl
  assign _ _ _ := rfl
  slotError _ := rfl

/-- In the inner handler, the inner exception. -/
theorem current_exception_iff_inner :
    ∃ b ops f, (blocks tracing (graphOf handlesInside)).Reaches (enter handlesInside [])
        (.inside b ops f) ∧
      (Place.inside b ops f : Place ℕ ℕ ℕ ℕ (List ℕ)).asks = some (.expr 50) ∧
      f.user = [101, 102] ∧
      ((currentIn b f = some 102 ∧ raisedValue tracing b f .bare = (102, f.user)) ↔
        some 102 = some 102) ∧
      (handling102.handled f.user = some 102 ↔ handling102.handled [] = some 102) := by
  have hchecks : (structured tracing .lowered).checks Config.keepsPending 40
      (start handlesInside []) = true := by decide
  have hc : (structured tracing .lowered).Reaches (start handlesInside [])
      (.run (.cons false (.simple 50) .nil)
        (.handling 102 .nil (.seq (.ofList [.simple 50, .raiseStmt none])
          (.handling 101 .nil (.seq .nil .done)))) ⟨[101, 102], some 102, .branched⟩) :=
    ⟨6, rfl⟩
  exact current_exception_iff tracing handling102 handlesInside []
    (Machine.guardedFrom_of_checks hchecks) hc rfl rfl

/-- Behind the inner `try` Python finds the outer exception again, and raises it. The graph finds
the inner one. -/
theorem nested_handler_changes_current :
    (structured tracing .python).Finishes (start handlesInside [])
        (.raised 101 [101, 102, 102, 101]) ∧
      (blocks tracing (graphOf handlesInside)).Finishes (enter handlesInside [])
        (.raised 102 [101, 102, 102, 102]) :=
  ⟨⟨30, by decide⟩, 30, by decide⟩

/-! ## Whole runs -/

/-- The graph runs every handler with its own exception on a run on which a handler is only asked
for it while it is the one caught last. How loops are left is the code's. -/
theorem handlers_follow (rt : Runtime E T V X St) (body : Stmts E T false) (user : St)
    (h : (structured rt ⟨.innermost, .skipsFinally⟩).GuardedFrom
      (fun c => KeepsPending c ∧ ReadsAlike rt .innermost .caughtLast c) (start body user)) :
    Follows rt ⟨.innermost, .skipsFinally⟩ body user :=
  follows_of_alike (h.imp fun _ hc => ⟨hc.1, hc.2, .inl rfl⟩)

/-- **The graph does what Python says**, on every run that keeps away from the three differences:
a read of an exception that is not the one caught last, a `break` or `continue` past a `finally`
body, and a jump to the head of a loop that opens a `finally` body. -/
theorem python_follows (rt : Runtime E T V X St) (body : Stmts E T false) (user : St)
    (h : (structured rt .python).GuardedFrom (fun c => KeepsPending c ∧
      ReadsAlike rt .innermost .caughtLast c ∧ StaysInside c) (start body user)) :
    Follows rt .python body user :=
  follows_of_alike (h.imp fun _ hc => ⟨hc.1, hc.2.1, .inr hc.2.2⟩)

end DietPython.ControlFlow
