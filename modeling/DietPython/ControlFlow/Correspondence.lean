import DietPython.ControlFlow.Edges

/-!
# Corresponding states

When a state of a structured program, in the meaning that the lowered code gives it, and a state
of its graph correspond; and the one condition under which the two stay together: a `finally` body
that opens with a `while` loop is not sent back to its head by a jump. The head of such a loop is
the entry of the body, and a jump there writes the kind and the payload again.
-/

namespace DietPython.ControlFlow

open Machines

variable {E T V X St : Type} {rt : Runtime E T V X St} {G : Graph E T}
  {F : Floor G V X}

/-! ## The condition -/

def Config.keepsPending : Config E T V X St → Bool
  | .unwind .cont (.whileLoop opens _ _ _ _) s => !(opens && s.arrival == .jumps)
  | _ => true

/-- No jump goes to the head of a `while` loop that opens a `finally` body. -/
def KeepsPending (c : Config E T V X St) : Prop := c.keepsPending = true

/-! ## The relation -/

/-- The slot of an exception parameter, by what was caught. -/
def heldSlot (rt : Runtime E T V X St) : Option X → Slot V X
  | some e => .exc e
  | none => .obj rt.noneValue

/-- Inside a region, its parameter holds what was caught last. -/
def CaughtAt (rt : Runtime E T V X St) (ms : List Pass) (s : State X St) (f : Frame V X St) :
    Prop :=
  ∀ x, excOf ms none = some x → f.slots x = heldSlot rt s.caught

/-- Where the graph stands when statements are about to run. -/
inductive Standing (G : Graph E T) (ms : List Pass) (n : ℕ) {l : Bool} (stmts : Stmts E T l)
    (t : RegionTargets) (f : Frame V X St) : Arrival → Place E T V X St → Prop
  | branched (g : Gen) (h : Lies G ms n stmts t g) :
      Standing G ms n stmts t f .branched (.goto (lowerStmts stmts [] t g).entry f)
  | opens (g : Gen) (hplaced : Placed G ms (lowerStmts stmts [] t g).blocks)
      (hbelow : BelowBut ms g.label (lowerStmts stmts [] t g).entry) (hn : n ≤ g.tmp)
      (hne : stmts ≠ .nil) (kind payload : Name)
      (hentry : ms.head? = some (.finallyParams (lowerStmts stmts [] t g).entry kind payload))
      (hmark : (lowerStmts stmts [] t g).entry ∉ marks ms.tail) :
      Standing G ms n stmts t f .opens (.goto (lowerStmts stmts [] t g).entry f)
  | jumps (g : Gen) (linear : List (Op E T)) (b : Block E T) (hlinear : linear ≠ [])
      (hplaced : Placed G ms (lowerStmts stmts linear t g).blocks)
      (hb : IsEntry (lowerStmts stmts) linear t g b)
      (hbelow : BelowBut ms g.label (lowerStmts stmts linear t g).entry) (hn : n ≤ g.tmp) :
      Standing G ms n stmts t f .jumps
        (.inside (applyAll ms b) ((applyAll ms b).body.drop linear.length) f)

/-- The graph is on its way to a label, along a branch or with the jump still to make. -/
inductive Leaving (ms : List Pass) (label : ℕ) (f : Frame V X St) :
    Arrival → Place E T V X St → Prop
  | branched : Leaving ms label f .branched (.goto label f)
  | jumps (b : Block E T) (hterm : b.term = .jump ⟨label, []⟩) (hcarry : Carries b ms)
      (htidy : b.Tidy) : Leaving ms label f .jumps (.inside b [] f)

/-- Where the graph stands when a signal is being carried outwards. -/
def Carrying (rt : Runtime E T V X St) (G : Graph E T) (ms : List Pass) (t : RegionTargets)
    (s : State X St) (f : Frame V X St) (p : Place E T V X St) {l : Bool} : Signal V X l → Prop
  | .normal => CaughtAt rt ms s f ∧ Leaving ms t.normalCont f s.arrival p
  | .brk => CaughtAt rt ms s f ∧ ∃ loopLabels, t.loopLabels = some loopLabels ∧
    Leaving ms loopLabels.breakLabel f s.arrival p
  | .cont => CaughtAt rt ms s f ∧ ∃ loopLabels, t.loopLabels = some loopLabels ∧
    Leaving ms loopLabels.continueLabel f s.arrival p
  | .ret v =>
    match retOf ms with
    | none => p = .leave (.returned v f.user)
    | some (label, payload) =>
      ∃ b : Block E T, p = .inside b [] f ∧
        b.term = .jump ⟨label, [.abruptKind .ret, .name payload]⟩ ∧ b.Tidy ∧
        f.slots payload = .obj v ∧ paramSlot rt b f = heldSlot rt s.caught
  | .exc e =>
    match t.activeExc with
    | none => p = .leave (.raised e f.user)
    | some label =>
      ∃ b n, G.find label = some b ∧ b.params = [⟨.tryExc n, .exception⟩] ∧
        f.slots (.tryExc n) = .exc e ∧ p = .goto label f

/-- **Corresponding states.** -/
def Corresponds (rt : Runtime E T V X St) (G : Graph E T) (F : Floor G V X) :
    Config E T V X St → Place E T V X St → Prop
  | .run stmts k s, p => ∃ t ms n f, Surrounds rt G F f.slots k t ms n ∧ f.user = s.user ∧
    CaughtAt rt ms s f ∧ Standing G ms n stmts t f s.arrival p
  | .unwind signal k s, p => ∃ t ms n f, Surrounds rt G F f.slots k t ms n ∧ f.user = s.user ∧
    Carrying rt G ms t s f p signal

/-! ## Reading the current exception -/

section Reading

variable (rt) {l : Bool} {k : Kont E T V X l} {s : State X St} {f : Frame V X St} {ms : List Pass}
  {b : Block E T}

/-- What the code finds in its exception parameter is what was caught last. -/
theorem currentIn_eq (hregion : (excOf ms none).isSome = k.inRegion)
    (hcaught : CaughtAt rt ms s f) (hb : b.exceptionParam = excOf ms none) :
    currentIn b f = (Reading.caughtLast.held k s).exception? := by
  unfold currentIn Reading.held
  rw [hb, ← hregion]
  cases hexc : excOf ms none with
  | none => rfl
  | some x =>
    show (f.slots x).exception? = _
    rw [hcaught x hexc]
    cases s.caught <;> rfl

theorem given_current (hregion : (excOf ms none).isSome = k.inRegion)
    (hcaught : CaughtAt rt ms s f) (hb : b.exceptionParam = excOf ms none) (e : E) :
    rt.given e (currentIn b f) = givenTo rt .lowered e k s := by
  rw [currentIn_eq rt hregion hcaught hb]
  rfl

theorem raisedValue_bare (hregion : (excOf ms none).isSome = k.inRegion)
    (hcaught : CaughtAt rt ms s f) (hb : b.exceptionParam = excOf ms none)
    (huser : f.user = s.user) : raisedValue rt b f .bare = reraise rt .lowered k s := by
  unfold raisedValue reraise Meaning.lowered Reading.held
  rw [hb, ← hregion]
  cases hexc : excOf ms none with
  | none => simp [huser]
  | some x =>
    simp only [hcaught x hexc, huser]
    cases s.caught <;> rfl

end Reading

end DietPython.ControlFlow
