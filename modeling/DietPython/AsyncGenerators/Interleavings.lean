import DietPython.AsyncGenerators.Awaitables
import Mathlib.Data.List.Chain

/-!
# Awaitables of one generator in any order

Whatever is done to the awaitables of an asynchronous generator, in whatever order:

1. The body is not resumed any more once it has ended, and an awaitable does not resume it any more
   once it has got a value that the body yields.
2. What the driver sends reaches the body only when the body waits for something, and the value of
   `asend` only when it does not. Between two resumptions that get the value of one awaitable
   another awaitable resumes the body, so one at a time the value is given once.
3. An awaitable raises an exception in the body at most once for each time it is given one, in the
   order given.
-/

namespace DietPython.AsyncGenerators

open Transducers Generators

variable {σ V E : Type*}

/-! ## What happened -/

namespace Left

def isAwaits : Left V → Bool
  | awaits _ => true
  | _ => false

def isEnded : Left V → Bool
  | ended => true
  | _ => false

end Left

def resumes : List (AsyncEvent V E) → List (Resume V E)
  | [] => []
  | .resumed r :: log => r :: resumes log
  | _ :: log => resumes log

/-- The exceptions an awaitable is given. -/
def givenTo (i : ℕ) : List (AsyncEvent V E) → List (AsyncExc V E)
  | [] => []
  | .given j exc :: log => if j = i then exc :: givenTo i log else givenTo i log
  | _ :: log => givenTo i log

/-- The exceptions an awaitable raises in the body. -/
def raisedBy (i : ℕ) (rs : List (Resume V E)) : List (AsyncExc V E) :=
  rs.filterMap fun r => if r.sender = i then r.exc else none

theorem resumes_append (log log' : List (AsyncEvent V E)) :
    resumes (log ++ log') = resumes log ++ resumes log' := by
  induction log with
  | nil => rfl
  | cons e log ih => cases e <;> simp [resumes, ih]

theorem givenTo_append (i : ℕ) (log log' : List (AsyncEvent V E)) :
    givenTo i (log ++ log') = givenTo i log ++ givenTo i log' := by
  induction log with
  | nil => rfl
  | cons e log ih =>
    cases e with
    | given j exc =>
      simp only [List.cons_append, givenTo, ih]
      split <;> rfl
    | _ => exact ih

theorem raisedBy_append (i : ℕ) (rs rs' : List (Resume V E)) :
    raisedBy i (rs ++ rs') = raisedBy i rs ++ raisedBy i rs' := List.filterMap_append

theorem raisedBy_eq_nil {i : ℕ} {rs : List (Resume V E)} (h : ∀ r ∈ rs, r.sender ≠ i) :
    raisedBy i rs = [] := by
  refine List.filterMap_eq_nil_iff.mpr fun r hr => ?_
  rw [if_neg (h r hr)]

/-! ## What holds of every history -/

/-- Two resumptions, one right after the other. -/
structure Follows (r r' : Resume V E) : Prop where
  notEnded : r.left.isEnded = false
  delegating : r'.delegating = r.left.isAwaits

/-- The value that a resumption gets. -/
def TakesValue (log : List (AsyncEvent V E)) (r : Resume V E) : Prop :=
  if r.delegating then r.value = some r.transport else .created r.sender r.value ∈ log

structure Orderly (log : List (AsyncEvent V E)) : Prop where
  /-- Nothing resumes a body that has ended. -/
  ended : (resumes log).Pairwise fun r _ => r.left.isEnded = false
  /-- Only an awaitable that still waits resumes the body again. -/
  again : (resumes log).Pairwise fun r r' => r.sender = r'.sender → r.left.isAwaits = true
  follows : (resumes log).IsChain Follows
  value : ∀ r ∈ resumes log, TakesValue log r
  exceptions : ∀ i, List.Sublist (raisedBy i (resumes log)) (givenTo i log)

/-- Between two resumptions that get the value of one awaitable another awaitable resumes the
body. -/
def ValueOnce (rs : List (Resume V E)) : Prop :=
  ∀ l m l' r r', rs = l ++ r :: m ++ r' :: l' → r.sender = r'.sender → r'.delegating = false →
    ∃ x ∈ m, x.sender ≠ r.sender

theorem Orderly.valueOnce {log : List (AsyncEvent V E)} (h : Orderly log) :
    ValueOnce (resumes log) := by
  intro l m l' r r' hsplit hsame hd
  by_contra hall
  push Not at hall
  -- the resumption right before the second one is by the same awaitable, so it has left the body
  -- waiting
  obtain ⟨m', x, hx⟩ : ∃ m' x, r :: m = m' ++ [x] := by
    simpa using (List.eq_nil_or_concat (r :: m)).resolve_left (List.cons_ne_nil r m)
  have hxs : x.sender = r'.sender := by
    have hmem : x ∈ r :: m := hx ▸ List.mem_append_right _ (List.mem_singleton_self x)
    rcases List.mem_cons.mp hmem with rfl | hmem
    · exact hsame
    · exact (hall x hmem).trans hsame
  have hsplit' : resumes log = (l ++ m') ++ x :: r' :: l' := by
    rw [hsplit, hx]
    simp
  have hfollows : Follows x r' :=
    (List.isChain_append_cons_cons.mp (hsplit' ▸ h.follows)).2.1
  have hagain := (List.pairwise_append.mp (hsplit' ▸ h.again)).2.1
  have hawaits := (List.pairwise_cons.mp hagain).1 r' (List.mem_cons_self ..) hxs
  rw [hfollows.delegating, hawaits] at hd
  cases hd

/-- The exception that an awaitable is going to raise in the body. -/
def ClosureAsyncGenerator.pending (g : ClosureAsyncGenerator σ V E) (i : ℕ) :
    List (AsyncExc V E) :=
  (g.sends[i]?.bind AsyncGenSend.resumeException).toList

/-- What ties a generator to its past. -/
structure Past (b : AsyncBody σ V E) (log : List (AsyncEvent V E))
    (g : ClosureAsyncGenerator σ V E) : Prop where
  orderly : Orderly log
  closed : ∀ r ∈ resumes log, r.left.isEnded = true → g.isClosed = true
  done : ∀ r ∈ resumes log, r.left.isAwaits = false →
    ∃ a, g.sends[r.sender]? = some a ∧ a.isDone = true
  last : ∀ r ∈ (resumes log).getLast?, r.left.isEnded = false →
    b.delegating g.store = r.left.isAwaits
  created : ∀ i a, g.sends[i]? = some a → .created i a.sendValue ∈ log
  sender : ∀ r ∈ resumes log, r.sender < g.sends.length
  pending : ∀ i, List.Sublist (raisedBy i (resumes log) ++ g.pending i) (givenTo i log)

/-! ## What one call does -/

/-- The smallest steps: each leaves a record. -/
inductive Move (b : AsyncBody σ V E) :
    ClosureAsyncGenerator σ V E → List (AsyncEvent V E) → ClosureAsyncGenerator σ V E → Prop
  | acloses (g : ClosureAsyncGenerator σ V E) (acloses : List Aclose) :
    Move b g [] { g with acloses }
  | create (g : ClosureAsyncGenerator σ V E) (value : Option V) (exc : Option (AsyncExc V E)) :
    Move b g (g.create value exc).2.2 (g.create value exc).1
  | give (g : ClosureAsyncGenerator σ V E) (i : ℕ) (a : AsyncGenSend V E) (exc : AsyncExc V E)
    (h : g.sends[i]? = some a) :
    Move b g [.given i exc] { g with sends := g.sends.set i { a with resumeException := some exc } }
  /-- An awaitable of a finished generator. -/
  | refuse (g : ClosureAsyncGenerator σ V E) (i : ℕ) (a : AsyncGenSend V E)
    (h : g.sends[i]? = some a) (hclosed : g.isClosed = true) :
    Move b g [] { g with sends := g.sends.set i ⟨a.sendValue, none, true⟩ }
  | resume (g : ClosureAsyncGenerator σ V E) (i : ℕ) (a : AsyncGenSend V E) (transport : V)
    (s : σ) (left : Left V) (h : g.sends[i]? = some a) (hdone : a.isDone = false)
    (hopen : g.isClosed = false) (hleft : left.isEnded = false → b.delegating s = left.isAwaits) :
    Move b g [.resumed ⟨i, transport, if b.delegating g.store then some transport else a.sendValue,
        a.resumeException, b.delegating g.store, left⟩]
      ⟨left.isEnded, s, g.sends.set i ⟨a.sendValue, none, !left.isAwaits⟩, g.acloses⟩

/-- Several of them. -/
inductive Moves (b : AsyncBody σ V E) :
    ClosureAsyncGenerator σ V E → List (AsyncEvent V E) → ClosureAsyncGenerator σ V E → Prop
  | refl (g : ClosureAsyncGenerator σ V E) : Moves b g [] g
  | tail {g g' g'' : ClosureAsyncGenerator σ V E} {log log' : List (AsyncEvent V E)}
    (h : Moves b g log g') (h' : Move b g' log' g'') : Moves b g (log ++ log') g''

namespace Moves

variable {b : AsyncBody σ V E} {g g' g'' : ClosureAsyncGenerator σ V E}
  {log log' : List (AsyncEvent V E)}

theorem single (h : Move b g log g') : Moves b g log g' := (Moves.refl g).tail h

theorem trans (h : Moves b g log g') (h' : Moves b g' log' g'') : Moves b g (log ++ log') g'' := by
  induction h' with
  | refl => rwa [List.append_nil]
  | tail _ hmove ih =>
    rw [← List.append_assoc]
    exact ih.tail hmove

end Moves

namespace ClosureAsyncGenerator

variable (b : AsyncBody σ V E) [PyObject V]

theorem stepSend_moves (g : ClosureAsyncGenerator σ V E) {i : ℕ} {a : AsyncGenSend V E}
    (h : g.sends[i]? = some a) (hdone : a.isDone = false) (transport : V) :
    Moves b g (g.stepSend b i a transport).2.events (g.stepSend b i a transport).1 := by
  unfold stepSend
  cases hclosed : g.isClosed with
  | true => exact .single (by simpa [hclosed] using Move.refuse g i a h hclosed)
  | false =>
    simp only [Bool.false_eq_true, if_false]
    rcases hr : b.resume (if b.delegating g.store = true then some transport else a.sendValue)
      a.resumeException g.store with _ | ⟨s, result | exc⟩
    · exact .refl g
    · cases hd : b.delegating s with
      | true =>
        simp only [hd, if_true]
        exact .single (.resume g i a transport s (.awaits result) h hdone hclosed fun _ => hd)
      | false =>
        simp only [hd, Bool.false_eq_true, if_false]
        exact .single (.resume g i a transport s (.yields result) h hdone hclosed fun _ => hd)
    · exact .single (Move.resume g i a transport s .ended h hdone hclosed (by simp [Left.isEnded]))

theorem throw_moves (g : ClosureAsyncGenerator σ V E) (i : ℕ) (exc : AsyncExc V E) :
    Moves b g (g.throw b i exc).2.events (g.throw b i exc).1 := by
  unfold throw
  cases ha : g.sends[i]? with
  | none => exact .refl g
  | some a =>
    have hi : i < g.sends.length := (List.getElem?_eq_some_iff.mp ha).1
    cases hdone : a.isDone with
    | true =>
      simp only [hdone, if_true]
      exact .refl g
    | false =>
      dsimp only
      rw [if_neg (Bool.eq_false_iff.mp hdone)]
      refine (Moves.single (.give g i a exc ha)).trans (stepSend_moves b _ ?_ ?_ _)
      · exact List.getElem?_set_self hi
      · exact hdone

theorem acloseReply_moves (j : ℕ) {g : ClosureAsyncGenerator σ V E}
    {r : ClosureAsyncGenerator σ V E × AsyncAnswer V E} (h : Moves b g r.2.events r.1) :
    Moves b g (acloseReply j r).2.events (acloseReply j r).1 := by
  have hset : ∀ exc : AsyncExc V E, Moves b g r.2.events
      { r.1 with acloses := r.1.acloses.set j .finished } := by
    intro _
    have := h.tail (.acloses r.1 (r.1.acloses.set j .finished))
    rwa [List.append_nil] at this
  unfold acloseReply
  dsimp only
  split
  · exact hset .generatorExit
  · exact hset .generatorExit
  · exact hset .generatorExit
  · exact hset .generatorExit
  · exact h

section Calls

variable [DecidableEq V]

theorem send_moves (g : ClosureAsyncGenerator σ V E) (i : ℕ) (value : V) :
    Moves b g (g.send b i value).2.events (g.send b i value).1 := by
  unfold send
  cases ha : g.sends[i]? with
  | none => exact .refl g
  | some a =>
    cases hdone : a.isDone with
    | true =>
      simp only [hdone, if_true]
      exact .refl g
    | false =>
      simp only [hdone, Bool.false_eq_true, if_false]
      split
      · exact .refl g
      · exact stepSend_moves b g ha hdone value

theorem acloseSend_moves (g : ClosureAsyncGenerator σ V E) (j : ℕ) (value : V) :
    Moves b g (g.acloseSend b j value).2.events (g.acloseSend b j value).1 := by
  unfold acloseSend
  split
  · exact .refl g
  · split
    · exact .refl g
    · refine acloseReply_moves b j (((Moves.single (.create g none (some .generatorExit))).trans
        (.single (.acloses _ (g.acloses.set j (.awaiting g.sends.length))))).trans
        (send_moves b _ g.sends.length PyObject.none))
  · exact acloseReply_moves b j (send_moves b g _ value)
  · exact .refl g

omit [DecidableEq V] in
theorem acloseThrow_moves (g : ClosureAsyncGenerator σ V E) (j : ℕ) (exc : AsyncExc V E) :
    Moves b g (g.acloseThrow b j exc).2.events (g.acloseThrow b j exc).1 := by
  unfold acloseThrow
  split
  · exact .refl g
  · exact .single (.acloses g _)
  · split
    · exact acloseReply_moves b j (.refl g)
    · exact acloseReply_moves b j (throw_moves b g _ _)
  · exact .refl g

/-- Whatever is called, what it does is made of the small steps. -/
theorem step_moves (g : ClosureAsyncGenerator σ V E) (call : AsyncCall V E) :
    Moves b g (g.step b call).2.events (g.step b call).1 := by
  cases call with
  | asend value => exact .single (.create g (some value) none)
  | athrow exc => exact .single (.create g none (some exc))
  | aclose => exact .single (.acloses g _)
  | send i value => exact send_moves b g i value
  | throw i exc => exact throw_moves b g i exc
  | close i => exact .refl g
  | acloseSend j value => exact acloseSend_moves b g j value
  | acloseThrow j exc => exact acloseThrow_moves b g j exc
  | acloseClose j =>
    show Moves b g (g.acloseClose j).2.events (g.acloseClose j).1
    unfold acloseClose
    split
    · exact .refl g
    · exact .single (.acloses g _)

end Calls

end ClosureAsyncGenerator

/-! ## The past of a generator -/

theorem getElem?_set_some {α : Type*} {l : List α} {i : ℕ} {a : α} (h : l[i]? = some a) (a' : α)
    (j : ℕ) : (l.set i a')[j]? = if i = j then some a' else l[j]? := by
  rw [List.getElem?_set, if_pos (List.getElem?_eq_some_iff.mp h).1]

namespace Past

variable {b : AsyncBody σ V E} {log : List (AsyncEvent V E)} {g : ClosureAsyncGenerator σ V E}

/-- Events that resume nothing. -/
theorem orderly_append (h : Orderly log) {events : List (AsyncEvent V E)}
    (hnone : resumes events = []) : Orderly (log ++ events) := by
  have hr : resumes (log ++ events) = resumes log := by
    rw [resumes_append, hnone, List.append_nil]
  refine ⟨hr ▸ h.ended, hr ▸ h.again, hr ▸ h.follows, fun r hmem => ?_, fun i => ?_⟩
  · rw [hr] at hmem
    have hv := h.value r hmem
    unfold TakesValue at hv ⊢
    split at hv
    · rename_i hd
      rwa [if_pos hd]
    · rename_i hd
      rw [if_neg hd]
      exact List.mem_append_left _ hv
  · rw [hr, givenTo_append]
    exact (h.exceptions i).trans (List.sublist_append_left _ _)

theorem new [PyObject V] (store : σ) :
    Past b [] (ClosureAsyncGenerator.new store : ClosureAsyncGenerator σ V E) where
  orderly := ⟨.nil, .nil, .nil, by simp [resumes], fun _ => List.Sublist.refl _⟩
  closed := by simp [resumes]
  done := by simp [resumes]
  last := by simp [resumes]
  created := by simp [ClosureAsyncGenerator.new]
  sender := by simp [resumes]
  pending := by simp [resumes, raisedBy, ClosureAsyncGenerator.new, ClosureAsyncGenerator.pending]

theorem acloses (h : Past b log g) (acloses : List Aclose) :
    Past b log { g with acloses } :=
  ⟨h.orderly, h.closed, h.done, h.last, h.created, h.sender, h.pending⟩

theorem create (h : Past b log g) (value : Option V) (exc : Option (AsyncExc V E)) :
    Past b (log ++ (g.create value exc).2.2) (g.create value exc).1 := by
  have hnone : resumes (g.create value exc).2.2 = [] := by cases exc <;> rfl
  have hr : resumes (log ++ (g.create value exc).2.2) = resumes log := by
    rw [resumes_append, hnone, List.append_nil]
  have hlt : ∀ {j a}, g.sends[j]? = some a → (g.create value exc).1.sends[j]? = some a :=
    fun hj => List.getElem?_append_left (List.getElem?_eq_some_iff.mp hj).1 ▸ hj
  refine ⟨orderly_append h.orderly hnone, hr ▸ h.closed, fun r hmem hl => ?_, hr ▸ h.last,
    fun i a ha => ?_, fun r hmem => ?_, fun i => ?_⟩
  · obtain ⟨a, ha, hd⟩ := h.done r (hr ▸ hmem) hl
    exact ⟨a, hlt ha, hd⟩
  · rcases Nat.lt_or_ge i g.sends.length with hi | hi
    · have ha' : g.sends[i]? = some a := (List.getElem?_append_left hi).symm.trans ha
      exact List.mem_append_left _ (h.created i a ha')
    · have hi' : i - g.sends.length = 0 := by
        have := (List.getElem?_eq_some_iff.mp ha).1
        simp [ClosureAsyncGenerator.create] at this
        omega
      have ha' := (List.getElem?_append_right hi).symm.trans ha
      rw [hi'] at ha'
      cases ha'
      obtain rfl : i = g.sends.length := by omega
      exact List.mem_append_right _ (List.mem_cons_self ..)
  · have := h.sender r (hr ▸ hmem)
    simp [ClosureAsyncGenerator.create]
    omega
  · rw [hr, givenTo_append]
    by_cases hi : i = g.sends.length
    · subst hi
      have hnew : raisedBy g.sends.length (resumes log) = [] :=
        raisedBy_eq_nil fun r hmem => Nat.ne_of_lt (h.sender r hmem)
      rw [hnew]
      refine List.Sublist.trans ?_ (List.sublist_append_right _ _)
      cases exc <;>
        simp [ClosureAsyncGenerator.create, ClosureAsyncGenerator.pending, givenTo]
    · have hp : (g.create value exc).1.pending i = g.pending i := by
        unfold ClosureAsyncGenerator.pending
        refine congrArg (fun o => Option.toList (Option.bind o _)) ?_
        rcases Nat.lt_or_ge i g.sends.length with hlt | hge
        · exact List.getElem?_append_left hlt
        · rw [List.getElem?_eq_none hge]
          refine List.getElem?_eq_none ?_
          simp [ClosureAsyncGenerator.create]
          omega
      rw [hp]
      exact (h.pending i).trans (List.sublist_append_left _ _)

/-- An awaitable changes without a resumption. -/
theorem set (h : Past b log g) {i : ℕ} {a a' : AsyncGenSend V E} (ha : g.sends[i]? = some a)
    (hvalue : a'.sendValue = a.sendValue) (hdone : a.isDone = true → a'.isDone = true)
    {events : List (AsyncEvent V E)} (hnone : resumes events = [])
    (hexc : ∀ l, List.Sublist (l ++ a.resumeException.toList) (givenTo i log) →
      List.Sublist (l ++ a'.resumeException.toList) (givenTo i log ++ givenTo i events)) :
    Past b (log ++ events) { g with sends := g.sends.set i a' } := by
  have hr : resumes (log ++ events) = resumes log := by
    rw [resumes_append, hnone, List.append_nil]
  refine ⟨orderly_append h.orderly hnone, hr ▸ h.closed, fun r hmem hl => ?_, hr ▸ h.last,
    fun j c hc => ?_, fun r hmem => ?_, fun j => ?_⟩
  · obtain ⟨c, hc, hd⟩ := h.done r (hr ▸ hmem) hl
    simp only [getElem?_set_some ha]
    by_cases hj : i = r.sender
    · subst hj
      obtain rfl : a = c := Option.some.inj (ha.symm.trans hc)
      exact ⟨a', if_pos rfl, hdone hd⟩
    · exact ⟨c, by rw [if_neg hj, hc], hd⟩
  · simp only [getElem?_set_some ha] at hc
    by_cases hj : i = j
    · rw [if_pos hj] at hc
      cases hc
      subst hj
      rw [hvalue]
      exact List.mem_append_left _ (h.created i a ha)
    · rw [if_neg hj] at hc
      exact List.mem_append_left _ (h.created j c hc)
  · simp only [List.length_set]
    exact h.sender r (hr ▸ hmem)
  · have hpj := h.pending j
    rw [hr, givenTo_append]
    unfold ClosureAsyncGenerator.pending at hpj ⊢
    simp only [getElem?_set_some ha]
    by_cases hj : i = j
    · subst hj
      rw [ha] at hpj
      rw [if_pos rfl]
      exact hexc _ hpj
    · rw [if_neg hj]
      exact hpj.trans (List.sublist_append_left _ _)

/-- The body is still open to a resumption, so nothing before it has ended the body. -/
theorem notEnded (h : Past b log g) (hopen : g.isClosed = false) {r : Resume V E}
    (hmem : r ∈ resumes log) : r.left.isEnded = false := by
  cases he : r.left.isEnded with
  | false => rfl
  | true =>
    rw [h.closed r hmem he] at hopen
    cases hopen

/-- An awaitable that is not done has only seen the body wait. -/
theorem isAwaits (h : Past b log g) {i : ℕ} {a : AsyncGenSend V E} (ha : g.sends[i]? = some a)
    (hdone : a.isDone = false) {r : Resume V E} (hmem : r ∈ resumes log) (hs : r.sender = i) :
    r.left.isAwaits = true := by
  cases he : r.left.isAwaits with
  | true => rfl
  | false =>
    obtain ⟨c, hc, hd⟩ := h.done r hmem he
    rw [hs, ha] at hc
    cases hc
    rw [hd] at hdone
    cases hdone

end Past

section Concat

variable {log : List (AsyncEvent V E)} {r : Resume V E}

theorem resumes_concat : resumes (log ++ [.resumed r]) = resumes log ++ [r] := by
  rw [resumes_append]
  rfl

theorem givenTo_concat (j : ℕ) : givenTo j (log ++ [.resumed r]) = givenTo j log := by
  rw [givenTo_append]
  exact List.append_nil _

theorem mem_resumes_concat {r' : Resume V E} (h : r' ∈ resumes (log ++ [.resumed r])) :
    r' ∈ resumes log ∨ r' = r := by
  rw [resumes_concat] at h
  rcases List.mem_append.mp h with h | h
  · exact .inl h
  · exact .inr (List.mem_singleton.mp h)

theorem Orderly.concat (h : Orderly log) (hended : ∀ r' ∈ resumes log, r'.left.isEnded = false)
    (hagain : ∀ r' ∈ resumes log, r'.sender = r.sender → r'.left.isAwaits = true)
    (hlast : ∀ r' ∈ (resumes log).getLast?, Follows r' r)
    (hvalue : TakesValue (log ++ [.resumed r]) r)
    (hexc : ∀ j, List.Sublist (raisedBy j (resumes log ++ [r])) (givenTo j log)) :
    Orderly (log ++ [.resumed r]) := by
  refine ⟨?_, ?_, ?_, ?_, ?_⟩
  · rw [resumes_concat]
    refine List.pairwise_append.mpr ⟨h.ended, List.pairwise_singleton .., ?_⟩
    exact fun r' hmem _ _ => hended r' hmem
  · rw [resumes_concat]
    refine List.pairwise_append.mpr ⟨h.again, List.pairwise_singleton .., ?_⟩
    intro r' hmem r'' hmem' hs
    rw [List.mem_singleton.mp hmem'] at hs
    exact hagain r' hmem hs
  · rw [resumes_concat]
    refine List.isChain_append.mpr ⟨h.follows, List.isChain_singleton .., ?_⟩
    intro r' hmem r'' hhead
    obtain rfl : r = r'' := by simpa using hhead
    exact hlast r' hmem
  · intro r' hmem
    rcases mem_resumes_concat hmem with hmem | rfl
    · have hv := h.value r' hmem
      unfold TakesValue at hv ⊢
      by_cases hd : r'.delegating = true
      · rwa [if_pos hd] at hv ⊢
      · rw [if_neg hd] at hv ⊢
        exact List.mem_append_left _ hv
    · exact hvalue
  · intro j
    rw [resumes_concat, givenTo_concat]
    exact hexc j

end Concat

namespace Past

variable {b : AsyncBody σ V E} {log : List (AsyncEvent V E)} {g : ClosureAsyncGenerator σ V E}

/-- The exceptions raised so far, and the one that an awaitable had ready. -/
theorem raisedBy_concat (h : Past b log g) {r : Resume V E} {a : AsyncGenSend V E}
    (ha : g.sends[r.sender]? = some a) (hexc : r.exc = a.resumeException) (j : ℕ) :
    List.Sublist (raisedBy j (resumes log ++ [r]) ++
      (if r.sender = j then [] else g.pending j)) (givenTo j log) := by
  have hp := h.pending j
  rw [raisedBy_append]
  by_cases hj : r.sender = j
  · subst hj
    unfold ClosureAsyncGenerator.pending at hp
    rw [ha] at hp
    have hone : raisedBy r.sender [r] = a.resumeException.toList := by
      cases he : a.resumeException <;> simp [raisedBy, hexc, he]
    rw [if_pos rfl, hone, List.append_nil]
    exact hp
  · have hone : raisedBy j [r] = [] :=
      raisedBy_eq_nil fun r' hmem => List.mem_singleton.mp hmem ▸ hj
    rw [if_neg hj, hone, List.append_nil]
    exact hp

/-- The past of a generator, with one more resumption. -/
theorem resume (h : Past b log g) {r : Resume V E} {a : AsyncGenSend V E} (s : σ)
    (ha : g.sends[r.sender]? = some a) (hdone : a.isDone = false) (hopen : g.isClosed = false)
    (hleft : r.left.isEnded = false → b.delegating s = r.left.isAwaits)
    (hdelegating : r.delegating = b.delegating g.store)
    (hvalue : r.value = if r.delegating then some r.transport else a.sendValue)
    (hexc : r.exc = a.resumeException) :
    Past b (log ++ [.resumed r]) ⟨r.left.isEnded, s,
      g.sends.set r.sender ⟨a.sendValue, none, !r.left.isAwaits⟩, g.acloses⟩ := by
  have hended : ∀ r' ∈ resumes log, r'.left.isEnded = false := fun r' => h.notEnded hopen
  have hagain : ∀ r' ∈ resumes log, r'.sender = r.sender → r'.left.isAwaits = true :=
    fun r' => h.isAwaits ha hdone
  have htakes : TakesValue (log ++ [.resumed r]) r := by
    unfold TakesValue
    by_cases hd : r.delegating = true
    · rw [if_pos hd]
      rwa [if_pos hd] at hvalue
    · rw [if_neg hd] at hvalue ⊢
      rw [hvalue]
      exact List.mem_append_left _ (h.created r.sender a ha)
  have hfollows : ∀ r' ∈ (resumes log).getLast?, Follows r' r := by
    intro r' hlast
    have hne := hended r' (List.mem_of_getLast? hlast)
    exact ⟨hne, by rw [hdelegating, h.last r' hlast hne]⟩
  refine ⟨h.orderly.concat hended hagain hfollows htakes fun j =>
    (List.sublist_append_left _ _).trans (h.raisedBy_concat ha hexc j), ?_, ?_, ?_, ?_, ?_, ?_⟩
  · intro r' hmem he
    rcases mem_resumes_concat hmem with hmem | rfl
    · rw [hended r' hmem] at he
      cases he
    · exact he
  · intro r' hmem hl
    simp only [getElem?_set_some ha]
    rcases mem_resumes_concat hmem with hmem | rfl
    · by_cases hs : r'.sender = r.sender
      · rw [hagain r' hmem hs] at hl
        cases hl
      · obtain ⟨c, hc, hd⟩ := h.done r' hmem hl
        exact ⟨c, by rw [if_neg (Ne.symm hs), hc], hd⟩
    · rw [if_pos rfl, hl]
      exact ⟨_, rfl, rfl⟩
  · intro r' hlast hne
    rw [resumes_concat, List.getLast?_concat] at hlast
    obtain rfl : r = r' := by simpa using hlast
    exact hleft hne
  · intro j c hc
    refine List.mem_append_left _ ?_
    simp only [getElem?_set_some ha] at hc
    by_cases hj : r.sender = j
    · rw [if_pos hj] at hc
      cases hc
      subst hj
      exact h.created r.sender a ha
    · rw [if_neg hj] at hc
      exact h.created j c hc
  · intro r' hmem
    simp only [List.length_set]
    rcases mem_resumes_concat hmem with hmem | rfl
    · exact h.sender r' hmem
    · exact (List.getElem?_eq_some_iff.mp ha).1
  · intro j
    rw [resumes_concat, givenTo_concat]
    refine List.Sublist.trans ?_ (h.raisedBy_concat ha hexc j)
    unfold ClosureAsyncGenerator.pending
    simp only [getElem?_set_some ha]
    by_cases hj : r.sender = j
    · rw [if_pos hj, if_pos hj]
      exact List.Sublist.refl _
    · rw [if_neg hj, if_neg hj]

theorem move {events : List (AsyncEvent V E)} {g' : ClosureAsyncGenerator σ V E}
    (h : Past b log g) (hmove : Move b g events g') : Past b (log ++ events) g' := by
  cases hmove with
  | acloses acloses =>
    rw [List.append_nil]
    exact h.acloses acloses
  | create value exc => exact h.create value exc
  | give i a exc ha =>
    have hnone : resumes ([.given i exc] : List (AsyncEvent V E)) = [] := rfl
    have hgiven : givenTo i ([.given i exc] : List (AsyncEvent V E)) = [exc] := by
      simp [givenTo]
    refine h.set ha ?_ ?_ hnone ?_
    · rfl
    · exact id
    · intro l hl
      rw [hgiven]
      exact ((List.sublist_append_left _ _).trans hl).append (List.Sublist.refl _)
  | refuse i a ha hclosed =>
    have hnone : resumes ([] : List (AsyncEvent V E)) = [] := rfl
    refine h.set ha ?_ ?_ hnone ?_
    · rfl
    · exact fun _ => rfl
    · intro l hl
      have hl' : List.Sublist l (givenTo i log) := (List.sublist_append_left l _).trans hl
      simpa using hl'.trans (List.sublist_append_left _ _)
  | resume i a transport s left ha hdone hopen hleft =>
    exact h.resume s ha hdone hopen hleft rfl rfl rfl

theorem moves {events : List (AsyncEvent V E)} {g' : ClosureAsyncGenerator σ V E}
    (h : Past b log g) (hmoves : Moves b g events g') : Past b (log ++ events) g' := by
  induction hmoves with
  | refl =>
    rwa [List.append_nil]
  | tail _ hmove ih =>
    rw [← List.append_assoc]
    exact ih.move hmove

end Past

/-! ## Every history -/

namespace ClosureAsyncGenerator

variable [PyObject V] [DecidableEq V]

/-- What has happened at the end of a history. -/
def log (b : AsyncBody σ V E) (store : σ) (calls : List (AsyncCall V E)) :
    List (AsyncEvent V E) :=
  ((machine b).outputs (new store) calls).flatMap AsyncAnswer.events

theorem past_log (b : AsyncBody σ V E) (store : σ) (calls : List (AsyncCall V E)) :
    Past b (log b store calls) ((machine b).final (new store) calls) := by
  have hnew : Past b (([] : List (AsyncAnswer V E)).flatMap AsyncAnswer.events) (new store) :=
    Past.new store
  refine (machine b).record_invariant (fun _ _ => True)
    (fun answers g => Past b (answers.flatMap AsyncAnswer.events) g) ?_ hnew
    (Transducer.guarded_of_forall _ _ (fun _ _ => trivial) _ _)
  intro answers g call hpast _
  rw [List.flatMap_append, List.flatMap_singleton]
  exact hpast.moves (step_moves b g call)

/-- Whatever is done to the awaitables of an asynchronous generator and in whatever order: a body
that has ended is not resumed, nor is it resumed by an awaitable that has got a yielded value; what
the driver sends reaches a body that waits for something and the value of `asend` one that does
not, a second time only when another awaitable has resumed the body in between; and every exception
is raised at most once. -/
theorem orderly_log (b : AsyncBody σ V E) (store : σ) (calls : List (AsyncCall V E)) :
    Orderly (log b store calls) ∧ ValueOnce (resumes (log b store calls)) :=
  ⟨(past_log b store calls).orderly, (past_log b store calls).orderly.valueOnce⟩

end ClosureAsyncGenerator

end DietPython.AsyncGenerators
