import Mathlib.Data.List.Basic
import Mathlib.Tactic.Common

/-!
# Programs run in lockstep

A computation emits events and then goes on with a value or stops with an error. Two interpreters
that run the same program look alike as long as their steps do. Where a step of one differs from
the step of the other, `Parts` says that nothing that follows can hide it, and
`observed_run_eq_iff` is the resulting characterisation of the programs on which they look alike.
-/

namespace Lockstep

/-- What a computation has emitted, and the value it goes on with or the error it stopped with. -/
structure Emitted (Ev Err α : Type*) where
  events : List Ev
  outcome : Except Err α

namespace Emitted

variable {Ev Err α β γ : Type*}

def andThen (r : Emitted Ev Err α) (next : α → Emitted Ev Err β) : Emitted Ev Err β :=
  match r.outcome with
  | .ok a => ⟨r.events ++ (next a).events, (next a).outcome⟩
  | .error e => ⟨r.events, .error e⟩

/-- What can be seen of a computation: its events, and the error if it stopped. -/
def observed (r : Emitted Ev Err α) : List Ev × Option Err :=
  match r.outcome with
  | .ok _ => (r.events, none)
  | .error e => (r.events, some e)

variable {r : Emitted Ev Err α} {r' : Emitted Ev Err β}

@[simp]
theorem andThen_ok (events : List Ev) (a : α) (next : α → Emitted Ev Err β) :
    andThen ⟨events, .ok a⟩ next = ⟨events ++ (next a).events, (next a).outcome⟩ := rfl

@[simp]
theorem andThen_error (events : List Ev) (e : Err) (next : α → Emitted Ev Err β) :
    andThen ⟨events, .error e⟩ next = ⟨events, .error e⟩ := rfl

theorem andThen_assoc (r : Emitted Ev Err α) (next : α → Emitted Ev Err β)
    (last : β → Emitted Ev Err γ) :
    (r.andThen next).andThen last = r.andThen fun a => (next a).andThen last := by
  obtain ⟨events, e | a⟩ := r
  · rfl
  · rw [andThen_ok, andThen_ok]
    generalize next a = n
    obtain ⟨events', e | b⟩ := n
    · rfl
    · rw [andThen_ok, andThen_ok, List.append_assoc]

theorem andThen_congr {next next' : α → Emitted Ev Err β}
    (h : ∀ a, r.outcome = .ok a → next a = next' a) : r.andThen next = r.andThen next' := by
  obtain ⟨events, e | a⟩ := r
  · rfl
  · rw [andThen_ok, andThen_ok, h a rfl]

theorem observed_fst (r : Emitted Ev Err α) : r.observed.1 = r.events := by
  obtain ⟨events, e | a⟩ := r <;> rfl

theorem observed_andThen_ok (events : List Ev) (a : α) (next : α → Emitted Ev Err β) :
    (andThen ⟨events, .ok a⟩ next).observed =
      (events ++ (next a).observed.1, (next a).observed.2) := by
  rw [andThen_ok]
  generalize next a = n
  obtain ⟨events', e | b⟩ := n <;> rfl

theorem observed_andThen_value (r : Emitted Ev Err α) (f : α → β) :
    (r.andThen fun a => ⟨[], .ok (f a)⟩).observed = r.observed := by
  obtain ⟨events, e | a⟩ := r
  · rfl
  · rw [observed_andThen_ok]
    show (events ++ [], none) = (events, none)
    rw [List.append_nil]

theorem events_prefix_andThen (r : Emitted Ev Err α) (next : α → Emitted Ev Err β) :
    r.events <+: (r.andThen next).events := by
  obtain ⟨events, e | a⟩ := r
  · exact List.prefix_refl events
  · exact List.prefix_append events _

/-- All events that are emitted have the property. -/
def Emits (P : Ev → Prop) (r : Emitted Ev Err α) : Prop := ∀ event ∈ r.events, P event

theorem emits_nil {P : Ev → Prop} (outcome : Except Err α) : Emits P ⟨[], outcome⟩ :=
  fun _ hmem => absurd hmem List.not_mem_nil

theorem emits_singleton {P : Ev → Prop} {event : Ev} (h : P event) (outcome : Except Err α) :
    Emits P ⟨[event], outcome⟩ := by
  intro event' hmem
  rw [List.mem_singleton.mp hmem]
  exact h

theorem Emits.andThen {P : Ev → Prop} {next : α → Emitted Ev Err β} (hr : r.Emits P)
    (hnext : ∀ a, (next a).Emits P) : (r.andThen next).Emits P := by
  intro event hmem
  obtain ⟨events, e | a⟩ := r
  · exact hr event hmem
  · rcases List.mem_append.mp hmem with hmem | hmem
    · exact hr event hmem
    · exact hnext a event hmem

/-- After a common beginning, two computations look alike if they do from there on. -/
theorem observed_andThen_eq_iff (r : Emitted Ev Err α) (next next' : α → Emitted Ev Err β) :
    (r.andThen next).observed = (r.andThen next').observed ↔
      ∀ a, r.outcome = .ok a → (next a).observed = (next' a).observed := by
  obtain ⟨events, e | a⟩ := r
  · constructor
    · intro _ a h
      cases h
    · intro _
      rfl
  · rw [observed_andThen_ok, observed_andThen_ok, Prod.mk.injEq, List.append_cancel_left_eq,
      ← Prod.ext_iff]
    constructor
    · intro h b hb
      cases hb
      exact h
    · intro h
      exact h a rfl

/-! ## Computations that part -/

/-- The two computations have parted for good, if the second one never emits an event of a certain
kind. -/
inductive Parts (never : Ev → Prop) (r : Emitted Ev Err α) (r' : Emitted Ev Err β) : Prop
  | emits {event : Ev} (hmem : event ∈ r.events) (hnever : never event)
  | stops {e : Err} (hstop : r.outcome = .error e) (hmore : ¬ r'.events <+: r.events)
  | stopped {e : Err} (hstop : r'.outcome = .error e) (hmore : ¬ r.events <+: r'.events)
  | errors {e e' : Err} (hstop : r.outcome = .error e) (hstop' : r'.outcome = .error e')
      (hne : e ≠ e')

theorem andThen_of_error {e : Err} (h : r.outcome = .error e) (next : α → Emitted Ev Err γ) :
    r.andThen next = ⟨r.events, .error e⟩ := by
  obtain ⟨events, outcome⟩ := r
  obtain rfl : outcome = .error e := h
  rfl

theorem observed_of_error {e : Err} (h : r.outcome = .error e) (next : α → Emitted Ev Err γ) :
    (r.andThen next).observed = (r.events, some e) := by
  rw [andThen_of_error h]
  rfl

theorem Parts.observed_ne {never : Ev → Prop} (h : Parts never r r')
    {next : α → Emitted Ev Err γ} {next' : β → Emitted Ev Err γ}
    (hnever : (r'.andThen next').Emits fun event => ¬ never event) :
    (r.andThen next).observed ≠ (r'.andThen next').observed := by
  intro heq
  have hevents : (r.andThen next).events = (r'.andThen next').events := by
    rw [← observed_fst, heq, observed_fst]
  cases h with
  | emits hmem hev =>
    exact hnever _ (hevents ▸ (events_prefix_andThen r next).subset hmem) hev
  | stops hstop hmore =>
    have hfst : (r.andThen next).events = r.events := by
      rw [← observed_fst, observed_of_error hstop]
    apply hmore
    rw [← hfst, hevents]
    exact events_prefix_andThen r' next'
  | stopped hstop hmore =>
    have hfst : (r'.andThen next').events = r'.events := by
      rw [← observed_fst, observed_of_error hstop]
    apply hmore
    rw [← hfst, ← hevents]
    exact events_prefix_andThen r next
  | errors hstop hstop' hne =>
    rw [observed_of_error hstop, observed_of_error hstop'] at heq
    exact hne (Option.some.inj (Prod.mk.inj heq).2)

theorem Parts.andThen {never : Ev → Prop} {δ : Type*} (h : Parts never r r')
    (next : α → Emitted Ev Err γ) (next' : β → Emitted Ev Err δ) :
    Parts never (r.andThen next) (r'.andThen next') := by
  cases h with
  | emits hmem hnever => exact .emits ((events_prefix_andThen r next).subset hmem) hnever
  | stops hstop hmore =>
    rw [andThen_of_error hstop]
    exact .stops rfl fun h => hmore ((events_prefix_andThen r' next').trans h)
  | stopped hstop hmore =>
    rw [andThen_of_error hstop]
    exact .stopped rfl fun h => hmore ((events_prefix_andThen r next).trans h)
  | errors hstop hstop' hne =>
    rw [andThen_of_error hstop, andThen_of_error hstop']
    exact .errors rfl rfl hne

end Emitted

/-! ## Programs -/

section Programs

open Emitted

variable {I S Ev Err : Type*}

def run (step : I → S → Emitted Ev Err S) : List I → S → Emitted Ev Err S
  | [], s => ⟨[], .ok s⟩
  | i :: program, s => (step i s).andThen (run step program)

theorem run_nil (step : I → S → Emitted Ev Err S) (s : S) : run step [] s = ⟨[], .ok s⟩ := rfl

theorem run_cons (step : I → S → Emitted Ev Err S) (i : I) (program : List I) (s : S) :
    run step (i :: program) s = (step i s).andThen (run step program) := rfl

/-- `holds` at every step of a run. -/
def Along (step : I → S → Emitted Ev Err S) (holds : I → S → Prop) : List I → S → Prop
  | [], _ => True
  | i :: program, s =>
    holds i s ∧ ∀ s', (step i s).outcome = .ok s' → Along step holds program s'

theorem run_append (step : I → S → Emitted Ev Err S) (program program' : List I) (s : S) :
    run step (program ++ program') s = (run step program s).andThen (run step program') := by
  induction program generalizing s with
  | nil => rfl
  | cons i program ih =>
    rw [List.cons_append, run_cons, run_cons, andThen_assoc]
    congr 1
    funext s'
    exact ih s'

variable {step step' : I → S → Emitted Ev Err S} {never : Ev → Prop}

theorem run_emits {P : Ev → Prop} (hstep : ∀ i s, (step i s).Emits P) (program : List I) (s : S) :
    (run step program s).Emits P := by
  induction program generalizing s with
  | nil => exact emits_nil _
  | cons i program ih => exact (hstep i s).andThen ih

/-- Two interpreters look alike on a program exactly if each step of the run agrees, where steps
that do not agree have parted. -/
theorem observed_run_eq_iff {Agrees : I → S → Prop}
    (hnever : ∀ i s, (step' i s).Emits fun event => ¬ never event)
    (hagree : ∀ i s, Agrees i s → step i s = step' i s)
    (hparts : ∀ i s, ¬ Agrees i s → Parts never (step i s) (step' i s))
    (program : List I) (s : S) :
    (run step program s).observed = (run step' program s).observed ↔
      Along step' Agrees program s := by
  induction program generalizing s with
  | nil => exact ⟨fun _ => trivial, fun _ => rfl⟩
  | cons i program ih =>
    by_cases hi : Agrees i s
    · rw [run_cons, run_cons, hagree i s hi, observed_andThen_eq_iff]
      constructor
      · intro h
        exact ⟨hi, fun s' hs' => (ih s').mp (h s' hs')⟩
      · intro h s' hs'
        exact (ih s').mpr (h.2 s' hs')
    · constructor
      · intro h
        exact absurd h ((hparts i s hi).observed_ne (run_emits hnever (i :: program) s))
      · intro h
        exact absurd h.1 hi

end Programs

end Lockstep
