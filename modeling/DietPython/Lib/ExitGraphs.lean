import Mathlib.Data.List.Chain
import Mathlib.Data.List.Nodup
import Mathlib.Logic.Relation

/-!
# Graphs that are left through one exit

Every node of a graph has a list of successors, or none when control stops there. `Ends` says that
whatever successors are chosen, finitely many steps lead to the exit. In a finite part of a graph
this is so exactly when no path repeats a node and control stops nowhere.
-/

namespace ExitGraphs

open Relation

variable {ℓ : Type*} (next : ℓ → Option (List ℓ)) (exit : ℓ)

/-- A step that does not leave. -/
def Edge (a b : ℓ) : Prop := ∃ ts, next a = some ts ∧ b ∈ ts ∧ b ≠ exit

/-- Every choice of successors leads to the exit. -/
inductive Ends : ℓ → Prop
  | step {a : ℓ} {ts : List ℓ} (hnext : next a = some ts)
    (hts : ∀ t ∈ ts, t ≠ exit → Ends t) : Ends a

/-- A path from `a`. -/
def IsPath (a : ℓ) (path : List ℓ) : Prop := path.head? = some a ∧ path.IsChain (Edge next exit)

/-- A run that starts in `a` and goes on while there are successors. -/
def IsRun (a : ℓ) (run : ℕ → ℓ) : Prop :=
  run 0 = a ∧ ∀ i ts, next (run i) = some ts → run (i + 1) ∈ ts

variable {next exit} {a b : ℓ}

namespace Ends

theorem goes_on (h : Ends next exit a) : (next a).isSome := by
  cases h with
  | step hnext => rw [hnext]; rfl

theorem edge (h : Ends next exit a) (hedge : Edge next exit a b) : Ends next exit b := by
  cases h with
  | step hnext hts =>
    obtain ⟨ts, hnext', hb, hexit⟩ := hedge
    obtain rfl := Option.some.inj (hnext.symm.trans hnext')
    exact hts b hb hexit

theorem reaches (h : Ends next exit a) (hab : ReflTransGen (Edge next exit) a b) :
    Ends next exit b := by
  induction hab with
  | refl => exact h
  | tail _ hedge ih => exact ih.edge hedge

theorem not_cyclic (h : Ends next exit a) : ¬ TransGen (Edge next exit) a a := by
  induction h with
  | @step a ts hnext hts ih =>
    intro hcycle
    obtain ⟨b, hab, hba⟩ := TransGen.head'_iff.mp hcycle
    obtain ⟨ts', hnext', hb, hexit⟩ := id hab
    obtain rfl := Option.some.inj (hnext.symm.trans hnext')
    refine ih b hb hexit ?_
    exact TransGen.tail'_iff.mpr ⟨_, hba, hab⟩

/-- A successor function with another exit in place of the first one. -/
theorem redirect [DecidableEq ℓ] (h : Ends next exit a) (exit' : ℓ) {next' : ℓ → Option (List ℓ)}
    (hnext' : ∀ c, next' c = (next c).map (List.map fun t => if t = exit then exit' else t)) :
    Ends next' exit' a := by
  induction h with
  | @step a ts hnext hts ih =>
    refine .step (by rw [hnext', hnext]; rfl) fun t ht hexit' => ?_
    obtain ⟨u, hu, rfl⟩ := List.mem_map.mp ht
    by_cases hexit : u = exit
    · rw [if_pos hexit] at hexit'
      exact absurd rfl hexit'
    · rw [if_neg hexit]
      exact ih u hu hexit

/-- **Runs.** A run reaches the exit, and goes on until then. -/
theorem run_exits (h : Ends next exit a) {run : ℕ → ℓ} (hrun : IsRun next a run) :
    ∃ n, (∀ i < n, (next (run i)).isSome) ∧ run n = exit := by
  classical
  induction h generalizing run with
  | @step a ts hnext hts ih =>
    have hfirst : run 1 ∈ ts := hrun.2 0 ts (by rw [hrun.1, hnext])
    have hstart : (next (run 0)).isSome := by rw [hrun.1, hnext]; rfl
    by_cases hexit : run 1 = exit
    · refine ⟨1, fun i hi => ?_, hexit⟩
      obtain rfl : i = 0 := by omega
      exact hstart
    · have hrest : IsRun next (run 1) (fun i => run (i + 1)) :=
        ⟨rfl, fun i us hus => hrun.2 (i + 1) us hus⟩
      obtain ⟨n, hgoes, hn⟩ := ih (run 1) hfirst hexit hrest
      refine ⟨n + 1, fun i hi => ?_, hn⟩
      cases i with
      | zero => exact hstart
      | succ i => exact hgoes i (by omega)

end Ends

/-! ## Paths -/

theorem IsPath.reaches {path : List ℓ} (h : IsPath next exit a path) (hb : b ∈ path) :
    ReflTransGen (Edge next exit) a b := by
  induction path generalizing a with
  | nil => cases hb
  | cons c path ih =>
    obtain rfl := Option.some.inj h.1
    rcases List.mem_cons.mp hb with rfl | hb
    · exact .refl
    · cases path with
      | nil => cases hb
      | cons d path =>
        have hchain := List.isChain_cons_cons.mp h.2
        exact .head hchain.1 (ih ⟨rfl, hchain.2⟩ hb)

theorem IsPath.nodup {path : List ℓ} (hpath : IsPath next exit a path) (h : Ends next exit a) :
    path.Nodup := by
  induction path generalizing a with
  | nil => exact List.nodup_nil
  | cons c path ih =>
    obtain rfl := Option.some.inj hpath.1
    cases path with
    | nil => exact List.nodup_singleton c
    | cons d path =>
      obtain ⟨hedge, hrest⟩ := List.isChain_cons_cons.mp hpath.2
      refine List.nodup_cons.mpr ⟨fun hmem => ?_, ih ⟨rfl, hrest⟩ (h.edge hedge)⟩
      have hback : ReflTransGen (Edge next exit) d c := IsPath.reaches ⟨rfl, hrest⟩ hmem
      exact h.not_cyclic (TransGen.head' hedge hback)

/-- A path can be extended by an edge. -/
theorem IsPath.concat {path : List ℓ} (h : IsPath next exit a (path ++ [b])) {c : ℓ}
    (hedge : Edge next exit b c) : IsPath next exit a (path ++ [b] ++ [c]) := by
  refine ⟨?_, ?_⟩
  · rw [List.head?_append_of_ne_nil _ (by simp)]
    exact h.1
  · refine List.isChain_append.mpr ⟨h.2, List.isChain_singleton c, ?_⟩
    intro x hx y hy
    have hx : x = b := by simpa using hx.symm
    have hy : y = c := by simpa using hy.symm
    rw [hx, hy]
    exact hedge

/-- **Finite graphs.** If control goes on in a finite part and no path repeats a node, every path
leaves. -/
theorem ends_of_nodup {nodes : List ℓ}
    (hgoes : ∀ b, ReflTransGen (Edge next exit) a b → b ∈ nodes ∧ (next b).isSome)
    (hnodup : ∀ path, IsPath next exit a path → path.Nodup) : Ends next exit a := by
  -- A path that has used up the nodes cannot go on.
  have hlast : ∀ (k : ℕ) (path : List ℓ) (b : ℓ), IsPath next exit a (path ++ [b]) →
      nodes.length < path.length + 1 + k → Ends next exit b := by
    intro k
    induction k with
    | zero =>
      intro path b hpath hcard
      have hsub : path ++ [b] ⊆ nodes := fun x hx => (hgoes x (hpath.reaches hx)).1
      have hle := (hnodup _ hpath).length_le_of_subset hsub
      rw [List.length_append, List.length_singleton] at hle
      omega
    | succ k ih =>
      intro path b hpath hcard
      have hb := hgoes b (hpath.reaches (List.mem_append_right _ (List.mem_singleton_self b)))
      obtain ⟨ts, hts⟩ := Option.isSome_iff_exists.mp hb.2
      refine .step hts fun t ht hexit => ih (path ++ [b]) t (hpath.concat ⟨ts, hts, ht, hexit⟩) ?_
      rw [List.length_append, List.length_singleton]
      omega
  refine hlast nodes.length [] a ⟨rfl, List.isChain_singleton a⟩ ?_
  rw [List.length_nil]
  omega

end ExitGraphs
