import Mathlib.Logic.Function.Basic
import Mathlib.Data.List.Basic
import Mathlib.Data.List.Perm.Subperm
import Mathlib.Tactic.Common
import Mathlib.Data.Nat.Notation

/-!
# Recursion with a memo table

Values of keys, each of them combined from the values of other keys, are computed depth first. What
is done goes into a table, and a key that is asked for while it is being computed gets a makeshift
answer. When no key depends on itself, however far away, such an answer is never given: whatever is
in the table already, what is computed is the solution of the equations, which is unique.
-/

namespace MemoRecursion

/-- How values depend on each other. -/
structure Equations (K V : Type*) where
  present : K → Bool
  /-- A value that is there from the start. -/
  known : K → Option V
  callees : K → List K
  combine : K → List V → V
  /-- The answer for a key that is being computed. -/
  makeshift : K → V

variable {K V : Type*}

/-- A solution of the equations. -/
structure Equations.Solves (e : Equations K V) (value : K → V) : Prop where
  known : ∀ {k v}, e.known k = some v → value k = v
  combine : ∀ {k}, e.known k = none → value k = e.combine k ((e.callees k).map value)

/-- No key depends on itself: callees have lower ranks. -/
def Equations.Ranked (e : Equations K V) (rank : K → ℕ) : Prop :=
  ∀ k, e.known k = none → ∀ c ∈ e.callees k, rank c < rank k

/-! ## The solution -/

/-- The value of a key whose dependencies are less than this deep. -/
def Equations.solve (e : Equations K V) : ℕ → K → V
  | 0, k => e.makeshift k
  | n + 1, k =>
    match e.known k with
    | some v => v
    | none => e.combine k ((e.callees k).map (e.solve n))

namespace Equations

variable {e : Equations K V} {rank : K → ℕ}

theorem solve_stable (hrank : e.Ranked rank) {m n : ℕ} {k : K} (hm : rank k < m) (hn : rank k < n) :
    e.solve m k = e.solve n k := by
  induction m generalizing n k with
  | zero => exact absurd hm (Nat.not_lt_zero _)
  | succ m ih =>
    cases n with
    | zero => exact absurd hn (Nat.not_lt_zero _)
    | succ n =>
      unfold solve
      cases hknown : e.known k with
      | some v => rfl
      | none =>
        refine congrArg (e.combine k) (List.map_congr_left fun c hc => ?_)
        have hlt := hrank k hknown c hc
        exact ih (Nat.lt_of_lt_of_le hlt (Nat.le_of_lt_succ hm))
          (Nat.lt_of_lt_of_le hlt (Nat.le_of_lt_succ hn))

theorem exists_solution (hrank : e.Ranked rank) : ∃ value, e.Solves value := by
  refine ⟨fun k => e.solve (rank k + 1) k, fun {k v} hknown => ?_, fun {k} hknown => ?_⟩
  · simp only [solve, hknown]
  · simp only [solve, hknown]
    refine congrArg (e.combine k) (List.map_congr_left fun c hc => ?_)
    exact solve_stable hrank (hrank k hknown c hc) (Nat.lt_succ_self _)

end Equations

/-! ## The computation -/

section Compute

/-- The table and the keys that are being computed. -/
structure State (K V : Type*) where
  memo : K → Option V
  visiting : List K

def computeList (compute : K → State K V → Option (V × State K V)) :
    List K → State K V → Option (List V × State K V)
  | [], s => some ([], s)
  | k :: ks, s => do
    let (v, s) ← compute k s
    let (vs, s) ← computeList compute ks s
    some (v :: vs, s)

/-- Depth first, with calls no deeper than the fuel. A key that is not present stops everything. -/
def compute [DecidableEq K] (e : Equations K V) : ℕ → K → State K V → Option (V × State K V)
  | 0, _, _ => none
  | fuel + 1, k, s =>
    match s.memo k with
    | some v => some (v, s)
    | none =>
      if !e.present k then none
      else
        match e.known k with
        | some v => some (v, { s with memo := Function.update s.memo k (some v) })
        | none =>
          if k ∈ s.visiting then some (e.makeshift k, s)
          else do
            let (vs, s) ← computeList (compute e fuel) (e.callees k)
              { s with visiting := k :: s.visiting }
            let v := e.combine k vs
            some (v, ⟨Function.update s.memo k (some v), s.visiting.erase k⟩)

variable {e : Equations K V} {rank : K → ℕ} {value : K → V}

/-- Everything in the table is right. -/
def Right (value : K → V) (memo : K → Option V) : Prop := ∀ k v, memo k = some v → value k = v

theorem Right.update [DecidableEq K] {memo : K → Option V} (h : Right value memo) (k : K) :
    Right value (Function.update memo k (some (value k))) := by
  intro k' v hv
  by_cases hk : k' = k
  · subst hk
    rw [Function.update_self] at hv
    exact Option.some.inj hv
  · rw [Function.update_of_ne hk] at hv
    exact h k' v hv

theorem Right.eq_of_isSome {memo : K → Option V} (h : Right value memo) {k : K}
    (hk : (memo k).isSome) : memo k = some (value k) := by
  obtain ⟨v, hv⟩ := Option.isSome_iff_exists.mp hk
  rw [hv, h k v hv]

/-- What the computation of a key gives. -/
def Computes (value : K → V) (s : State K V) (k : K) (r : Option (V × State K V)) : Prop :=
  ∃ memo, r = some (value k, ⟨memo, s.visiting⟩) ∧ Right value memo ∧ (memo k).isSome ∧
    ∀ k', (s.memo k').isSome → (memo k').isSome

theorem computeList_eq {f : K → State K V → Option (V × State K V)} {ks : List K}
    {visiting : List K} (hf : ∀ k ∈ ks, ∀ memo, Right value memo →
      Computes value ⟨memo, visiting⟩ k (f k ⟨memo, visiting⟩))
    {memo : K → Option V} (hmemo : Right value memo) :
    ∃ memo', computeList f ks ⟨memo, visiting⟩ = some (ks.map value, ⟨memo', visiting⟩) ∧
      Right value memo' ∧ (∀ k ∈ ks, (memo' k).isSome) ∧
      ∀ k, (memo k).isSome → (memo' k).isSome := by
  induction ks generalizing memo with
  | nil => exact ⟨memo, rfl, hmemo, fun _ hk => absurd hk (List.not_mem_nil), fun _ h => h⟩
  | cons k ks ih =>
    obtain ⟨memo1, h1, hright1, hk1, hgrow1⟩ := hf k (List.mem_cons_self ..) memo hmemo
    obtain ⟨memo2, h2, hright2, hks, hgrow2⟩ :=
      ih (fun k' hk' => hf k' (List.mem_cons_of_mem _ hk')) hright1
    refine ⟨memo2, ?_, hright2, ?_, fun k' h => hgrow2 k' (hgrow1 k' h)⟩
    · simp only [computeList, h1, h2, Option.bind_eq_bind, Option.bind_some, List.map_cons]
    · intro k' hk'
      rcases List.mem_cons.mp hk' with rfl | hk'
      · exact hgrow2 k' hk1
      · exact hks k' hk'

variable [DecidableEq K] {keys : List K}

/-- Whatever the table holds already, as long as it is right: what is computed is the solution.
The keys that are being computed are different, so calls are never deeper than there are keys. -/
theorem compute_eq (hrank : e.Ranked rank) (hvalue : e.Solves value)
    (hkeys : ∀ k, e.present k → k ∈ keys)
    (hpresent : ∀ k, e.present k → e.known k = none → ∀ c ∈ e.callees k, e.present c)
    {fuel : ℕ} {k : K} (hk : e.present k) {s : State K V} (hmemo : Right value s.memo)
    (hvisiting : ∀ x ∈ s.visiting, e.present x ∧ rank k < rank x) (hnodup : s.visiting.Nodup)
    (hfuel : keys.length < fuel + s.visiting.length) : Computes value s k (compute e fuel k s) := by
  induction fuel generalizing k s with
  | zero =>
    have hle : s.visiting.length ≤ keys.length :=
      (hnodup.subperm fun x hx => hkeys x (hvisiting x hx).1).length_le
    omega
  | succ fuel ih =>
    have hgrow : ∀ (memo : K → Option V) k', (memo k').isSome →
        (Function.update memo k (some (value k)) k').isSome := by
      intro memo k' h
      by_cases hkk : k' = k
      · subst hkk
        simp
      · rwa [Function.update_of_ne hkk]
    have hself : ∀ memo : K → Option V, (Function.update memo k (some (value k)) k).isSome :=
      fun memo => by simp
    unfold compute
    cases hs : s.memo k with
    | some v =>
      obtain rfl := hmemo k v hs
      exact ⟨s.memo, rfl, hmemo, by rw [hs]; rfl, fun _ h => h⟩
    | none =>
      dsimp only
      rw [hk, if_neg (by simp)]
      cases hknown : e.known k with
      | some v =>
        obtain rfl := hvalue.known hknown
        exact ⟨_, rfl, hmemo.update k, hself s.memo, hgrow s.memo⟩
      | none =>
        have hnot : k ∉ s.visiting := fun hmem => Nat.lt_irrefl _ (hvisiting k hmem).2
        dsimp only
        rw [if_neg hnot]
        have hcallees : ∀ c ∈ e.callees k, ∀ memo, Right value memo →
            Computes value ⟨memo, k :: s.visiting⟩ c
              (compute e fuel c ⟨memo, k :: s.visiting⟩) := by
          intro c hc memo hright
          have hlt := hrank k hknown c hc
          refine ih (hpresent k hk hknown c hc) hright (fun x hx => ?_)
            (List.nodup_cons.mpr ⟨hnot, hnodup⟩) (by rw [List.length_cons]; omega)
          rcases List.mem_cons.mp hx with rfl | hx
          · exact ⟨hk, hlt⟩
          · exact ⟨(hvisiting x hx).1, Nat.lt_trans hlt (hvisiting x hx).2⟩
        obtain ⟨memo, hlist, hright, -, hmono⟩ := computeList_eq hcallees hmemo
        refine ⟨Function.update memo k (some (value k)), ?_, hright.update k, hself memo,
          fun k' h => hgrow memo k' (hmono k' h)⟩
        simp only [hlist, Option.bind_eq_bind, Option.bind_some, List.erase_cons_head,
          hvalue.combine hknown]

/-- One key after the other, from the empty table. -/
theorem computeList_compute (hrank : e.Ranked rank) (hvalue : e.Solves value)
    (hkeys : ∀ k, e.present k → k ∈ keys)
    (hpresent : ∀ k, e.present k → e.known k = none → ∀ c ∈ e.callees k, e.present c)
    {ks : List K} (hks : ∀ k ∈ ks, e.present k) :
    ∃ memo, computeList (compute e (keys.length + 1)) ks ⟨fun _ => none, []⟩ =
      some (ks.map value, ⟨memo, []⟩) ∧ ∀ k ∈ ks, memo k = some (value k) := by
  have hempty : Right value fun _ : K => (none : Option V) := fun _ _ h => by cases h
  have hcompute : ∀ k ∈ ks, ∀ memo, Right value memo →
      Computes value ⟨memo, []⟩ k (compute e (keys.length + 1) k ⟨memo, []⟩) :=
    fun k hk memo hmemo => compute_eq hrank hvalue hkeys hpresent (hks k hk) hmemo
      (fun x hx => absurd hx List.not_mem_nil) List.nodup_nil (Nat.lt_succ_self _)
  obtain ⟨memo, hlist, hright, hmem, -⟩ := computeList_eq hcompute hempty
  exact ⟨memo, hlist, fun k hk => hright.eq_of_isSome (hmem k hk)⟩

end Compute

end MemoRecursion
