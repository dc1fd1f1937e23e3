import Mathlib.Logic.Relation
import Mathlib.Data.List.Basic

/-!
# Worklist search

A search takes nodes from a stack and puts the successors of each node that it has not seen back on
it. When only finitely many nodes have successors, it ends, and what it has seen are the nodes that
can be reached.
-/

namespace Worklists

open Relation

variable {ℓ : Type*} [DecidableEq ℓ] (next : ℓ → List ℓ)

/-- The nodes seen when the stack is empty, unless that takes more than `n` steps. -/
def search : ℕ → List ℓ → List ℓ → Option (List ℓ)
  | _, [], seen => some seen
  | 0, _ :: _, _ => none
  | n + 1, a :: stack, seen =>
    if a ∈ seen then search n stack seen else search n ((next a).reverse ++ stack) (a :: seen)

/-- How many successors the nodes have that are not seen yet. -/
def pending (nodes seen : List ℓ) : ℕ :=
  nodes.foldr (fun a n => (if a ∈ seen then 0 else (next a).length) + n) 0

omit [DecidableEq ℓ] in
/-- One step along a successor. -/
abbrev Follows (a b : ℓ) : Prop := b ∈ next a

theorem pending_le (nodes : List ℓ) (a : ℓ) (seen : List ℓ) :
    pending next nodes (a :: seen) ≤ pending next nodes seen := by
  unfold pending
  induction nodes with
  | nil => exact Nat.le_refl _
  | cons c nodes ih =>
    rw [List.foldr_cons, List.foldr_cons]
    refine Nat.add_le_add ?_ ih
    by_cases hseen : c ∈ seen
    · rw [if_pos (List.mem_cons_of_mem _ hseen)]
      exact Nat.zero_le _
    · rw [if_neg hseen]
      by_cases hca : c ∈ a :: seen
      · rw [if_pos hca]
        exact Nat.zero_le _
      · exact Nat.le_of_eq (if_neg hca)

/-- A node that is seen has no pending successors any more. -/
theorem pending_cons {nodes : List ℓ} {a : ℓ} {seen : List ℓ} (ha : a ∈ nodes) (hseen : a ∉ seen) :
    pending next nodes (a :: seen) + (next a).length ≤ pending next nodes seen := by
  induction nodes with
  | nil => cases ha
  | cons c nodes ih =>
    have hle := pending_le next nodes a seen
    unfold pending at ih hle ⊢
    rw [List.foldr_cons, List.foldr_cons]
    by_cases hca : c = a
    · subst hca
      rw [if_pos List.mem_cons_self, if_neg hseen]
      omega
    · have hrest := ih ((List.mem_cons.mp ha).resolve_left fun heq => hca heq.symm)
      by_cases hc : c ∈ seen
      · rw [if_pos hc, if_pos (List.mem_cons_of_mem _ hc)]
        omega
      · rw [if_neg hc, if_neg (List.not_mem_cons_of_ne_of_not_mem hca hc)]
        omega

variable {next} {nodes : List ℓ}

/-- A search with enough steps ends. It has seen what is reached from the stack, and successors of
what had been seen are seen or were on the stack. -/
theorem search_spec (hnodes : ∀ a, a ∉ nodes → next a = []) {n : ℕ} (stack seen : List ℓ)
    (hn : stack.length + pending next nodes seen ≤ n)
    (hseen : ∀ a ∈ seen, ∀ b ∈ next a, b ∈ seen ∨ b ∈ stack) :
    ∃ found, search next n stack seen = some found ∧ seen ⊆ found ∧ stack ⊆ found ∧
      (∀ a ∈ found, ∀ b ∈ next a, b ∈ found) ∧
      ∀ b ∈ found, b ∈ seen ∨ ∃ a ∈ stack, ReflTransGen (Follows next) a b := by
  induction n generalizing stack seen with
  | zero =>
    cases stack with
    | nil =>
      exact ⟨seen, by rw [search], List.Subset.refl _, List.nil_subset _, fun a ha b hb =>
        (hseen a ha b hb).resolve_right List.not_mem_nil, fun b hb => .inl hb⟩
    | cons a stack => simp at hn
  | succ n ih =>
    cases stack with
    | nil =>
      exact ⟨seen, by rw [search], List.Subset.refl _, List.nil_subset _, fun a ha b hb =>
        (hseen a ha b hb).resolve_right List.not_mem_nil, fun b hb => .inl hb⟩
    | cons a stack =>
      rw [search]
      rw [List.length_cons] at hn
      by_cases ha : a ∈ seen
      · rw [if_pos ha]
        obtain ⟨found, hfound, hsub, hstack, hclosed, hreach⟩ := ih stack seen
          (by omega) fun c hc b hb => by
            rcases hseen c hc b hb with h | h
            · exact .inl h
            · rcases List.mem_cons.mp h with rfl | h
              · exact .inl ha
              · exact .inr h
        refine ⟨found, hfound, hsub, List.cons_subset.mpr ⟨hsub ha, hstack⟩, hclosed, ?_⟩
        intro b hb
        rcases hreach b hb with h | ⟨c, hc, hcb⟩
        · exact .inl h
        · exact .inr ⟨c, List.mem_cons_of_mem _ hc, hcb⟩
      · rw [if_neg ha]
        have hle : ((next a).reverse ++ stack).length + pending next nodes (a :: seen) ≤ n := by
          rw [List.length_append, List.length_reverse]
          by_cases hmem : a ∈ nodes
          · have := pending_cons next hmem ha
            omega
          · have := pending_le next nodes a seen
            rw [hnodes a hmem, List.length_nil]
            omega
        obtain ⟨found, hfound, hsub, hstack, hclosed, hreach⟩ :=
          ih ((next a).reverse ++ stack) (a :: seen) hle fun c hc b hb => by
            rcases List.mem_cons.mp hc with rfl | hc
            · exact .inr (List.mem_append_left _ (List.mem_reverse.mpr hb))
            · rcases hseen c hc b hb with h | h
              · exact .inl (List.mem_cons_of_mem _ h)
              · rcases List.mem_cons.mp h with rfl | h
                · exact .inl List.mem_cons_self
                · exact .inr (List.mem_append_right _ h)
        obtain ⟨hafound, hsub⟩ := List.cons_subset.mp hsub
        refine ⟨found, hfound, hsub, List.cons_subset.mpr ⟨hafound, ?_⟩, hclosed, ?_⟩
        · exact fun c hc => hstack (List.mem_append_right _ hc)
        · intro b hb
          rcases hreach b hb with h | ⟨c, hc, hcb⟩
          · rcases List.mem_cons.mp h with rfl | h
            · exact .inr ⟨b, List.mem_cons_self, .refl⟩
            · exact .inl h
          · rcases List.mem_append.mp hc with hc | hc
            · exact .inr ⟨a, List.mem_cons_self, .head (List.mem_reverse.mp hc) hcb⟩
            · exact .inr ⟨c, List.mem_cons_of_mem _ hc, hcb⟩

/-- **Search.** From an empty history, what is seen is what can be reached. -/
theorem search_reaches (hnodes : ∀ a, a ∉ nodes → next a = []) (stack : List ℓ) :
    ∃ found, search next (stack.length + pending next nodes []) stack [] = some found ∧
      ∀ b, b ∈ found ↔ ∃ a ∈ stack, ReflTransGen (Follows next) a b := by
  obtain ⟨found, hfound, -, hstack, hclosed, hreach⟩ :=
    search_spec hnodes stack [] (Nat.le_refl _) fun a ha => by cases ha
  refine ⟨found, hfound, fun b => ⟨fun hb => (hreach b hb).resolve_left List.not_mem_nil, ?_⟩⟩
  rintro ⟨a, ha, hab⟩
  induction hab with
  | refl => exact hstack ha
  | tail _ hbc ih => exact hclosed _ ih _ hbc

end Worklists
