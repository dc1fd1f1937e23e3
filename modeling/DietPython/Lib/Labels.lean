import Mathlib.Tactic.Common
import Mathlib.Data.List.Nodup

/-!
# Items with labels drawn from a counter

A generator that pushes labelled items hands out labels from a counter, so what it pushes
between two readings of the counter has pairwise different labels between the two. `Span` says
so, and the rules below compose it along the ways in which such generators work: one after the
other, and with labels reserved before and used after an inner generator runs. Looking an item
up by its label then finds it.
-/

namespace Labelled

variable {B : Type*} {label : B → ℕ}

/-- The labels of `items` are pairwise different and lie in `[lo, hi)`. -/
structure Span (label : B → ℕ) (lo hi : ℕ) (items : List B) : Prop where
  bounds : ∀ b ∈ items, lo ≤ label b ∧ label b < hi
  nodup : (items.map label).Nodup

namespace Span

variable {lo mid hi : ℕ} {xs ys : List B}

theorem nil (lo hi : ℕ) : Span label lo hi [] := ⟨fun b hb => by simp at hb, List.nodup_nil⟩

theorem mono (h : Span label lo hi xs) {lo' hi' : ℕ} (hlo : lo' ≤ lo) (hhi : hi ≤ hi') :
    Span label lo' hi' xs :=
  ⟨fun b hb => ⟨Nat.le_trans hlo (h.bounds b hb).1, Nat.lt_of_lt_of_le (h.bounds b hb).2 hhi⟩,
    h.nodup⟩

/-- Two lists whose labels cannot meet. -/
theorem append_of_disjoint (hx : Span label lo hi xs) (hy : Span label lo hi ys)
    (hd : ∀ x ∈ xs, ∀ y ∈ ys, label x ≠ label y) : Span label lo hi (xs ++ ys) := by
  refine ⟨fun b hb => ?_, ?_⟩
  · rcases List.mem_append.mp hb with hb | hb
    · exact hx.bounds b hb
    · exact hy.bounds b hb
  · rw [List.map_append]
    refine hx.nodup.append hy.nodup fun l hl hl' => ?_
    obtain ⟨x, hx', rfl⟩ := List.mem_map.mp hl
    obtain ⟨y, hy', heq⟩ := List.mem_map.mp hl'
    exact hd x hx' y hy' heq.symm

/-- One generator after the other. -/
theorem append (hx : Span label lo mid xs) (hy : Span label mid hi ys) (hlo : lo ≤ mid)
    (hhi : mid ≤ hi) : Span label lo hi (xs ++ ys) :=
  append_of_disjoint (hx.mono (Nat.le_refl lo) hhi) (hy.mono hlo (Nat.le_refl hi))
    fun x hx' y hy' heq => by
      have := (hx.bounds x hx').2
      have := (hy.bounds y hy').1
      omega

/-- Items pushed last under labels that were reserved first. -/
theorem append_reserved (hx : Span label mid hi xs) (hy : Span label lo mid ys) (hlo : lo ≤ mid)
    (hhi : mid ≤ hi) : Span label lo hi (xs ++ ys) :=
  append_of_disjoint (hx.mono hlo (Nat.le_refl hi)) (hy.mono (Nat.le_refl lo) hhi)
    fun x hx' y hy' heq => by
      have := (hx.bounds x hx').1
      have := (hy.bounds y hy').2
      omega

theorem singleton (b : B) (hlo : lo ≤ label b) (hhi : label b < hi) :
    Span label lo hi [b] :=
  ⟨fun c hc => by rw [List.mem_singleton.mp hc]; exact ⟨hlo, hhi⟩, List.nodup_singleton _⟩

/-- Labels at different distances from the counter. -/
theorem of_offsets (offsets : List ℕ) {len : ℕ} (h : xs.map label = offsets.map (lo + ·))
    (hnodup : offsets.Nodup) (hlt : ∀ o ∈ offsets, o < len) : Span label lo (lo + len) xs := by
  refine ⟨fun b hb => ?_, ?_⟩
  · have hmem := List.mem_map_of_mem (f := label) hb
    rw [h] at hmem
    obtain ⟨o, ho, heq⟩ := List.mem_map.mp hmem
    have := hlt o ho
    omega
  · rw [h]
    exact hnodup.map fun a b hab => Nat.add_left_cancel hab

/-- The order of the items does not matter. -/
theorem perm (h : Span label lo hi xs) (hp : xs.Perm ys) : Span label lo hi ys :=
  ⟨fun b hb => h.bounds b (hp.mem_iff.mpr hb), (hp.map label).nodup_iff.mp h.nodup⟩

/-- A rewriting that keeps labels keeps the span. -/
theorem map (h : Span label lo hi xs) (f : B → B) (hf : ∀ b, label (f b) = label b) :
    Span label lo hi (xs.map f) := by
  refine ⟨fun b hb => ?_, ?_⟩
  · obtain ⟨c, hc, rfl⟩ := List.mem_map.mp hb
    rw [hf]
    exact h.bounds c hc
  · rw [List.map_map, show label ∘ f = label from funext hf]
    exact h.nodup

end Span

/-- Looking up the label of an item finds the item. -/
theorem find?_label_of_mem {items : List B} (h : (items.map label).Nodup) {b : B}
    (hb : b ∈ items) : items.find? (fun c => label c == label b) = some b := by
  induction items with
  | nil => cases hb
  | cons c items ih =>
    rw [List.map_cons, List.nodup_cons] at h
    rcases List.mem_cons.mp hb with rfl | hb
    · rw [List.find?_cons_of_pos (by simp)]
    · have hne : label c ≠ label b := fun heq => h.1 (List.mem_map.mpr ⟨b, hb, heq.symm⟩)
      rw [List.find?_cons_of_neg (by simpa using hne)]
      exact ih h.2 hb

end Labelled
