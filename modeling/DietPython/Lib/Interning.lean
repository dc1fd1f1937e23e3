import Mathlib.Data.List.Nodup
import Mathlib.Data.List.Infix

/-!
# Tables that only grow

A table without duplicates gives each of its entries a slot, its position. An entry that is asked
for is added at the end unless it is there. So entries and slots determine each other, and what has
a slot keeps it.
-/

namespace Interning

variable {α : Type*} [DecidableEq α]

/-- The slot of an entry. -/
def slot? (table : List α) (a : α) : Option ℕ :=
  if a ∈ table then some (table.idxOf a) else none

/-- The table with an entry. -/
def ensure (table : List α) (a : α) : List α := if a ∈ table then table else table ++ [a]

def ensureAll (table as : List α) : List α := as.foldl ensure table

variable {table : List α} {a b : α} {i : ℕ}

theorem getElem?_of_slot? (h : slot? table a = some i) : table[i]? = some a := by
  unfold slot? at h
  split at h
  · rename_i hmem
    cases h
    have hlt := List.idxOf_lt_length_of_mem hmem
    rw [List.getElem?_eq_getElem hlt, List.getElem_idxOf hlt]
  · cases h

theorem slot?_append (h : slot? table a = some i) (more : List α) :
    slot? (table ++ more) a = some i := by
  unfold slot? at h ⊢
  split at h
  · rename_i hmem
    rw [if_pos (List.mem_append_left _ hmem), List.idxOf_append_of_mem hmem]
    exact h
  · cases h

/-! ## Adding entries -/

theorem prefix_ensure (table : List α) (a : α) : table <+: ensure table a := by
  unfold ensure
  split
  · exact List.prefix_refl table
  · exact List.prefix_append table [a]

theorem mem_ensure : b ∈ ensure table a ↔ b ∈ table ∨ b = a := by
  unfold ensure
  split
  · rename_i h
    constructor
    · exact .inl
    · rintro (hb | rfl)
      · exact hb
      · exact h
  · simp

theorem ensure_of_mem (h : a ∈ table) : ensure table a = table := if_pos h

theorem nodup_ensure (h : table.Nodup) (a : α) : (ensure table a).Nodup := by
  unfold ensure
  split
  · exact h
  · rename_i hnot
    refine List.nodup_append.mpr ⟨h, List.nodup_singleton a, ?_⟩
    rintro b hb c hc rfl
    rw [List.mem_singleton.mp hc] at hb
    exact hnot hb

theorem prefix_ensureAll (table as : List α) : table <+: ensureAll table as := by
  induction as generalizing table with
  | nil => exact List.prefix_refl table
  | cons a as ih => exact (prefix_ensure table a).trans (ih (ensure table a))

theorem mem_ensureAll {as : List α} : b ∈ ensureAll table as ↔ b ∈ table ∨ b ∈ as := by
  induction as generalizing table with
  | nil => simp [ensureAll]
  | cons a as ih =>
    show b ∈ ensureAll (ensure table a) as ↔ _
    rw [ih, mem_ensure, List.mem_cons, or_assoc]

theorem nodup_ensureAll (h : table.Nodup) (as : List α) : (ensureAll table as).Nodup := by
  induction as generalizing table with
  | nil => exact h
  | cons a as ih => exact ih (nodup_ensure h a)

/-- An entry keeps its slot in every later table. -/
theorem slot?_of_prefix {table' : List α} (h : table <+: table') (ha : slot? table a = some i) :
    slot? table' a = some i := by
  obtain ⟨more, rfl⟩ := h
  exact slot?_append ha more

end Interning
