import Mathlib.Data.List.Basic

/-!
# Trees that are split by their leaves

A tree whose inner nodes group one or more trees is split in two by a test of its leaves: the
leaves that pass and those that do not, each part grouped as they were. A node that passes a test
of its own goes over as a whole, so the parts are the leaves that pass and the leaves that do not
exactly when no node passes that has another leaf below it.
-/

namespace DietPython.LeafTrees

mutual

/-- A tree. Every inner node has at least one tree below it. -/
inductive Tree (L G : Type)
  | leaf (l : L)
  | group (g : G) (children : Trees L G)

inductive Trees (L G : Type)
  | one (t : Tree L G)
  | cons (t : Tree L G) (ts : Trees L G)

end

variable {L G : Type}

/-! ## Leaves -/

mutual

def Tree.leaves : Tree L G → List L
  | .leaf l => [l]
  | .group _ children => children.leaves

def Trees.leaves : Trees L G → List L
  | .one t => t.leaves
  | .cons t ts => t.leaves ++ ts.leaves

end

mutual

theorem Tree.leaves_ne_nil : (t : Tree L G) → t.leaves ≠ []
  | .leaf _ => by
    unfold Tree.leaves
    simp
  | .group _ children => by
    unfold Tree.leaves
    exact children.leaves_ne_nil

theorem Trees.leaves_ne_nil : (ts : Trees L G) → ts.leaves ≠ []
  | .one t => by
    unfold Trees.leaves
    exact t.leaves_ne_nil
  | .cons t ts => by
    unfold Trees.leaves
    intro h
    exact t.leaves_ne_nil (List.append_eq_nil_iff.mp h).1

end

/-- The leaves of a tree that may be missing. -/
def leavesOf : Option (Tree L G) → List L
  | some t => t.leaves
  | none => []

/-- The leaves of trees that may be missing. -/
def leavesOfAll : Option (Trees L G) → List L
  | some ts => ts.leaves
  | none => []

@[simp] theorem leavesOf_none : leavesOf (none : Option (Tree L G)) = [] := rfl

@[simp] theorem leavesOf_some (t : Tree L G) : leavesOf (some t) = t.leaves := rfl

theorem leavesOf_eq_nil {t : Option (Tree L G)} : leavesOf t = [] ↔ t = none := by
  cases t with
  | none => simp
  | some t => simpa using t.leaves_ne_nil

/-- Put a tree in front. -/
def consTree : Option (Tree L G) → Option (Trees L G) → Option (Trees L G)
  | none, ts => ts
  | some t, none => some (.one t)
  | some t, some ts => some (.cons t ts)

theorem leavesOfAll_consTree (t : Option (Tree L G)) (ts : Option (Trees L G)) :
    leavesOfAll (consTree t ts) = leavesOf t ++ leavesOfAll ts := by
  cases t with
  | none => rfl
  | some t =>
    cases ts with
    | none =>
      show t.leaves = t.leaves ++ []
      rw [List.append_nil]
    | some ts => rfl

theorem leavesOf_map_group (g : G) (ts : Option (Trees L G)) :
    leavesOf (ts.map (.group g)) = leavesOfAll ts := by
  cases ts with
  | none => rfl
  | some ts => rfl

theorem leavesOfAll_map_one (t : Option (Tree L G)) :
    leavesOfAll (t.map .one) = leavesOf t := by
  cases t with
  | none => rfl
  | some t => rfl

/-! ## Splitting -/

section Split

variable (p : L → Bool) (q : G → Bool) (derive : G → G)

mutual

/-- The part that passes and the part that does not. A part of a group is a group with a label of
its own. -/
def Tree.split : Tree L G → Option (Tree L G) × Option (Tree L G)
  | .leaf l => if p l then (some (.leaf l), none) else (none, some (.leaf l))
  | .group g children =>
    if q g then (some (.group g children), none)
    else (children.split.1.map (.group (derive g)), children.split.2.map (.group (derive g)))

def Trees.split : Trees L G → Option (Trees L G) × Option (Trees L G)
  | .one t => (t.split.1.map .one, t.split.2.map .one)
  | .cons t ts => (consTree t.split.1 ts.split.1, consTree t.split.2 ts.split.2)

end

mutual

/-- A group that passes has no leaf that does not. -/
def Tree.splitsByLeaf : Tree L G → Bool
  | .leaf _ => true
  | .group g children => if q g then children.leaves.all p else children.splitsByLeaf

def Trees.splitsByLeaf : Trees L G → Bool
  | .one t => t.splitsByLeaf
  | .cons t ts => t.splitsByLeaf && ts.splitsByLeaf

end

/-! No leaf is lost, and none is in both parts. -/

mutual

theorem Tree.length_split (t : Tree L G) :
    (leavesOf (t.split p q derive).1).length + (leavesOf (t.split p q derive).2).length =
      t.leaves.length :=
  match t with
  | .leaf l => by
    unfold Tree.split
    cases p l with
    | true => rfl
    | false => rfl
  | .group g children => by
    unfold Tree.split
    cases q g with
    | true => rfl
    | false =>
      simp only [Bool.false_eq_true, if_false, leavesOf_map_group]
      exact children.length_split

theorem Trees.length_split (ts : Trees L G) :
    (leavesOfAll (ts.split p q derive).1).length + (leavesOfAll (ts.split p q derive).2).length =
      ts.leaves.length :=
  match ts with
  | .one t => by
    unfold Trees.split Trees.leaves
    simp only [leavesOfAll_map_one]
    exact t.length_split
  | .cons t ts => by
    have ht := t.length_split
    have hts := ts.length_split
    unfold Trees.split Trees.leaves
    simp only [leavesOfAll_consTree, List.length_append]
    omega

end

/-! Every leaf that passes is in the first part. -/

mutual

theorem Tree.filter_sublist_split (t : Tree L G) :
    (t.leaves.filter p).Sublist (leavesOf (t.split p q derive).1) :=
  match t with
  | .leaf l => by
    unfold Tree.split Tree.leaves
    cases h : p l with
    | true => simp [h, Tree.leaves]
    | false => simp [h]
  | .group g children => by
    unfold Tree.split
    cases q g with
    | true => exact List.filter_sublist
    | false =>
      simp only [Bool.false_eq_true, if_false, leavesOf_map_group]
      exact children.filter_sublist_split

theorem Trees.filter_sublist_split (ts : Trees L G) :
    (ts.leaves.filter p).Sublist (leavesOfAll (ts.split p q derive).1) :=
  match ts with
  | .one t => by
    unfold Trees.split Trees.leaves
    simp only [leavesOfAll_map_one]
    exact t.filter_sublist_split
  | .cons t ts => by
    unfold Trees.split Trees.leaves
    simp only [leavesOfAll_consTree, List.filter_append]
    exact t.filter_sublist_split.append ts.filter_sublist_split

end

/-! The second part has leaves that do not pass, in their order. -/

mutual

theorem Tree.split_sublist_filter (t : Tree L G) :
    (leavesOf (t.split p q derive).2).Sublist (t.leaves.filter fun l => !p l) :=
  match t with
  | .leaf l => by
    unfold Tree.split Tree.leaves
    cases h : p l with
    | true => simp
    | false => simp [h, Tree.leaves]
  | .group g children => by
    unfold Tree.split
    cases q g with
    | true => exact List.nil_sublist _
    | false =>
      simp only [Bool.false_eq_true, if_false, leavesOf_map_group]
      exact children.split_sublist_filter

theorem Trees.split_sublist_filter (ts : Trees L G) :
    (leavesOfAll (ts.split p q derive).2).Sublist (ts.leaves.filter fun l => !p l) :=
  match ts with
  | .one t => by
    unfold Trees.split Trees.leaves
    simp only [leavesOfAll_map_one]
    exact t.split_sublist_filter
  | .cons t ts => by
    unfold Trees.split Trees.leaves
    simp only [leavesOfAll_consTree, List.filter_append]
    exact t.split_sublist_filter.append ts.split_sublist_filter

end

/-! Groups that pass are what makes the difference. -/

mutual

theorem Tree.splitsByLeaf_iff (t : Tree L G) :
    t.splitsByLeaf p q = true ↔ leavesOf (t.split p q derive).1 = t.leaves.filter p :=
  match t with
  | .leaf l => by
    unfold Tree.split Tree.splitsByLeaf Tree.leaves
    cases h : p l with
    | true => simp [h, Tree.leaves]
    | false => simp [h]
  | .group g children => by
    unfold Tree.split Tree.splitsByLeaf Tree.leaves
    cases q g with
    | true =>
      show children.leaves.all p = true ↔ children.leaves = children.leaves.filter p
      rw [List.all_eq_true, eq_comm, List.filter_eq_self]
    | false =>
      simp only [Bool.false_eq_true, if_false, leavesOf_map_group]
      exact children.splitsByLeaf_iff

theorem Trees.splitsByLeaf_iff (ts : Trees L G) :
    ts.splitsByLeaf p q = true ↔ leavesOfAll (ts.split p q derive).1 = ts.leaves.filter p :=
  match ts with
  | .one t => by
    unfold Trees.split Trees.splitsByLeaf Trees.leaves
    simp only [leavesOfAll_map_one]
    exact t.splitsByLeaf_iff
  | .cons t ts => by
    have ht := t.splitsByLeaf_iff
    have hts := ts.splitsByLeaf_iff
    unfold Trees.split Trees.splitsByLeaf Trees.leaves
    rw [leavesOfAll_consTree, List.filter_append, Bool.and_eq_true, ht, hts]
    constructor
    · rintro ⟨h1, h2⟩
      rw [h1, h2]
    · intro h
      -- each part has no fewer leaves than pass, so neither has more
      have l1 := (t.filter_sublist_split p q derive).length_le
      have l2 := (ts.filter_sublist_split p q derive).length_le
      have l := congrArg List.length h
      simp only [List.length_append] at l
      exact ⟨((t.filter_sublist_split p q derive).eq_of_length (by omega)).symm,
        ((ts.filter_sublist_split p q derive).eq_of_length (by omega)).symm⟩

end

/-- What is left over then. -/
theorem Tree.split_snd {t : Tree L G} (h : t.splitsByLeaf p q = true) :
    leavesOf (t.split p q derive).2 = t.leaves.filter fun l => !p l := by
  have h1 := (t.splitsByLeaf_iff p q derive).mp h
  have hl := t.length_split p q derive
  have hp : t.leaves.length = (t.leaves.filter p).length + (t.leaves.filter fun l => !p l).length :=
    List.length_eq_length_filter_add p
  rw [h1] at hl
  exact (t.split_sublist_filter p q derive).eq_of_length (by omega)

end Split

end DietPython.LeafTrees
