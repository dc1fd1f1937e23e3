import DietPython.Generators.CallableScopes
import DietPython.Lib.Interning

/-!
# Stack slots and global slots

Name binding gives the names of a callable slots of its stack frame: its parameters, its own cells,
the parameters of its blocks and the other local names, in this order. It keeps them as a map from
names to slots and as the list of names in the order of their slots, and goes back and forth
between the two. The names of a module's globals get slots as they are met.

A hash map is a list of entries in any order, a hash set a list without duplicates in any order.
-/

namespace DietPython.Slots

open Interning

/-- A `HashMap<String, u32>`. -/
abbrev SlotMap := List (String × ℕ)

namespace SlotMap

def contains (slots : SlotMap) (name : String) : Bool := slots.any fun entry => entry.1 == name

def get? (slots : SlotMap) (name : String) : Option ℕ := slots.lookup name

def insert (slots : SlotMap) (name : String) (slot : ℕ) : SlotMap :=
  (slots.filter fun entry => entry.1 != name) ++ [(name, slot)]

end SlotMap

/-! ## Stack slots -/

/-- What the slots of a callable are computed from. -/
structure SlotCallable where
  params : List String
  /-- `owned_cell_storage_names` -/
  ownedCellStorageNames : List String
  /-- The names of the parameters of each block. -/
  blockParams : List (List String)
  /-- The names in the instructions and the terminators of the blocks. -/
  remaining : List String
  /-- `is_remaining_local_name` -/
  isRemainingLocalName : String → Bool

/-- The names in their order. A name that comes twice has its last slot. -/
def enumerateSlots (names : List String) : SlotMap :=
  names.zipIdx.foldl (fun (slots : SlotMap) entry => slots.insert entry.1 entry.2) []

def newSlot (slots : SlotMap × ℕ) (name : String) : SlotMap × ℕ :=
  (slots.1.insert name slots.2, slots.2 + 1)

/-- A name that has no slot yet gets the next one. -/
def addSlot (slots : SlotMap × ℕ) (name : String) : SlotMap × ℕ :=
  if slots.1.contains name then slots else newSlot slots name

/-- `compute_local_slot_locations_from_analysis` -/
def computeLocalSlotLocations (callable : SlotCallable) : SlotMap :=
  let slots := enumerateSlots callable.params
  let cells := (callable.ownedCellStorageNames.insertionSort (· ≤ ·)).foldl addSlot
    (slots, slots.length)
  let blocks := callable.blockParams.foldl (fun slots names => names.foldl addSlot slots) cells
  let nonParamLocals := ((callable.remaining.filter fun name => !blocks.1.contains name).filter
    callable.isRemainingLocalName).insertionSort (· ≤ ·)
  (nonParamLocals.foldl newSlot blocks).1

/-- `ordered_slot_names_from_local_slots`, for a walk over the entries in any order. -/
def orderedSlotNames (walked : SlotMap) : List String :=
  (walked.insertionSort fun a b => a.2 ≤ b.2).map Prod.fst

/-- `collect_local_slot_locations`: the stack slots of the layout, if there are any. -/
def collectLocalSlotLocations (stackSlots : List String) (callable : SlotCallable) : SlotMap :=
  if stackSlots = [] then computeLocalSlotLocations callable
  else enumerateSlots stackSlots

/-- `ensure_storage_layout_covers_block_params` -/
def coverBlockParams (stackSlots : List String) (blockParams : List (List String)) : List String :=
  blockParams.foldl (fun stackSlots names => names.foldl ensure stackSlots) stackSlots

/-! ## A map is the table of its names -/

/-- The map that a table of names stands for. -/
def ofTable (table : List String) : SlotMap := table.zipIdx

theorem contains_ofTable (table : List String) (name : String) :
    (ofTable table).contains name = decide (name ∈ table) := by
  unfold SlotMap.contains ofTable
  rw [Bool.eq_iff_iff, List.any_eq_true, decide_eq_true_eq]
  constructor
  · rintro ⟨⟨a, i⟩, hmem, heq⟩
    rw [← beq_iff_eq.mp heq]
    exact List.mem_iff_getElem?.mpr ⟨i, (List.mem_zipIdx_iff_getElem?).mp hmem⟩
  · intro hmem
    obtain ⟨i, hi⟩ := List.mem_iff_getElem?.mp hmem
    exact ⟨(name, i), List.mem_zipIdx_iff_getElem?.mpr hi, beq_self_eq_true name⟩

theorem insert_ofTable {table : List String} {name : String} (h : name ∉ table) :
    (ofTable table).insert name table.length = ofTable (table ++ [name]) := by
  unfold SlotMap.insert ofTable
  rw [List.zipIdx_append, Nat.zero_add]
  refine congrArg (· ++ _) (List.filter_eq_self.mpr ?_)
  rintro ⟨a, i⟩ hmem
  have ha : a ∈ table := List.mem_iff_getElem?.mpr ⟨i, List.mem_zipIdx_iff_getElem?.mp hmem⟩
  rw [bne_iff_ne]
  rintro rfl
  exact h ha

theorem addSlot_ofTable (table : List String) (name : String) :
    addSlot (ofTable table, table.length) name =
      (ofTable (ensure table name), (ensure table name).length) := by
  unfold addSlot ensure
  dsimp only
  rw [contains_ofTable]
  by_cases h : name ∈ table
  · simp [h]
  · simp [h, newSlot, insert_ofTable h]

theorem foldl_addSlot (table names : List String) :
    names.foldl addSlot (ofTable table, table.length) =
      (ofTable (ensureAll table names), (ensureAll table names).length) := by
  induction names generalizing table with
  | nil => rfl
  | cons name names ih =>
    rw [List.foldl_cons, addSlot_ofTable, ih]
    rfl

/-- Names that are new, each given the next slot without a look at the map. -/
theorem foldl_insert_new {table names : List String} (hnodup : names.Nodup)
    (hnew : ∀ name ∈ names, name ∉ table) :
    (names.foldl newSlot (ofTable table, table.length)).1 = ofTable (table ++ names) := by
  induction names generalizing table with
  | nil => rw [List.append_nil]; rfl
  | cons name names ih =>
    obtain ⟨hname, hrest⟩ := List.nodup_cons.mp hnodup
    rw [List.foldl_cons]
    have hlen : table.length + 1 = (table ++ [name]).length := by simp
    simp only [newSlot, insert_ofTable (hnew name (List.mem_cons_self ..)), hlen]
    rw [ih hrest, List.append_assoc]
    · rfl
    · intro other hother hmem
      rcases List.mem_append.mp hmem with hmem | hmem
      · exact hnew other (List.mem_cons_of_mem _ hother) hmem
      · rw [List.mem_singleton.mp hmem] at hother
        exact hname hother

/-- A map filled from a list of different names. -/
theorem enumerateSlots_eq {names : List String} (h : names.Nodup) :
    enumerateSlots names = ofTable names := by
  have hgen : ∀ (done rest : List String), (done ++ rest).Nodup →
      (rest.zipIdx done.length).foldl (fun (slots : SlotMap) entry => slots.insert entry.1 entry.2)
        (ofTable done) = ofTable (done ++ rest) := by
    intro done rest
    induction rest generalizing done with
    | nil => intro _; rw [List.append_nil]; rfl
    | cons name rest ih =>
      intro hnodup
      have hnot : name ∉ done := fun hmem =>
        (List.nodup_append.mp hnodup).2.2 name hmem name (List.mem_cons_self ..) rfl
      rw [List.zipIdx_cons, List.foldl_cons]
      dsimp only
      rw [insert_ofTable hnot]
      have hassoc : done ++ name :: rest = (done ++ [name]) ++ rest := by simp
      have hlen : done.length + 1 = (done ++ [name]).length := by simp
      rw [hassoc] at hnodup ⊢
      rw [hlen]
      exact ih _ hnodup
  exact hgen [] names h

theorem get?_ofTable {table : List String} (h : table.Nodup) {name : String} {slot : ℕ} :
    (ofTable table).get? name = some slot ↔ table[slot]? = some name := by
  have hgen : ∀ (table : List String) (k : ℕ), table.Nodup →
      ((table.zipIdx k).lookup name = some slot ↔ ∃ i, slot = k + i ∧ table[i]? = some name) := by
    intro table
    induction table with
    | nil => simp
    | cons a table ih =>
      intro k hnodup
      obtain ⟨ha, hrest⟩ := List.nodup_cons.mp hnodup
      rw [List.zipIdx_cons, List.lookup_cons]
      by_cases hname : name = a
      · rw [hname]
        simp only [beq_self_eq_true, Option.some.injEq]
        constructor
        · rintro rfl
          exact ⟨0, rfl, rfl⟩
        · rintro ⟨i, rfl, hi⟩
          cases i with
          | zero => rfl
          | succ i => exact absurd (List.mem_of_getElem? (l := table) hi) ha
      · rw [beq_false_of_ne hname, ih (k + 1) hrest]
        constructor
        · rintro ⟨i, rfl, hi⟩
          exact ⟨i + 1, by omega, hi⟩
        · rintro ⟨i, rfl, hi⟩
          cases i with
          | zero => exact absurd (Option.some.inj hi).symm hname
          | succ i => exact ⟨i, by omega, hi⟩
  unfold SlotMap.get? ofTable
  rw [hgen table 0 h]
  simp

/-! ## The slots of a callable -/

/-- The names of a callable in the order of their slots. -/
def slotTable (callable : SlotCallable) : List String :=
  let table := ensureAll callable.params
    (callable.ownedCellStorageNames.insertionSort (· ≤ ·) ++ callable.blockParams.flatten)
  table ++ ((callable.remaining.filter fun name => !decide (name ∈ table)).filter
    callable.isRemainingLocalName).insertionSort (· ≤ ·)

theorem computeLocalSlotLocations_eq {callable : SlotCallable} (hparams : callable.params.Nodup)
    (hremaining : callable.remaining.Nodup) :
    computeLocalSlotLocations callable = ofTable (slotTable callable) ∧
      (slotTable callable).Nodup := by
  have hlen : (ofTable callable.params).length = callable.params.length := List.length_zipIdx
  have hblocks : callable.blockParams.foldl (fun slots names => names.foldl addSlot slots)
      ((callable.ownedCellStorageNames.insertionSort (· ≤ ·)).foldl addSlot
        (ofTable callable.params, callable.params.length)) =
      (ofTable (ensureAll callable.params
        (callable.ownedCellStorageNames.insertionSort (· ≤ ·) ++ callable.blockParams.flatten)),
        (ensureAll callable.params (callable.ownedCellStorageNames.insertionSort (· ≤ ·) ++
          callable.blockParams.flatten)).length) := by
    rw [← foldl_addSlot, List.foldl_append, List.foldl_flatten]
  have hlocals : ∀ table : List String,
      ((((callable.remaining.filter fun name => !decide (name ∈ table)).filter
        callable.isRemainingLocalName).insertionSort (· ≤ ·)).Nodup ∧
      ∀ name ∈ ((callable.remaining.filter fun name => !decide (name ∈ table)).filter
        callable.isRemainingLocalName).insertionSort (· ≤ ·), name ∉ table) := by
    intro table
    refine ⟨(List.perm_insertionSort _ _).nodup_iff.mpr ((hremaining.filter _).filter _), ?_⟩
    intro name hname
    have hmem := (List.mem_filter.mp ((List.perm_insertionSort _ _).mem_iff.mp hname)).1
    simpa using (List.mem_filter.mp hmem).2
  unfold computeLocalSlotLocations slotTable
  simp only [enumerateSlots_eq hparams, hlen, hblocks, contains_ofTable]
  obtain ⟨hnodup, hnew⟩ := hlocals (ensureAll callable.params
    (callable.ownedCellStorageNames.insertionSort (· ≤ ·) ++ callable.blockParams.flatten))
  refine ⟨foldl_insert_new hnodup hnew, List.nodup_append.mpr
    ⟨nodup_ensureAll hparams _, hnodup, ?_⟩⟩
  rintro a ha b hb rfl
  exact hnew a hb ha

/-- The names that have slots. -/
theorem mem_slotTable {callable : SlotCallable} {name : String} :
    name ∈ slotTable callable ↔ name ∈ callable.params ∨
      name ∈ callable.ownedCellStorageNames ∨ name ∈ callable.blockParams.flatten ∨
        name ∈ callable.remaining ∧ callable.isRemainingLocalName name = true := by
  unfold slotTable
  simp only [List.mem_append, mem_ensureAll, (List.perm_insertionSort _ _).mem_iff,
    List.mem_filter, Bool.not_eq_true', decide_eq_false_iff_not]
  constructor
  · rintro ((hparam | hcell | hblock) | ⟨⟨hremains, -⟩, hlocal⟩)
    · exact .inl hparam
    · exact .inr (.inl hcell)
    · exact .inr (.inr (.inl hblock))
    · exact .inr (.inr (.inr ⟨hremains, hlocal⟩))
  · by_cases htable : name ∈ callable.params ∨
      name ∈ callable.ownedCellStorageNames ∨ name ∈ callable.blockParams.flatten
    · exact fun _ => .inl htable
    · rintro (hparam | hcell | hblock | ⟨hremains, hlocal⟩)
      · exact .inl (.inl hparam)
      · exact .inl (.inr (.inl hcell))
      · exact .inl (.inr (.inr hblock))
      · exact .inr ⟨⟨hremains, htable⟩, hlocal⟩

theorem get?_isSome_iff {callable : SlotCallable} (hparams : callable.params.Nodup)
    (hremaining : callable.remaining.Nodup) {name : String} :
    ((computeLocalSlotLocations callable).get? name).isSome ↔ name ∈ slotTable callable := by
  obtain ⟨heq, hnodup⟩ := computeLocalSlotLocations_eq hparams hremaining
  rw [heq, Option.isSome_iff_exists, List.mem_iff_getElem?]
  exact exists_congr fun slot => get?_ofTable hnodup

/-- Going over the entries in any order gives the names in the order of their slots. -/
theorem orderedSlotNames_eq {table : List String} {walked : SlotMap}
    (hwalked : walked.Perm (ofTable table)) : orderedSlotNames walked = table := by
  have hsorted : (walked.insertionSort fun a b => a.2 ≤ b.2) = ofTable table := by
    refine List.Perm.eq_of_pairwise ?_ (List.pairwise_insertionSort (fun a b => a.2 ≤ b.2) walked)
      ?_ ((List.perm_insertionSort _ walked).trans hwalked)
    · intro a b ha hb hab hba
      have ha' := hwalked.mem_iff.mp ((List.perm_insertionSort _ walked).mem_iff.mp ha)
      have h1 := List.mem_zipIdx_iff_getElem?.mp ha'
      have h2 := List.mem_zipIdx_iff_getElem?.mp hb
      have h3 : a.2 = b.2 := Nat.le_antisymm hab hba
      rw [h3, h2] at h1
      exact Prod.ext (Option.some.inj h1).symm h3
    · have hlt : ((ofTable table).map Prod.snd).Pairwise (· < ·) := by
        unfold ofTable
        rw [List.zipIdx_map_snd]
        exact List.pairwise_lt_range'
      exact (List.pairwise_map.mp hlt).imp Nat.le_of_lt
  unfold orderedSlotNames
  rw [hsorted]
  exact List.zipIdx_map_fst 0 table

theorem insertionSort_eq_of_perm {names names' : List String} (h : names.Perm names') :
    names.insertionSort (· ≤ ·) = names'.insertionSort (· ≤ ·) := by
  refine List.Perm.eq_of_pairwise' (List.pairwise_insertionSort _ _)
    (List.pairwise_insertionSort _ _) ?_
  exact (List.perm_insertionSort _ _).trans (h.trans (List.perm_insertionSort _ _).symm)

/-- The order in which the sets of names are walked over does not matter. -/
theorem computeLocalSlotLocations_congr {callable : SlotCallable} {cells remaining : List String}
    (hcells : cells.Perm callable.ownedCellStorageNames)
    (hremaining : remaining.Perm callable.remaining) :
    computeLocalSlotLocations { callable with ownedCellStorageNames := cells, remaining } =
      computeLocalSlotLocations callable := by
  unfold computeLocalSlotLocations
  dsimp only
  rw [insertionSort_eq_of_perm hcells]
  refine congrArg (fun names => (List.foldl newSlot _ names).1) ?_
  exact insertionSort_eq_of_perm ((hremaining.filter _).filter _)

theorem coverBlockParams_eq (stackSlots : List String) (blockParams : List (List String)) :
    coverBlockParams stackSlots blockParams = ensureAll stackSlots blockParams.flatten := by
  unfold coverBlockParams ensureAll
  rw [List.foldl_flatten]

/-- The parameters of a callable, its own cells, the parameters of its blocks and its other local
names have one slot each, the parameters' first. Going from the map to the list of names and back
loses nothing, whatever order the map is walked in, and when the parameters of more blocks get
slots every name keeps its own. -/
theorem localSlots_stable {callable : SlotCallable} (hparams : callable.params.Nodup)
    (hremaining : callable.remaining.Nodup) {walked : SlotMap}
    (hwalked : walked.Perm (computeLocalSlotLocations callable)) :
    (orderedSlotNames walked).Nodup ∧ callable.params <+: orderedSlotNames walked ∧
      (∀ name, ((computeLocalSlotLocations callable).get? name).isSome ↔ name ∈ callable.params ∨
        name ∈ callable.ownedCellStorageNames ∨ name ∈ callable.blockParams.flatten ∨
          name ∈ callable.remaining ∧ callable.isRemainingLocalName name = true) ∧
      (∀ name slot, (computeLocalSlotLocations callable).get? name = some slot ↔
        (orderedSlotNames walked)[slot]? = some name) ∧
      (∀ other, orderedSlotNames walked ≠ [] →
        collectLocalSlotLocations (orderedSlotNames walked) other =
          computeLocalSlotLocations callable) ∧
      ∀ blockParams, (coverBlockParams (orderedSlotNames walked) blockParams).Nodup ∧
        (∀ name ∈ blockParams.flatten,
          name ∈ coverBlockParams (orderedSlotNames walked) blockParams) ∧
        ∀ other name slot, (computeLocalSlotLocations callable).get? name = some slot →
          (collectLocalSlotLocations (coverBlockParams (orderedSlotNames walked) blockParams)
            other).get? name = some slot := by
  have hslots : ∀ name, ((computeLocalSlotLocations callable).get? name).isSome ↔ _ :=
    fun name => (get?_isSome_iff hparams hremaining).trans mem_slotTable
  obtain ⟨heq, hnodup⟩ := computeLocalSlotLocations_eq hparams hremaining
  rw [heq] at hwalked hslots ⊢
  rw [orderedSlotNames_eq hwalked]
  refine ⟨hnodup, ?_, hslots, fun name slot => get?_ofTable hnodup, fun other hne => ?_,
    fun blockParams => ⟨?_, fun name hname => ?_, fun other name slot hslot => ?_⟩⟩
  · exact (prefix_ensureAll _ _).trans (List.prefix_append _ _)
  · unfold collectLocalSlotLocations
    rw [if_neg hne, enumerateSlots_eq hnodup]
  · rw [coverBlockParams_eq]
    exact nodup_ensureAll hnodup _
  · rw [coverBlockParams_eq]
    exact mem_ensureAll.mpr (.inr hname)
  · rw [get?_ofTable hnodup] at hslot
    rw [coverBlockParams_eq]
    have hcovered := nodup_ensureAll hnodup blockParams.flatten
    obtain ⟨more, hmore⟩ := prefix_ensureAll (slotTable callable) blockParams.flatten
    have hslot' : (ensureAll (slotTable callable) blockParams.flatten)[slot]? = some name := by
      rw [← hmore, List.getElem?_append_left (List.getElem?_eq_some_iff.mp hslot).1]
      exact hslot
    unfold collectLocalSlotLocations
    rw [if_neg, enumerateSlots_eq hcovered, get?_ofTable hcovered]
    · exact hslot'
    · intro hnil
      rw [hnil] at hslot'
      cases hslot'

/-- A callable with a parameter that is a cell, and parameters of its blocks. -/
def slotCallable : SlotCallable where
  params := ["a"]
  ownedCellStorageNames := ["_dp_cell_a"]
  blockParams := [["x"], ["a", "y"]]
  remaining := ["z", "a", "y"]
  isRemainingLocalName := fun _ => true

theorem localSlots_stable_slotCallable :
    (orderedSlotNames (computeLocalSlotLocations slotCallable).reverse).Nodup ∧
      ["a"] <+: orderedSlotNames (computeLocalSlotLocations slotCallable).reverse ∧
      ((computeLocalSlotLocations slotCallable).get? "z").isSome :=
  have h := @localSlots_stable slotCallable (by decide) (by decide) _
    (List.reverse_perm (computeLocalSlotLocations slotCallable))
  ⟨h.1, h.2.1, (h.2.2.1 "z").mpr (.inr (.inr (.inr (by decide))))⟩

end DietPython.Slots
