import DietPython.Counters.HeavyHitters
import DietPython.Counters.Ids

/-!
# Counter definitions and their storage

A builder hands out identifiers behind the largest of a list of definitions. When a module state is
made, every identifier gets the slot of its key, and definitions that are shared have one key.

1. `CounterBuilder.Grown` says what operations do to the list, and to the identifiers in it.
2. `Storage.Stored` is the invariant of the loop that builds the table.
3. `counters_spec` puts the two together.
-/

namespace DietPython.Counters

/-- `usize`, with additions that wrap. -/
abbrev Usize := Fin 18446744073709551616

/-- `usize::MAX` -/
def usizeMax : ℕ := 18446744073709551615

inductive CounterScope
  | this
  | function
  | global
  deriving DecidableEq

inductive CounterSite
  | blockEntry (functionId : FunctionId) (blockLabel : UInt32)
  | runtime (functionId : Option FunctionId) (instrId : Option InstrId)
  deriving DecidableEq

structure CounterDef where
  id : Usize
  scope : CounterScope
  kind : String
  site : CounterSite
  deriving DecidableEq

/-! ## The builder -/

structure CounterBuilder where
  defs : List CounterDef
  nextId : Usize

inductive CounterOp
  | define (scope : CounterScope) (kind : String) (site : CounterSite)
  | defineIfMissing (scope : CounterScope) (kind : String) (site : CounterSite)

def ids (defs : List CounterDef) : List Usize := defs.map CounterDef.id

namespace CounterBuilder

def new (defs : List CounterDef) : CounterBuilder :=
  ⟨defs, ((ids defs).max?.map (· + 1)).getD 0⟩

variable (builder : CounterBuilder)

/-- The builder, and the identifier of the handle. -/
def define (scope : CounterScope) (kind : String) (site : CounterSite) : CounterBuilder × Usize :=
  (⟨builder.defs ++ [⟨builder.nextId, scope, kind, site⟩], builder.nextId + 1⟩, builder.nextId)

def defineIfMissing (scope : CounterScope) (kind : String) (site : CounterSite) :
    CounterBuilder × Usize :=
  match builder.defs.find? fun counter =>
    counter.scope = scope && counter.kind = kind && counter.site = site with
  | some existing => (builder, existing.id)
  | none => builder.define scope kind site

def apply : CounterOp → CounterBuilder × Usize
  | .define scope kind site => builder.define scope kind site
  | .defineIfMissing scope kind site => builder.defineIfMissing scope kind site

def run (builder : CounterBuilder) (ops : List CounterOp) : CounterBuilder :=
  ops.foldl (fun builder op => (builder.apply op).1) builder

/-- The identifiers of the handles that the operations give. -/
def handles : CounterBuilder → List CounterOp → List Usize
  | _, [] => []
  | builder, op :: ops => (builder.apply op).2 :: handles (builder.apply op).1 ops

end CounterBuilder

/-! ### Growing lists -/

section Grown

variable {initial : List CounterDef} {builder : CounterBuilder}

/-- The identifiers as numbers. -/
def values (defs : List CounterDef) : List ℕ := defs.map fun counter => counter.id.val

/-- The identifier that the first new definition gets, if the addition does not wrap. -/
def firstFree (defs : List CounterDef) : ℕ := ((ids defs).max?.map fun id => id.val + 1).getD 0

theorem values_append (defs more : List CounterDef) :
    values (defs ++ more) = values defs ++ values more := List.map_append

theorem nodup_ids_iff (defs : List CounterDef) : (ids defs).Nodup ↔ (values defs).Nodup := by
  have hvalues : values defs = (ids defs).map Fin.val := by
    unfold values ids
    rw [List.map_map]
    rfl
  rw [hvalues, List.nodup_map_iff Fin.val_injective]

theorem lt_firstFree {value : ℕ} (h : value ∈ values initial) : value < firstFree initial := by
  obtain ⟨counter, hcounter, rfl⟩ := List.mem_map.mp h
  have hid : counter.id ∈ ids initial := List.mem_map.mpr ⟨counter, hcounter, rfl⟩
  unfold firstFree
  cases hmax : (ids initial).max? with
  | none =>
    rw [List.max?_eq_none_iff.mp hmax] at hid
    cases hid
  | some largest =>
    have hle := (List.max?_eq_some_iff.mp hmax).2 _ hid
    exact Nat.lt_succ_of_le hle

/-- A definition with the largest identifier, unless there is none. -/
theorem firstFree_cases (defs : List CounterDef) :
    (defs = [] ∧ firstFree defs = 0) ∨ ∃ value ∈ values defs, firstFree defs = value + 1 := by
  unfold firstFree
  cases hmax : (ids defs).max? with
  | none => exact .inl ⟨List.map_eq_nil_iff.mp (List.max?_eq_none_iff.mp hmax), rfl⟩
  | some largest =>
    obtain ⟨counter, hcounter, rfl⟩ := List.mem_map.mp (List.max?_eq_some_iff.mp hmax).1
    exact .inr ⟨counter.id.val, List.mem_map.mpr ⟨counter, hcounter, rfl⟩, rfl⟩

/-- What operations have made of a list: new definitions are behind the old ones, and their
identifiers count on from the largest. -/
structure CounterBuilder.Grown (initial : List CounterDef) (builder : CounterBuilder)
    (added : List CounterDef) : Prop where
  defs : builder.defs = initial ++ added
  nextId : builder.nextId.val = (firstFree initial + added.length) % 18446744073709551616
  numbered : values added =
    (List.range' (firstFree initial) added.length).map (· % 18446744073709551616)

namespace CounterBuilder

theorem grown_new (initial : List CounterDef) : (new initial).Grown initial [] := by
  refine ⟨(List.append_nil _).symm, ?_, rfl⟩
  unfold new firstFree
  cases (ids initial).max? with
  | none => rfl
  | some largest => exact Fin.val_add largest 1

theorem Grown.define {added : List CounterDef} (h : builder.Grown initial added)
    (scope : CounterScope) (kind : String) (site : CounterSite) :
    (builder.define scope kind site).1.Grown initial
      (added ++ [⟨builder.nextId, scope, kind, site⟩]) := by
  constructor
  · show builder.defs ++ _ = _
    rw [h.defs, List.append_assoc]
  · show (builder.nextId + 1).val = _
    have hone : (builder.nextId + 1).val = (builder.nextId.val + 1) % 18446744073709551616 :=
      Fin.val_add builder.nextId 1
    rw [hone, h.nextId, List.length_append, List.length_singleton, Nat.mod_add_mod, Nat.add_assoc]
  · rw [values_append, h.numbered, List.length_append, List.length_singleton,
      List.range'_1_concat, List.map_append, List.map_singleton, ← h.nextId]
    rfl

/-- **One operation.** -/
theorem Grown.apply {added : List CounterDef} (h : builder.Grown initial added) (op : CounterOp) :
    ∃ more, (builder.apply op).1.Grown initial (added ++ more) := by
  cases op with
  | define scope kind site => exact ⟨_, h.define scope kind site⟩
  | defineIfMissing scope kind site =>
    show ∃ more, (builder.defineIfMissing scope kind site).1.Grown initial (added ++ more)
    rw [defineIfMissing]
    split
    · exact ⟨[], by rw [List.append_nil]; exact h⟩
    · exact ⟨_, h.define scope kind site⟩

theorem Grown.run {added : List CounterDef} (h : builder.Grown initial added)
    (ops : List CounterOp) : ∃ more, (builder.run ops).Grown initial (added ++ more) := by
  induction ops generalizing builder added with
  | nil => exact ⟨[], by rw [List.append_nil]; exact h⟩
  | cons op ops ih =>
    obtain ⟨more, hop⟩ := h.apply op
    obtain ⟨rest, hrest⟩ := ih hop
    exact ⟨more ++ rest, by rw [← List.append_assoc]; exact hrest⟩

/-- **One operation**: definitions stay, and the handle is that of one of them. -/
theorem apply_defs (builder : CounterBuilder) (op : CounterOp) :
    builder.defs ⊆ (builder.apply op).1.defs ∧
      (builder.apply op).2 ∈ ids (builder.apply op).1.defs := by
  have hdefine : ∀ scope kind site,
      builder.defs ⊆ (builder.define scope kind site).1.defs ∧
        (builder.define scope kind site).2 ∈ ids (builder.define scope kind site).1.defs := by
    intro scope kind site
    refine ⟨List.subset_append_left _ _, List.mem_map.mpr ?_⟩
    exact ⟨_, List.mem_append_right _ (List.mem_singleton_self _), rfl⟩
  cases op with
  | define scope kind site => exact hdefine scope kind site
  | defineIfMissing scope kind site =>
    rw [apply, defineIfMissing]
    cases hfind : builder.defs.find? fun counter =>
      counter.scope = scope && counter.kind = kind && counter.site = site with
    | none => exact hdefine scope kind site
    | some existing =>
      have hmem := List.mem_of_find?_eq_some hfind
      exact ⟨List.Subset.refl _, List.mem_map.mpr ⟨existing, hmem, rfl⟩⟩

theorem defs_subset_run (builder : CounterBuilder) (ops : List CounterOp) :
    builder.defs ⊆ (builder.run ops).defs := by
  induction ops generalizing builder with
  | nil => exact List.Subset.refl _
  | cons op ops ih =>
    intro counter hcounter
    exact ih (builder.apply op).1 ((builder.apply_defs op).1 hcounter)

/-- **Every handle** is that of a definition. -/
theorem mem_ids_of_mem_handles {builder : CounterBuilder} {ops : List CounterOp} {id : Usize}
    (h : id ∈ builder.handles ops) : id ∈ ids (builder.run ops).defs := by
  induction ops generalizing builder with
  | nil => cases h
  | cons op ops ih =>
    rcases List.mem_cons.mp h with rfl | h
    · exact List.map_subset _ (defs_subset_run _ ops) (builder.apply_defs op).2
    · exact ih h

end CounterBuilder

/-- The numbering does not come round to an identifier of the list. -/
def Room (initial : List CounterDef) (added : ℕ) : Prop :=
  added ≤ 18446744073709551616 ∧
    ∀ value ∈ values initial, firstFree initial + added ≤ 18446744073709551616 + value

/-- **Identifiers stay distinct.** -/
theorem CounterBuilder.Grown.nodup {added : List CounterDef} (h : builder.Grown initial added)
    (hdistinct : (ids initial).Nodup) (hroom : Room initial added.length) :
    (ids builder.defs).Nodup := by
  rw [h.defs, nodup_ids_iff, values_append, h.numbered, List.nodup_append]
  obtain ⟨hcount, hround⟩ := hroom
  refine ⟨(nodup_ids_iff initial).mp hdistinct, ?_, fun old hold fresh hfresh => ?_⟩
  · refine List.Nodup.map_on (fun value hvalue value' hvalue' heq => ?_) List.nodup_range'
    have hbounds := List.mem_range'_1.mp hvalue
    have hbounds' := List.mem_range'_1.mp hvalue'
    omega
  · obtain ⟨value, hvalue, rfl⟩ := List.mem_map.mp hfresh
    have hlt := lt_firstFree hold
    have hbounds := List.mem_range'_1.mp hvalue
    have hle := hround old hold
    omega

/-- The identifiers are the numbers from 0. -/
def Dense (defs : List CounterDef) : Prop := ∀ value, value ∈ values defs ↔ value < defs.length

theorem Dense.firstFree_eq (h : Dense initial) : firstFree initial = initial.length := by
  obtain ⟨rfl, hzero⟩ | ⟨value, hvalue, heq⟩ := firstFree_cases initial
  · exact hzero
  · have hlt := (h value).mp hvalue
    rcases Nat.lt_or_ge (value + 1) initial.length with hmore | hall
    · have hlast := lt_firstFree ((h (value + 1)).mpr hmore)
      omega
    · omega

/-- With an identifier 0 in the list, the numbering does not wrap at all. -/
theorem Room.of_dense {added : ℕ} (h : Room initial added) (hdense : Dense initial) :
    firstFree initial + added ≤ 18446744073709551616 := by
  obtain ⟨hcount, hround⟩ := h
  rw [hdense.firstFree_eq]
  rcases Nat.eq_zero_or_pos initial.length with hnone | hsome
  · omega
  · have hle := hround 0 ((hdense 0).mpr hsome)
    rw [hdense.firstFree_eq] at hle
    exact hle

/-- **Dense lists stay dense.** -/
theorem CounterBuilder.Grown.dense {added : List CounterDef} (h : builder.Grown initial added)
    (hdense : Dense initial) (hroom : Room initial added.length) : Dense builder.defs := by
  have hle := hroom.of_dense hdense
  have hvalues : values added = List.range' (firstFree initial) added.length := by
    rw [h.numbered]
    have hsmall : ∀ value ∈ List.range' (firstFree initial) added.length,
        value % 18446744073709551616 = id value := by
      intro value hvalue
      have hlt := (List.mem_range'_1.mp hvalue).2
      exact Nat.mod_eq_of_lt (by omega)
    rw [List.map_congr_left hsmall, List.map_id]
  intro value
  rw [h.defs, values_append, List.mem_append, hvalues, hdense.firstFree_eq, List.length_append,
    hdense value, List.mem_range'_1]
  omega

end Grown

/-! ## Storage -/

inductive CounterStorageKey
  | this (id : Usize)
  | shared (scope : CounterScope) (site : CounterSite) (kind : String)
  deriving DecidableEq

def counterStorageKey (counter : CounterDef) : CounterStorageKey :=
  match counter.scope with
  | .this => .this counter.id
  | .function | .global => .shared counter.scope counter.site counter.kind

/-- The slots by identifiers, and what the loop keeps besides. -/
structure Storage where
  slotsById : List ℕ
  slotByKey : CounterStorageKey → Option ℕ
  counterValues : List ℕ

namespace Storage

def idOutOfRange (id : Usize) (count : ℕ) : String :=
  s!"counter id {id} is out of range for {count} counter defs"

/-- One definition. -/
def add (st : Storage) (counter : CounterDef) : Except String Storage :=
  if counter.id.val ≥ st.slotsById.length then
    .error (idOutOfRange counter.id st.slotsById.length)
  else
    let key := counterStorageKey counter
    match st.slotByKey key with
    | some slot => .ok { st with slotsById := st.slotsById.set counter.id.val slot }
    | none =>
      let slot := st.counterValues.length
      .ok
        { slotsById := st.slotsById.set counter.id.val slot
          slotByKey := Function.update st.slotByKey key (some slot)
          counterValues := st.counterValues ++ [0] }

def addAll : Storage → List CounterDef → Except String Storage
  | st, [] => .ok st
  | st, counter :: counters =>
    match st.add counter with
    | .error err => .error err
    | .ok st' => addAll st' counters

/-- `build_counter_storage` -/
def build (defs : List CounterDef) : Except String Storage :=
  addAll ⟨List.replicate defs.length usizeMax, fun _ => none, []⟩ defs

variable (st : Storage)

/-- `counter_ptrs`: the positions of the numbers. There is no result where an index is out of
bounds. -/
def counterPtrs : Option (List ℕ) :=
  st.slotsById.mapM fun slot => if slot < st.counterValues.length then some slot else none

/-- `counter_value` -/
def counterValue (id : Usize) : ℕ :=
  match st.slotsById[id.val]? with
  | none => 0
  | some slot => st.counterValues[slot]?.getD 0

/-- What compiled code does with the pointer of a counter. -/
def increment (id : Usize) : Option Storage := do
  let ptrs ← st.counterPtrs
  let slot ← ptrs[id.val]?
  return { st with counterValues := st.counterValues.modify slot succCount }

end Storage

/-! ### The loop -/

namespace Storage

/-- What the loop has made of the definitions that it has passed. -/
structure Stored (size : ℕ) (done : List CounterDef) (st : Storage) : Prop where
  size : st.slotsById.length = size
  keyed : ∀ {key slot}, st.slotByKey key = some slot → slot < st.counterValues.length
  distinct : ∀ {key key' slot}, st.slotByKey key = some slot → st.slotByKey key' = some slot →
    key = key'
  slots : ∀ counter ∈ done, ∃ slot, st.slotByKey (counterStorageKey counter) = some slot ∧
    st.slotsById[counter.id.val]? = some slot
  zero : ∀ value ∈ st.counterValues, value = 0

theorem stored_start (size : ℕ) :
    Stored size [] ⟨List.replicate size usizeMax, fun _ => none, []⟩ where
  size := List.length_replicate
  keyed h := by cases h
  distinct h := by cases h
  slots _ h := by cases h
  zero _ h := by cases h

variable {size : ℕ} {done : List CounterDef} {st : Storage} {counter : CounterDef}

/-- **One definition.** -/
theorem Stored.add (h : Stored size done st) (hid : counter.id.val < size)
    (hfresh : ∀ other ∈ done, other.id ≠ counter.id) :
    ∃ st', st.add counter = .ok st' ∧ Stored size (done ++ [counter]) st' := by
  have hlen : ¬ counter.id.val ≥ st.slotsById.length := by
    rw [h.size]
    omega
  have hothers : ∀ slot, ∀ other ∈ done,
      (st.slotsById.set counter.id.val slot)[other.id.val]? = st.slotsById[other.id.val]? := by
    intro slot other hother
    refine List.getElem?_set_ne fun heq => hfresh other hother ?_
    exact (Fin.ext heq).symm
  have hself : ∀ slot, (st.slotsById.set counter.id.val slot)[counter.id.val]? = some slot := by
    intro slot
    exact List.getElem?_set_self (by omega)
  rw [Storage.add, if_neg hlen]
  cases hkey : st.slotByKey (counterStorageKey counter) with
  | some slot =>
    simp only [hkey]
    refine ⟨_, rfl, ?_, h.keyed, h.distinct, ?_, h.zero⟩
    · rw [List.length_set, h.size]
    · intro other hother
      rcases List.mem_append.mp hother with hother | hother
      · obtain ⟨slot', hslot', hat⟩ := h.slots other hother
        exact ⟨slot', hslot', (hothers slot other hother).trans hat⟩
      · obtain rfl := List.mem_singleton.mp hother
        exact ⟨slot, hkey, hself slot⟩
  | none =>
    have hold : ∀ {key slot}, st.slotByKey key = some slot → key ≠ counterStorageKey counter := by
      rintro key slot hslot rfl
      rw [hkey] at hslot
      cases hslot
    simp only [hkey]
    refine ⟨_, rfl, ?_, ?_, ?_, ?_, ?_⟩
    · rw [List.length_set, h.size]
    · intro key slot hslot
      change Function.update st.slotByKey _ _ key = some slot at hslot
      rw [List.length_append, List.length_singleton]
      by_cases heq : key = counterStorageKey counter
      · subst heq
        rw [Function.update_self] at hslot
        obtain rfl := Option.some.inj hslot
        exact Nat.lt_succ_self _
      · rw [Function.update_of_ne heq] at hslot
        exact Nat.lt_succ_of_lt (h.keyed hslot)
    · intro key key' slot hslot hslot'
      change Function.update st.slotByKey _ _ key = some slot at hslot
      change Function.update st.slotByKey _ _ key' = some slot at hslot'
      by_cases heq : key = counterStorageKey counter
      · by_cases heq' : key' = counterStorageKey counter
        · rw [heq, heq']
        · subst heq
          rw [Function.update_self] at hslot
          rw [Function.update_of_ne heq', ← Option.some.inj hslot] at hslot'
          exact absurd (h.keyed hslot') (Nat.lt_irrefl _)
      · rw [Function.update_of_ne heq] at hslot
        by_cases heq' : key' = counterStorageKey counter
        · subst heq'
          rw [Function.update_self] at hslot'
          rw [← Option.some.inj hslot'] at hslot
          exact absurd (h.keyed hslot) (Nat.lt_irrefl _)
        · rw [Function.update_of_ne heq'] at hslot'
          exact h.distinct hslot hslot'
    · intro other hother
      rcases List.mem_append.mp hother with hother | hother
      · obtain ⟨slot, hslot, hat⟩ := h.slots other hother
        refine ⟨slot, ?_, (hothers _ other hother).trans hat⟩
        show Function.update st.slotByKey _ _ _ = _
        rw [Function.update_of_ne (hold hslot)]
        exact hslot
      · obtain rfl := List.mem_singleton.mp hother
        exact ⟨_, Function.update_self _ _ _, hself _⟩
    · intro value hvalue
      rcases List.mem_append.mp hvalue with hvalue | hvalue
      · exact h.zero value hvalue
      · exact List.mem_singleton.mp hvalue

/-- **All definitions.** -/
theorem Stored.addAll {counters : List CounterDef} (h : Stored size done st)
    (hids : ∀ counter ∈ counters, counter.id.val < size)
    (hnodup : (ids (done ++ counters)).Nodup) :
    ∃ st', st.addAll counters = .ok st' ∧ Stored size (done ++ counters) st' := by
  induction counters generalizing done st with
  | nil => exact ⟨st, rfl, by rw [List.append_nil]; exact h⟩
  | cons counter counters ih =>
    have hsplit : done ++ counter :: counters = (done ++ [counter]) ++ counters := by
      rw [List.append_assoc]
      rfl
    have hfresh : ∀ other ∈ done, other.id ≠ counter.id := by
      intro other hother heq
      unfold ids at hnodup
      rw [List.map_append, List.map_cons] at hnodup
      refine (List.nodup_append.mp hnodup).2.2 other.id (List.mem_map.mpr ⟨other, hother, rfl⟩)
        counter.id List.mem_cons_self heq
    obtain ⟨st', hadd, hstored⟩ := h.add (hids counter List.mem_cons_self) hfresh
    rw [hsplit] at hnodup ⊢
    obtain ⟨st'', hall, hstored'⟩ := ih hstored
      (fun other hother => hids other (List.mem_cons_of_mem _ hother)) hnodup
    refine ⟨st'', ?_, hstored'⟩
    rw [Storage.addAll, hadd]
    exact hall

end Storage

/-- Definitions that are meant to be shared. -/
def Shared (counter counter' : CounterDef) : Prop :=
  counter.scope ≠ .this ∧ counter'.scope ≠ .this ∧ counter.scope = counter'.scope ∧
    counter.site = counter'.site ∧ counter.kind = counter'.kind

theorem counterStorageKey_eq_iff {counter counter' : CounterDef} (h : counter.id ≠ counter'.id) :
    counterStorageKey counter = counterStorageKey counter' ↔ Shared counter counter' := by
  obtain ⟨id, scope, kind, site⟩ := counter
  obtain ⟨id', scope', kind', site'⟩ := counter'
  have h : id ≠ id' := h
  unfold counterStorageKey Shared
  cases scope <;> cases scope' <;> simp [h]

instance (counter counter' : CounterDef) : Decidable (Shared counter counter') :=
  inferInstanceAs (Decidable (_ ∧ _))

namespace Storage

/-- Every definition has a slot, and only those that are meant to be shared have the same. -/
structure Placed (defs : List CounterDef) (st : Storage) : Prop where
  pointers : st.counterPtrs = some st.slotsById
  slot : ∀ counter ∈ defs, ∃ slot, st.slotsById[counter.id.val]? = some slot ∧
    slot < st.counterValues.length
  sharing : ∀ counter ∈ defs, ∀ counter' ∈ defs,
    st.slotsById[counter.id.val]? = st.slotsById[counter'.id.val]? ↔
      counter.id = counter'.id ∨ Shared counter counter'

/-- The counters of compiled code, one increment after the other. -/
def incrementAll (st : Storage) (ids : List Usize) : Option Storage := ids.foldlM increment st

variable {defs : List CounterDef} {st : Storage}

theorem mapM_slots {count : ℕ} {slots : List ℕ} (h : ∀ slot ∈ slots, slot < count) :
    slots.mapM (fun slot => if slot < count then some slot else none) = some slots := by
  induction slots with
  | nil => rfl
  | cons slot slots ih =>
    rw [List.mapM_cons, if_pos (h slot List.mem_cons_self),
      ih fun slot hslot => h slot (List.mem_cons_of_mem _ hslot)]
    rfl

theorem Stored.placed (h : Stored defs.length defs st) (hdense : Dense defs) : Placed defs st := by
  have hslot : ∀ counter ∈ defs, ∃ slot, st.slotsById[counter.id.val]? = some slot ∧
      slot < st.counterValues.length := by
    intro counter hcounter
    obtain ⟨slot, hkey, hat⟩ := h.slots counter hcounter
    exact ⟨slot, hat, h.keyed hkey⟩
  refine ⟨mapM_slots fun slot hmem => ?_, hslot, fun counter hcounter counter' hcounter' => ?_⟩
  · -- every position of the table is the identifier of a definition
    obtain ⟨value, hlt, hat⟩ := List.mem_iff_getElem.mp hmem
    rw [h.size] at hlt
    obtain ⟨counter, hcounter, rfl⟩ := List.mem_map.mp ((hdense value).mpr hlt)
    obtain ⟨slot', hat', hvalid⟩ := hslot counter hcounter
    rw [List.getElem?_eq_some_iff] at hat'
    obtain ⟨_, hat'⟩ := hat'
    rw [← hat, hat']
    exact hvalid
  · by_cases hid : counter.id = counter'.id
    · rw [hid]
      exact ⟨fun _ => .inl rfl, fun _ => rfl⟩
    · obtain ⟨slot, hkey, hat⟩ := h.slots counter hcounter
      obtain ⟨slot', hkey', hat'⟩ := h.slots counter' hcounter'
      rw [hat, hat', or_iff_right hid, ← counterStorageKey_eq_iff hid]
      constructor
      · intro heq
        rw [← Option.some.inj heq] at hkey'
        exact h.distinct hkey hkey'
      · intro heq
        rw [← hkey, ← hkey', heq]

/-- **One increment.** -/
theorem Placed.increment (h : Placed defs st) {counter : CounterDef} (hcounter : counter ∈ defs) :
    ∃ st', st.increment counter.id = some st' ∧ Placed defs st' ∧
      ∀ other ∈ defs, st'.counterValue other.id =
        if counter.id = other.id ∨ Shared counter other then succCount (st.counterValue other.id)
        else st.counterValue other.id := by
  obtain ⟨slot, hat, hvalid⟩ := h.slot counter hcounter
  have hlen : (st.counterValues.modify slot succCount).length = st.counterValues.length :=
    List.length_modify ..
  refine ⟨{ st with counterValues := st.counterValues.modify slot succCount }, ?_, ⟨?_, ?_, ?_⟩, ?_⟩
  · rw [Storage.increment, h.pointers]
    show (st.slotsById[counter.id.val]?.bind _) = _
    rw [hat]
    rfl
  · have hptrs := h.pointers
    unfold counterPtrs at hptrs ⊢
    rw [hlen]
    exact hptrs
  · rw [hlen]
    exact h.slot
  · exact h.sharing
  · intro other hother
    obtain ⟨slot', hat', hvalid'⟩ := h.slot other hother
    have hsame : slot = slot' ↔ counter.id = other.id ∨ Shared counter other := by
      rw [← h.sharing counter hcounter other hother, hat, hat', Option.some_inj]
    have hnow : st.counterValue other.id = st.counterValues[slot'] := by
      rw [counterValue, hat']
      exact congrArg (·.getD 0) (List.getElem?_eq_getElem hvalid')
    rw [hnow, counterValue, hat']
    show (st.counterValues.modify slot succCount)[slot']?.getD 0 = _
    rw [List.getElem?_modify, List.getElem?_eq_getElem hvalid']
    show (if slot = slot' then succCount st.counterValues[slot'] else st.counterValues[slot']) = _
    by_cases heq : slot = slot'
    · rw [if_pos heq, if_pos (hsame.mp heq)]
    · rw [if_neg heq, if_neg fun hreach => heq (hsame.mpr hreach)]

/-- **All increments**: a number counts those of its own identifier and of the shared ones. -/
theorem Placed.incrementAll (h : Placed defs st) {calls : List CounterDef}
    (hcalls : calls ⊆ defs) {before : CounterDef → ℕ}
    (hbefore : ∀ counter ∈ defs,
      st.counterValue counter.id = before counter % 18446744073709551616) :
    ∃ st', st.incrementAll (ids calls) = some st' ∧ ∀ counter ∈ defs,
      st'.counterValue counter.id = (before counter + calls.countP fun call =>
        call.id = counter.id ∨ Shared call counter) % 18446744073709551616 := by
  induction calls generalizing st before with
  | nil => exact ⟨st, rfl, hbefore⟩
  | cons call calls ih =>
    obtain ⟨st', hstep, hplaced, hvalues⟩ := h.increment (hcalls List.mem_cons_self)
    have hafter : ∀ counter ∈ defs, st'.counterValue counter.id =
        (before counter + if call.id = counter.id ∨ Shared call counter then 1 else 0) %
          18446744073709551616 := by
      intro counter hcounter
      rw [hvalues counter hcounter, hbefore counter hcounter]
      split
      · exact Nat.mod_add_mod ..
      · rfl
    obtain ⟨st'', hrest, hcounts⟩ := ih hplaced
      (fun counter hcounter => hcalls (List.mem_cons_of_mem _ hcounter)) hafter
    refine ⟨st'', ?_, fun counter hcounter => ?_⟩
    · show (st.increment call.id >>= fun st' => st'.incrementAll (ids calls)) = _
      rw [hstep]
      exact hrest
    · rw [hcounts counter hcounter, List.countP_cons, Nat.add_assoc,
        Nat.add_comm (calls.countP _)]
      simp only [decide_eq_true_eq]

end Storage

/-- **Counters.** Unless the numbering comes round to an identifier of the first list, identifiers
stay distinct, and handles are those of definitions. A dense list stays dense; with a dense list,
the table is built, every identifier has a slot, definitions have the same slot exactly when they
are shared, and a number counts the increments through its identifiers. -/
theorem counters_spec {initial : List CounterDef} (hdistinct : (ids initial).Nodup)
    (ops : List CounterOp)
    (hroom : Room initial
      (((CounterBuilder.new initial).run ops).defs.length - initial.length)) :
    let defs := ((CounterBuilder.new initial).run ops).defs
    (ids defs).Nodup ∧ (CounterBuilder.new initial).handles ops ⊆ ids defs ∧
      (Dense initial → Dense defs) ∧
      (Dense defs → ∃ st, Storage.build defs = .ok st ∧ st.slotsById.length = defs.length ∧
        st.Placed defs ∧ ∀ calls, calls ⊆ defs →
          ∃ st', st.incrementAll (ids calls) = some st' ∧ ∀ counter ∈ defs,
            st'.counterValue counter.id = (calls.countP fun call =>
              call.id = counter.id ∨ Shared call counter) % 18446744073709551616) := by
  obtain ⟨added, hgrown⟩ := (CounterBuilder.grown_new initial).run ops
  rw [List.nil_append] at hgrown
  have hcount : ((CounterBuilder.new initial).run ops).defs.length - initial.length =
      added.length := by
    rw [hgrown.defs, List.length_append, Nat.add_sub_cancel_left]
  rw [hcount] at hroom
  have hnodup := hgrown.nodup hdistinct hroom
  refine ⟨hnodup, fun id hid => CounterBuilder.mem_ids_of_mem_handles hid,
    fun hdense => hgrown.dense hdense hroom, fun hdense => ?_⟩
  have hids : ∀ counter ∈ ((CounterBuilder.new initial).run ops).defs,
      counter.id.val < ((CounterBuilder.new initial).run ops).defs.length :=
    fun counter hcounter => (hdense _).mp (List.mem_map.mpr ⟨counter, hcounter, rfl⟩)
  obtain ⟨st, hbuild, hstored⟩ := (Storage.stored_start _).addAll hids hnodup
  have hplaced := hstored.placed hdense
  refine ⟨st, hbuild, hstored.size, hplaced, fun calls hcalls => ?_⟩
  have hzero : ∀ counter ∈ ((CounterBuilder.new initial).run ops).defs,
      st.counterValue counter.id = 0 % 18446744073709551616 := by
    intro counter hcounter
    obtain ⟨slot, hat, hvalid⟩ := hplaced.slot counter hcounter
    unfold Storage.counterValue
    rw [hat]
    show st.counterValues[slot]?.getD 0 = 0
    rw [List.getElem?_eq_getElem hvalid]
    exact hstored.zero _ (List.getElem_mem hvalid)
  obtain ⟨st', hrun, hcounts⟩ := hplaced.incrementAll hcalls hzero
  refine ⟨st', hrun, fun counter hcounter => ?_⟩
  rw [hcounts counter hcounter, Nat.zero_add]

/-- A refcount of functions, asked for twice, and a block of one function. -/
def fewOps : List CounterOp :=
  [.define .this "blocks" (.runtime none none), .define .function "refs" (.runtime none none),
    .defineIfMissing .function "refs" (.runtime none none)]

/-- The identifiers 0 and 2. -/
def gappedDefs : List CounterDef :=
  [⟨0, .this, "blocks", .runtime none none⟩, ⟨2, .this, "refs", .runtime none none⟩]

/-- The identifiers of a list with a gap stay distinct, those of an empty list become dense. -/
theorem counters_spec_fewOps :
    ((ids ((CounterBuilder.new gappedDefs).run fewOps).defs).Nodup ∧
      (CounterBuilder.new gappedDefs).handles fewOps ⊆
        ids ((CounterBuilder.new gappedDefs).run fewOps).defs) ∧
      Dense ((CounterBuilder.new []).run fewOps).defs := by
  have hgapped := @counters_spec gappedDefs (by decide) fewOps ⟨by decide, by decide⟩
  obtain ⟨-, -, hdense, -⟩ :=
    @counters_spec [] (by decide) fewOps ⟨by decide, fun value h => (by cases h)⟩
  refine ⟨⟨hgapped.1, hgapped.2.1⟩, hdense fun value => ⟨fun h => (by cases h), fun h => ?_⟩⟩
  exact absurd h (Nat.not_lt_zero value)

/-- Two definitions, one with the largest identifier. -/
def fullDefs : List CounterDef :=
  [⟨0, .this, "blocks", .runtime none none⟩, ⟨-1, .this, "blocks", .runtime none none⟩]

/-- The next identifier is 0 again. -/
theorem fullDefs_wraps :
    (ids fullDefs).Nodup ∧ ids ((CounterBuilder.new fullDefs).run
      [.define .this "refs" (.runtime none none)]).defs = [0, -1, 0] ∧
      ¬ (ids ((CounterBuilder.new fullDefs).run
        [.define .this "refs" (.runtime none none)]).defs).Nodup := by
  decide

end DietPython.Counters
