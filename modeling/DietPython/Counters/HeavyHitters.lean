import Mathlib.Algebra.BigOperators.Fin
import Mathlib.Algebra.Order.BigOperators.Group.Finset
import Mathlib.Data.List.FinRange
import Mathlib.Data.List.MinMax
import Mathlib.Data.List.Sort

/-!
# Heavy hitters

A counter with room for `N` values. A value that finds no room takes the place of the one with the
smallest count, and its count goes on from there, so that counts of values that are in the table are
never too small, and what they may be too large by is known.

1. `Counter.record` is one call.
2. `Counter.Bounds` relates the table to the list of calls, and `Counter.Bounds.record` says that a
   call keeps it.
3. `Counter.recordAll_spec` is what follows for every list of calls.
-/

namespace DietPython.Counters

/-! ## The table -/

structure CounterEntry (T : Type) where
  value : T
  approxCount : ℕ
  maxOvercount : ℕ
  deriving DecidableEq

/-- `lower_bound`: the subtraction stops at zero. -/
def CounterEntry.lowerBound {T : Type} (entry : CounterEntry T) : ℕ :=
  entry.approxCount - entry.maxOvercount

structure CounterSlot (T : Type) where
  value : T
  approxCount : ℕ
  maxOvercount : ℕ
  deriving DecidableEq

def CounterSlot.entry {T : Type} (slot : CounterSlot T) : CounterEntry T :=
  ⟨slot.value, slot.approxCount, slot.maxOvercount⟩

structure Counter (N : ℕ) (T : Type) where
  slots : Fin N → Option (CounterSlot T)

/-- One more, in 64 bits. -/
def succCount (count : ℕ) : ℕ := (count + 1) % 18446744073709551616

namespace Counter

variable {N : ℕ} {T : Type}

def new (N : ℕ) (T : Type) : Counter N T := ⟨fun _ => none⟩

/-- The slots in use, from the first. -/
def used (counter : Counter N T) : List (CounterSlot T) :=
  (List.finRange N).filterMap counter.slots

/-- The largest counts first. The sort is stable. -/
def entries (counter : Counter N T) : List (CounterEntry T) :=
  (counter.used.map CounterSlot.entry).insertionSort fun lhs rhs =>
    rhs.approxCount ≤ lhs.approxCount

/-- The first of the slots with the smallest count. -/
def minSlotIndex (counter : Counter N T) : Option (Fin N) :=
  (((List.finRange N).filterMap fun index =>
    (counter.slots index).map fun slot => (index, slot.approxCount)).argmin Prod.snd).map Prod.fst

/-- Write a slot. -/
def set (counter : Counter N T) (index : Fin N) (slot : CounterSlot T) : Counter N T :=
  ⟨Function.update counter.slots index (some slot)⟩

def emptySlot (counter : Counter N T) : Option (Fin N) :=
  (List.finRange N).find? fun index => (counter.slots index).isNone

section Slots

variable {counter : Counter N T} {value : T} {index : Fin N} {slot : CounterSlot T}

theorem set_self : (counter.set index slot).slots index = some slot := by
  show Function.update counter.slots index (some slot) index = some slot
  exact Function.update_self index (some slot) counter.slots

theorem set_of_ne {other : Fin N} (h : other ≠ index) :
    (counter.set index slot).slots other = counter.slots other := by
  show Function.update counter.slots index (some slot) other = counter.slots other
  exact Function.update_of_ne h (some slot) counter.slots

theorem slots_set {i : Fin N} {s : CounterSlot T} (h : (counter.set index slot).slots i = some s) :
    (i = index ∧ s = slot) ∨ (i ≠ index ∧ counter.slots i = some s) := by
  by_cases hi : i = index
  · subst hi
    rw [set_self] at h
    exact .inl ⟨rfl, (Option.some.inj h).symm⟩
  · rw [set_of_ne hi] at h
    exact .inr ⟨hi, h⟩

/-- No slot has the value. -/
def Untracked (counter : Counter N T) (value : T) : Prop :=
  ∀ index slot, counter.slots index = some slot → slot.value ≠ value

theorem emptySlot_eq_some (h : counter.emptySlot = some index) : counter.slots index = none := by
  unfold emptySlot at h
  have hnone := List.find?_some h
  exact Option.isNone_iff_eq_none.mp hnone

theorem emptySlot_eq_none (h : counter.emptySlot = none) (index : Fin N) :
    ∃ slot, counter.slots index = some slot := by
  have hfull := List.find?_eq_none.mp h index (List.mem_finRange index)
  rw [Option.isNone_iff_eq_none] at hfull
  exact Option.ne_none_iff_exists'.mp hfull

theorem minSlotIndex_eq_some (h : counter.minSlotIndex = some index) :
    ∃ slot, counter.slots index = some slot ∧ ∀ other slot',
      counter.slots other = some slot' → slot.approxCount ≤ slot'.approxCount := by
  obtain ⟨⟨i, count⟩, hmin, rfl⟩ := Option.map_eq_some_iff.mp h
  obtain ⟨i', -, hi⟩ := List.mem_filterMap.mp (List.argmin_mem hmin)
  obtain ⟨slot, hslot, heq⟩ := Option.map_eq_some_iff.mp hi
  obtain ⟨rfl, rfl⟩ := Prod.mk.inj heq
  refine ⟨slot, hslot, fun other slot' hother => ?_⟩
  have hmem : (other, slot'.approxCount) ∈ (List.finRange N).filterMap fun index =>
      (counter.slots index).map fun slot => (index, slot.approxCount) :=
    List.mem_filterMap.mpr ⟨other, List.mem_finRange other, by rw [hother]; rfl⟩
  exact List.le_of_mem_argmin (f := Prod.snd) hmem hmin

theorem minSlotIndex_eq_none (h : counter.minSlotIndex = none) (index : Fin N) :
    counter.slots index = none := by
  have hnil := List.argmin_eq_none.mp (Option.map_eq_none_iff.mp h)
  have hnone := List.filterMap_eq_nil_iff.mp hnil index (List.mem_finRange index)
  exact Option.map_eq_none_iff.mp hnone

/-- The count in a slot. -/
def countAt (counter : Counter N T) (index : Fin N) : ℕ :=
  ((counter.slots index).map CounterSlot.approxCount).getD 0

theorem countAt_of_some {counter : Counter N T} {index : Fin N} {slot : CounterSlot T}
    (h : counter.slots index = some slot) : counter.countAt index = slot.approxCount := by
  unfold countAt
  rw [h]
  rfl

/-- The total after a slot has been written. -/
theorem total_set (counter : Counter N T) (index : Fin N) (slot : CounterSlot T) :
    (∑ i, (counter.set index slot).countAt i) + counter.countAt index =
      (∑ i, counter.countAt i) + slot.approxCount := by
  have hupdate : (counter.set index slot).countAt =
      Function.update counter.countAt index slot.approxCount := by
    funext i
    by_cases h : i = index
    · subst h
      rw [Function.update_self, countAt_of_some set_self]
    · rw [Function.update_of_ne h]
      unfold countAt
      rw [set_of_ne h]
  rw [hupdate, Finset.sum_update_of_mem (Finset.mem_univ index),
    Finset.sum_eq_add_sum_sdiff_singleton_of_mem (Finset.mem_univ index) counter.countAt]
  omega

end Slots

/-! ## The entries -/

theorem entries_perm (counter : Counter N T) :
    counter.entries.Perm (counter.used.map CounterSlot.entry) := List.perm_insertionSort _ _

theorem mem_entries {counter : Counter N T} {entry : CounterEntry T} :
    entry ∈ counter.entries ↔
      ∃ index slot, counter.slots index = some slot ∧ slot.entry = entry := by
  rw [counter.entries_perm.mem_iff, List.mem_map]
  unfold used
  constructor
  · rintro ⟨slot, hslot, rfl⟩
    obtain ⟨index, -, hindex⟩ := List.mem_filterMap.mp hslot
    exact ⟨index, slot, hindex, rfl⟩
  · rintro ⟨index, slot, hindex, rfl⟩
    exact ⟨slot, List.mem_filterMap.mpr ⟨index, List.mem_finRange index, hindex⟩, rfl⟩

theorem entries_length_le (counter : Counter N T) : counter.entries.length ≤ N := by
  rw [counter.entries_perm.length_eq, List.length_map]
  have hle := List.length_filterMap_le counter.slots (List.finRange N)
  rw [List.length_finRange] at hle
  exact hle

/-- The counts add up over the slots as they do over the entries. -/
theorem entries_total (counter : Counter N T) :
    counter.entries.foldr (fun entry total => entry.approxCount + total) 0 =
      ∑ i, counter.countAt i := by
  have hswap : LeftCommutative fun (entry : CounterEntry T) total => entry.approxCount + total :=
    ⟨fun a b c => Nat.add_left_comm _ _ _⟩
  have hlist : ∀ indices : List (Fin N),
      ((indices.filterMap counter.slots).map CounterSlot.entry).foldr
        (fun entry total => entry.approxCount + total) 0 = (indices.map counter.countAt).sum := by
    intro indices
    induction indices with
    | nil => rfl
    | cons i indices ih =>
      rw [List.map_cons, List.sum_cons, ← ih]
      cases hslot : counter.slots i with
      | none =>
        have hzero : counter.countAt i = 0 := by
          unfold countAt
          rw [hslot]
          rfl
        rw [List.filterMap_cons_none hslot, hzero, Nat.zero_add]
      | some slot =>
        rw [List.filterMap_cons_some hslot, countAt_of_some hslot]
        rfl
  rw [counter.entries_perm.foldr_eq, Fin.sum_univ_def]
  exact hlist (List.finRange N)

/-! ## One call -/

variable [DecidableEq T]

/-- The first slot with a value. -/
def slotOf (counter : Counter N T) (value : T) : Option (Fin N × CounterSlot T) :=
  ((List.finRange N).filterMap fun index =>
    (counter.slots index).map fun slot => (index, slot)).find? fun e => e.2.value = value

def record (counter : Counter N T) (value : T) : Counter N T :=
  match counter.slotOf value with
  | some (index, slot) =>
    counter.set index { slot with approxCount := succCount slot.approxCount }
  | none =>
    match counter.emptySlot with
    | some index => counter.set index ⟨value, 1, 0⟩
    | none =>
      match counter.minSlotIndex with
      | none => counter
      | some index =>
        let displacedCount := ((counter.slots index).map CounterSlot.approxCount).getD 0
        counter.set index ⟨value, succCount displacedCount, displacedCount⟩

/-- A new counter after a list of calls. -/
def recordAll (N : ℕ) (calls : List T) : Counter N T := calls.foldl record (new N T)

section Record

variable {counter : Counter N T} {value : T} {index : Fin N} {slot : CounterSlot T}

theorem slotOf_eq_some (h : counter.slotOf value = some (index, slot)) :
    counter.slots index = some slot ∧ slot.value = value := by
  unfold slotOf at h
  have hvalue := List.find?_some h
  obtain ⟨i, -, hi⟩ := List.mem_filterMap.mp (List.mem_of_find?_eq_some h)
  obtain ⟨s, hs, heq⟩ := Option.map_eq_some_iff.mp hi
  obtain ⟨rfl, rfl⟩ := Prod.mk.inj heq
  exact ⟨hs, of_decide_eq_true hvalue⟩

theorem slotOf_eq_none (h : counter.slotOf value = none) : counter.Untracked value := by
  intro i s hs hvalue
  have hmem : (i, s) ∈ (List.finRange N).filterMap fun index =>
      (counter.slots index).map fun slot => (index, slot) :=
    List.mem_filterMap.mpr ⟨i, List.mem_finRange i, by rw [hs]; rfl⟩
  exact List.find?_eq_none.mp h _ hmem (decide_eq_true hvalue)

/-- What a call does. -/
theorem record_cases (counter : Counter N T) (value : T) :
    (∃ index slot, counter.slots index = some slot ∧ slot.value = value ∧
      counter.record value =
        counter.set index { slot with approxCount := succCount slot.approxCount }) ∨
    (counter.Untracked value ∧ ∃ index, counter.slots index = none ∧
      counter.record value = counter.set index ⟨value, 1, 0⟩) ∨
    (counter.Untracked value ∧ ∃ index slot, counter.slots index = some slot ∧
      (∀ other, ∃ slot', counter.slots other = some slot') ∧
      (∀ other slot', counter.slots other = some slot' → slot.approxCount ≤ slot'.approxCount) ∧
      counter.record value =
        counter.set index ⟨value, succCount slot.approxCount, slot.approxCount⟩) ∨
    (N = 0 ∧ counter.record value = counter) := by
  unfold record
  cases hslot : counter.slotOf value with
  | some e =>
    obtain ⟨index, slot⟩ := e
    obtain ⟨hindex, hvalue⟩ := slotOf_eq_some hslot
    exact .inl ⟨index, slot, hindex, hvalue, rfl⟩
  | none =>
    have huntracked := slotOf_eq_none hslot
    cases hempty : counter.emptySlot with
    | some index => exact .inr (.inl ⟨huntracked, index, emptySlot_eq_some hempty, rfl⟩)
    | none =>
      have hfull := emptySlot_eq_none hempty
      cases hmin : counter.minSlotIndex with
      | some index =>
        obtain ⟨slot, hindex, hle⟩ := minSlotIndex_eq_some hmin
        refine .inr (.inr (.inl ⟨huntracked, index, slot, hindex, hfull, hle, ?_⟩))
        simp only [hindex]
        rfl
      | none =>
        refine .inr (.inr (.inr ⟨?_, rfl⟩))
        by_contra hpos
        obtain ⟨slot, hslot⟩ := hfull ⟨0, Nat.pos_of_ne_zero hpos⟩
        rw [minSlotIndex_eq_none hmin] at hslot
        cases hslot

end Record

/-! ## What the table says about the calls -/

structure Bounds (counter : Counter N T) (calls : List T) : Prop where
  distinct : ∀ {i j : Fin N} {s t : CounterSlot T}, counter.slots i = some s →
    counter.slots j = some t → s.value = t.value → i = j
  total : 0 < N → ∑ i, counter.countAt i = calls.length
  upper : ∀ {i : Fin N} {s : CounterSlot T}, counter.slots i = some s →
    calls.count s.value ≤ s.approxCount
  lower : ∀ {i : Fin N} {s : CounterSlot T}, counter.slots i = some s →
    s.approxCount ≤ calls.count s.value + s.maxOvercount
  others : ∀ {v : T}, counter.Untracked v → ∀ {i : Fin N} {s : CounterSlot T},
    counter.slots i = some s → calls.count v ≤ s.approxCount
  unseen : ∀ {v : T}, counter.Untracked v → ∀ {i : Fin N}, counter.slots i = none →
    calls.count v = 0

theorem bounds_new : (new N T).Bounds [] where
  distinct h _ _ := by cases h
  total _ := by
    show ∑ _ : Fin N, 0 = 0
    exact Finset.sum_const_zero
  upper h := by cases h
  lower h := by cases h
  others _ _ _ h := by cases h
  unseen _ _ _ := rfl

namespace Bounds

variable {counter : Counter N T} {calls : List T} {value : T}

theorem approxCount_le (h : counter.Bounds calls) {i : Fin N} {s : CounterSlot T}
    (hs : counter.slots i = some s) : s.approxCount ≤ calls.length := by
  rw [← h.total (Fin.pos i), ← countAt_of_some hs]
  exact Finset.single_le_sum (fun j _ => Nat.zero_le _) (Finset.mem_univ i)

theorem succCount_eq (h : counter.Bounds calls) (hlen : calls.length + 1 < 18446744073709551616)
    {i : Fin N} {s : CounterSlot T} (hs : counter.slots i = some s) :
    succCount s.approxCount = s.approxCount + 1 := by
  have hle := h.approxCount_le hs
  exact Nat.mod_eq_of_lt (by omega)

theorem count_concat_self (calls : List T) (v : T) :
    (calls ++ [v]).count v = calls.count v + 1 := by
  rw [List.count_append, List.count_singleton_self]

theorem count_concat_of_ne (calls : List T) {v w : T} (h : w ≠ v) :
    (calls ++ [v]).count w = calls.count w := by
  rw [List.count_append, List.count_singleton, if_neg (by simpa using h.symm), Nat.add_zero]

/-- A slot is written for one more call with `v`. What it held before is `v`, or it was the
smallest of a full table. -/
theorem set (h : counter.Bounds calls) {index : Fin N} {slot : CounterSlot T}
    (hfresh : ∀ i s, i ≠ index → counter.slots i = some s → s.value ≠ slot.value)
    (hcount : slot.approxCount = counter.countAt index + 1)
    (hupper : calls.count slot.value ≤ counter.countAt index)
    (hlower : slot.approxCount ≤ calls.count slot.value + 1 + slot.maxOvercount)
    (hlost : ∀ s, counter.slots index = some s → s.value ≠ slot.value →
      (∀ i, ∃ t, counter.slots i = some t) ∧
        ∀ i t, counter.slots i = some t → s.approxCount ≤ t.approxCount) :
    (counter.set index slot).Bounds (calls ++ [slot.value]) := by
  have hself := count_concat_self calls slot.value
  have hother : ∀ {i s}, i ≠ index → counter.slots i = some s →
      (calls ++ [slot.value]).count s.value = calls.count s.value :=
    fun hi hs => count_concat_of_ne calls (hfresh _ _ hi hs)
  -- a value that is not in the new table was not in the old one, or it is the one that was lost
  have hgone : ∀ {v}, (counter.set index slot).Untracked v → v ≠ slot.value ∧
      (counter.Untracked v ∨ ∃ s, counter.slots index = some s ∧ s.value = v) := by
    intro v hv
    refine ⟨fun heq => hv index slot set_self heq.symm, ?_⟩
    by_contra hnot
    obtain ⟨hnot, hlost⟩ := not_or.mp hnot
    refine hnot fun i s hs hvalue => ?_
    by_cases hi : i = index
    · subst hi
      exact hlost ⟨s, hs, hvalue⟩
    · exact hv i s ((set_of_ne hi).trans hs) hvalue
  constructor
  case distinct =>
    intro i j s t hs ht hvalue
    rcases slots_set hs with ⟨rfl, rfl⟩ | ⟨hi, hsold⟩
    · rcases slots_set ht with ⟨rfl, -⟩ | ⟨hj, htold⟩
      · rfl
      · exact absurd hvalue.symm (hfresh j t hj htold)
    · rcases slots_set ht with ⟨rfl, rfl⟩ | ⟨hj, htold⟩
      · exact absurd hvalue (hfresh i s hi hsold)
      · exact h.distinct hsold htold hvalue
  case total =>
    intro hN
    have htotal := total_set counter index slot
    rw [h.total hN] at htotal
    rw [List.length_append, List.length_singleton]
    omega
  case upper =>
    intro i s hs
    rcases slots_set hs with ⟨rfl, rfl⟩ | ⟨hi, hs⟩
    · omega
    · rw [hother hi hs]
      exact h.upper hs
  case lower =>
    intro i s hs
    rcases slots_set hs with ⟨rfl, rfl⟩ | ⟨hi, hs⟩
    · omega
    · rw [hother hi hs]
      exact h.lower hs
  case others =>
    intro v hv i s hs
    obtain ⟨hne, hv⟩ := hgone hv
    rw [count_concat_of_ne calls hne]
    have hindex : calls.count v ≤ counter.countAt index := by
      cases hslot : counter.slots index with
      | none =>
        rcases hv with hv | ⟨s', hs', -⟩
        · exact Nat.le_of_eq (h.unseen hv hslot) |>.trans (Nat.zero_le _)
        · rw [hslot] at hs'
          cases hs'
      | some s' =>
        rw [countAt_of_some hslot]
        rcases hv with hv | ⟨s'', hs'', rfl⟩
        · exact h.others hv hslot
        · obtain rfl := Option.some.inj (hslot.symm.trans hs'')
          exact h.upper hslot
    rcases slots_set hs with ⟨rfl, rfl⟩ | ⟨hi, hs⟩
    · omega
    · rcases hv with hv | ⟨s', hs', rfl⟩
      · exact h.others hv hs
      · exact (h.upper hs').trans ((hlost s' hs' hne).2 i s hs)
  case unseen =>
    intro v hv i hi
    have hne : i ≠ index := by
      rintro rfl
      rw [set_self] at hi
      cases hi
    rw [set_of_ne hne] at hi
    obtain ⟨hvalue, hv⟩ := hgone hv
    rw [count_concat_of_ne calls hvalue]
    rcases hv with hv | ⟨s, hs, rfl⟩
    · exact h.unseen hv hi
    · obtain ⟨t, ht⟩ := (hlost s hs hvalue).1 i
      rw [hi] at ht
      cases ht

/-- **One call.** -/
theorem record (h : counter.Bounds calls) (value : T)
    (hlen : calls.length + 1 < 18446744073709551616) :
    (counter.record value).Bounds (calls ++ [value]) := by
  obtain ⟨index, slot, hslot, rfl, heq⟩ | ⟨hnew, index, hempty, heq⟩ |
    ⟨hnew, index, slot, hslot, hfull, hmin, heq⟩ | ⟨rfl, heq⟩ := record_cases counter value
  · rw [heq, h.succCount_eq hlen hslot]
    let slot' : CounterSlot T := { slot with approxCount := slot.approxCount + 1 }
    have hfresh : ∀ i s, i ≠ index → counter.slots i = some s → s.value ≠ slot'.value :=
      fun i s hi hs hvalue => hi (h.distinct hs hslot hvalue)
    refine h.set hfresh ?_ ?_ ?_ ?_
    · rw [countAt_of_some hslot]
    · rw [countAt_of_some hslot]
      exact h.upper hslot
    · have hlower := h.lower hslot
      show slot.approxCount + 1 ≤ calls.count slot.value + 1 + slot.maxOvercount
      omega
    · intro s hs hne
      obtain rfl := Option.some.inj (hslot.symm.trans hs)
      exact absurd rfl hne
  · have hzero : counter.countAt index = 0 := by
      unfold countAt
      rw [hempty]
      rfl
    rw [heq]
    let slot : CounterSlot T := ⟨value, 1, 0⟩
    have hfresh : ∀ i s, i ≠ index → counter.slots i = some s → s.value ≠ slot.value :=
      fun i s _ hs => hnew i s hs
    refine h.set hfresh ?_ ?_ ?_ ?_
    · rw [hzero]
    · rw [hzero]
      exact Nat.le_of_eq (h.unseen hnew hempty)
    · exact Nat.le_add_left 1 _
    · intro s hs
      rw [hempty] at hs
      cases hs
  · rw [heq, h.succCount_eq hlen hslot]
    let slot' : CounterSlot T := ⟨value, slot.approxCount + 1, slot.approxCount⟩
    have hfresh : ∀ i s, i ≠ index → counter.slots i = some s → s.value ≠ slot'.value :=
      fun i s _ hs => hnew i s hs
    refine h.set hfresh ?_ ?_ ?_ ?_
    · rw [countAt_of_some hslot]
    · rw [countAt_of_some hslot]
      exact h.others hnew hslot
    · show slot.approxCount + 1 ≤ calls.count value + 1 + slot.approxCount
      omega
    · intro s hs _
      obtain rfl := Option.some.inj (hslot.symm.trans hs)
      exact ⟨hfull, hmin⟩
  · rw [heq]
    exact ⟨fun {i} => i.elim0, fun h0 => absurd h0 (Nat.lt_irrefl 0), fun {i} => i.elim0,
      fun {i} => i.elim0, fun _ i => i.elim0, fun _ i => i.elim0⟩

end Bounds

/-- **All calls.** -/
theorem recordAll_bounds (calls : List T) (hlen : calls.length < 18446744073709551616) :
    (recordAll N calls).Bounds calls := by
  have hrun : ∀ (rest done : List T) (counter : Counter N T),
      (done ++ rest).length < 18446744073709551616 → counter.Bounds done →
        (rest.foldl Counter.record counter).Bounds (done ++ rest) := by
    intro rest
    induction rest with
    | nil =>
      intro done counter _ h
      rw [List.append_nil]
      exact h
    | cons value rest ih =>
      intro done counter hlen h
      have hsplit : done ++ value :: rest = (done ++ [value]) ++ rest := by
        rw [List.append_assoc]
        rfl
      rw [hsplit] at hlen ⊢
      refine ih (done ++ [value]) (counter.record value) hlen (h.record value ?_)
      rw [List.length_append, List.length_append, List.length_singleton] at hlen
      omega
  exact hrun calls [] (new N T) hlen bounds_new

/-! ## What is tracked -/

/-- The values that a counter tracks. -/
def tracked (counter : Counter N T) : List T := counter.entries.map CounterEntry.value

theorem mem_tracked {counter : Counter N T} {value : T} :
    value ∈ counter.tracked ↔ ¬ counter.Untracked value := by
  unfold tracked Untracked
  rw [List.mem_map]
  constructor
  · rintro ⟨entry, hentry, rfl⟩ hnone
    obtain ⟨index, slot, hslot, rfl⟩ := mem_entries.mp hentry
    exact hnone index slot hslot rfl
  · intro hnot
    by_contra hnone
    refine hnot fun index slot hslot hvalue => hnone ?_
    exact ⟨slot.entry, mem_entries.mpr ⟨index, slot, hslot, rfl⟩, hvalue⟩

namespace Bounds

variable {counter : Counter N T} {calls : List T}

theorem nodup_tracked (h : counter.Bounds calls) : counter.tracked.Nodup := by
  have hperm := counter.entries_perm.map CounterEntry.value
  unfold tracked
  rw [hperm.nodup_iff, List.map_map, used, List.map_filterMap]
  refine List.Nodup.filterMap (fun i j v hi hj => ?_) (List.nodup_finRange N)
  obtain ⟨s, hs, rfl⟩ := Option.map_eq_some_iff.mp hi
  obtain ⟨t, ht, heq⟩ := Option.map_eq_some_iff.mp hj
  exact h.distinct hs ht heq.symm

/-- A value with more than its share of the calls is in the table. -/
theorem tracked_of_frequent (h : counter.Bounds calls) {v : T}
    (hv : calls.length < N * calls.count v) : v ∈ counter.tracked := by
  rw [mem_tracked]
  intro hnone
  have hN : 0 < N := Nat.pos_of_ne_zero fun h0 => by simp [h0] at hv
  have hcount : ∀ i, calls.count v ≤ counter.countAt i := by
    intro i
    cases hslot : counter.slots i with
    | none => exact Nat.le_of_eq (h.unseen hnone hslot) |>.trans (Nat.zero_le _)
    | some s =>
      rw [countAt_of_some hslot]
      exact h.others hnone hslot
  have htotal : N * calls.count v ≤ calls.length := calc
    N * calls.count v = ∑ _ : Fin N, calls.count v := by
      rw [Finset.sum_const, Finset.card_univ, Fintype.card_fin, smul_eq_mul]
    _ ≤ ∑ i, counter.countAt i := Finset.sum_le_sum fun i _ => hcount i
    _ = calls.length := h.total hN
  omega

end Bounds

/-- **Heavy hitters.** After any list of calls: the values that are tracked are different and at
most `N`, their counts add up to the number of calls, and each is within the bounds of its entry. A
value that is not tracked has no more calls than any entry says, so that one with more than its
share of the calls is tracked. -/
theorem recordAll_spec (calls : List T) (hlen : calls.length < 18446744073709551616) :
    ((recordAll N calls).tracked.Nodup ∧ (recordAll N calls).tracked.length ≤ N) ∧
    (1 ≤ N → (recordAll N calls).entries.foldr (fun entry total => entry.approxCount + total) 0 =
      calls.length) ∧
    (∀ entry ∈ (recordAll N calls).entries, entry.lowerBound ≤ calls.count entry.value ∧
      calls.count entry.value ≤ entry.approxCount) ∧
    (∀ v, v ∉ (recordAll N calls).tracked → ∀ entry ∈ (recordAll N calls).entries,
      calls.count v ≤ entry.approxCount) ∧
    ∀ v, calls.length < N * calls.count v → v ∈ (recordAll N calls).tracked := by
  have h := recordAll_bounds (N := N) calls hlen
  refine ⟨⟨h.nodup_tracked, ?_⟩, fun hN => ?_, fun entry hentry => ?_, fun v hv entry hentry => ?_,
    fun v => h.tracked_of_frequent⟩
  · unfold tracked
    rw [List.length_map]
    exact entries_length_le _
  · rw [entries_total, h.total hN]
  · obtain ⟨index, slot, hslot, rfl⟩ := mem_entries.mp hentry
    have hlower := h.lower hslot
    refine ⟨?_, h.upper hslot⟩
    show slot.approxCount - slot.maxOvercount ≤ calls.count slot.value
    omega
  · obtain ⟨index, slot, hslot, rfl⟩ := mem_entries.mp hentry
    exact h.others (not_not.mp (mt mem_tracked.mpr hv)) hslot

/-- Seven calls. -/
def fewCalls : List String := ["alpha", "beta", "alpha", "gamma", "alpha", "beta", "beta"]

theorem recordAll_spec_fewCalls :
    (recordAll 2 fewCalls).entries = [⟨"beta", 4, 2⟩, ⟨"alpha", 3, 0⟩] ∧
      (∀ entry ∈ (recordAll 2 fewCalls).entries, fewCalls.count "gamma" ≤ entry.approxCount) ∧
      "beta" ∈ (recordAll 2 fewCalls).tracked := by
  have hentries : (recordAll 2 fewCalls).entries = [⟨"beta", 4, 2⟩, ⟨"alpha", 3, 0⟩] := by decide
  obtain ⟨-, -, -, hothers, -⟩ := recordAll_spec (N := 2) fewCalls (by decide)
  refine ⟨hentries, hothers "gamma" ?_, ?_⟩
  · unfold tracked
    rw [hentries]
    decide
  · unfold tracked
    rw [hentries]
    exact List.mem_cons_self

end Counter

end DietPython.Counters
