import Mathlib.Data.List.Basic
import Mathlib.Data.Nat.Notation

/-!
# Values in byte lists

A `Layout` is a fixed size, an alignment and a way to write a value and to read it back. Columns
are values one after the other. `slice` is a section of a byte list, and `overwrite` puts bytes
there; sections that are written in ascending order are read back as they were written.
-/

namespace ByteLayouts

/-! ## Numbers -/

/-- The number with these bytes, the lowest first. -/
def ofLe : List UInt8 → ℕ
  | [] => 0
  | byte :: bytes => byte.toNat + 256 * ofLe bytes

/-- The bytes of a number, the lowest first. -/
def toLe : ℕ → ℕ → List UInt8
  | 0, _ => []
  | width + 1, value => UInt8.ofNat value :: toLe width (value / 256)

/-- How many numbers `width` bytes hold. -/
def capacity : ℕ → ℕ
  | 0 => 1
  | width + 1 => 256 * capacity width

theorem toLe_length (width value : ℕ) : (toLe width value).length = width := by
  induction width generalizing value with
  | zero => rfl
  | succ width ih => rw [toLe, List.length_cons, ih]

theorem ofLe_toLe {width value : ℕ} (h : value < capacity width) :
    ofLe (toLe width value) = value := by
  induction width generalizing value with
  | zero =>
    unfold capacity at h
    rw [Nat.lt_one_iff.mp h]
    rfl
  | succ width ih =>
    unfold capacity at h
    rw [toLe, ofLe, ih (by omega), UInt8.toNat_ofNat']
    omega

/-! ## Layouts -/

structure Layout (α : Type) where
  size : ℕ
  align : ℕ
  enc : α → List UInt8
  dec : List UInt8 → α
  size_pos : 0 < size
  enc_length : ∀ value, (enc value).length = size
  dec_enc : ∀ value, dec (enc value) = value

def u16 : Layout UInt16 where
  size := 2
  align := 2
  enc value := toLe 2 value.toNat
  dec bytes := UInt16.ofNat (ofLe bytes)
  size_pos := Nat.zero_lt_succ _
  enc_length _ := toLe_length _ _
  dec_enc value := by
    rw [ofLe_toLe (UInt16.toNat_lt value)]
    exact UInt16.ofNat_toNat

def u32 : Layout UInt32 where
  size := 4
  align := 4
  enc value := toLe 4 value.toNat
  dec bytes := UInt32.ofNat (ofLe bytes)
  size_pos := Nat.zero_lt_succ _
  enc_length _ := toLe_length _ _
  dec_enc value := by
    rw [ofLe_toLe (UInt32.toNat_lt value)]
    exact UInt32.ofNat_toNat

def u64 : Layout UInt64 where
  size := 8
  align := 8
  enc value := toLe 8 value.toNat
  dec bytes := UInt64.ofNat (ofLe bytes)
  size_pos := Nat.zero_lt_succ _
  enc_length _ := toLe_length _ _
  dec_enc value := by
    rw [ofLe_toLe (UInt64.toNat_lt value)]
    exact UInt64.ofNat_toNat

namespace Layout

variable {α : Type} (layout : Layout α)

def encAll (values : List α) : List UInt8 := values.flatMap layout.enc

def decAll : ℕ → List UInt8 → List α
  | 0, _ => []
  | count + 1, bytes =>
    layout.dec (bytes.take layout.size) :: decAll count (bytes.drop layout.size)

theorem encAll_length (values : List α) :
    (layout.encAll values).length = values.length * layout.size := by
  induction values with
  | nil => exact (Nat.zero_mul _).symm
  | cons value values ih =>
    show (layout.enc value ++ layout.encAll values).length = _
    rw [List.length_append, layout.enc_length, ih, List.length_cons, Nat.succ_mul, Nat.add_comm]

@[simp] theorem decAll_length (count : ℕ) (bytes : List UInt8) :
    (layout.decAll count bytes).length = count := by
  induction count generalizing bytes with
  | zero => rfl
  | succ count ih => rw [decAll, List.length_cons, ih]

/-- **A column is read back.** -/
theorem decAll_encAll (values : List α) :
    layout.decAll values.length (layout.encAll values) = values := by
  induction values with
  | nil => rfl
  | cons value values ih =>
    have hcons : layout.encAll (value :: values) = layout.enc value ++ layout.encAll values := rfl
    have hlen := layout.enc_length value
    rw [hcons, List.length_cons, decAll, List.take_left' hlen, List.drop_left' hlen,
      layout.dec_enc, ih]

end Layout

/-! ## Sections -/

def slice (bytes : List UInt8) (offset len : ℕ) : List UInt8 := (bytes.drop offset).take len

/-- The bytes with `src` from `offset` on. -/
def overwrite (bytes : List UInt8) (offset : ℕ) (src : List UInt8) : List UInt8 :=
  bytes.take offset ++ src ++ bytes.drop (offset + src.length)

theorem slice_length {bytes : List UInt8} {offset len : ℕ} (h : offset + len ≤ bytes.length) :
    (slice bytes offset len).length = len := by
  rw [slice, List.length_take, List.length_drop]
  omega

theorem slice_append_left {left : List UInt8} (right : List UInt8) {offset len : ℕ}
    (h : offset + len ≤ left.length) :
    slice (left ++ right) offset len = slice left offset len := by
  unfold slice
  rw [List.drop_append_of_le_length (by omega), List.take_append_of_le_length]
  rw [List.length_drop]
  omega

theorem slice_append_right (left right : List UInt8) (len : ℕ) :
    slice (left ++ right) left.length len = right.take len := by
  rw [slice, List.drop_left]

theorem slice_all (bytes : List UInt8) : slice bytes 0 bytes.length = bytes := by
  rw [slice, List.drop_zero, List.take_length]

theorem slice_slice (bytes : List UInt8) {start len offset count : ℕ} (h : offset + count ≤ len) :
    slice (slice bytes start len) offset count = slice bytes (start + offset) count := by
  unfold slice
  rw [List.drop_take, List.drop_drop, List.take_take, Nat.min_eq_left (by omega)]

variable {bytes src : List UInt8} {offset : ℕ}

theorem overwrite_length (h : offset + src.length ≤ bytes.length) :
    (overwrite bytes offset src).length = bytes.length := by
  rw [overwrite, List.length_append, List.length_append, List.length_take, List.length_drop]
  omega

theorem slice_overwrite_self (h : offset ≤ bytes.length) :
    slice (overwrite bytes offset src) offset src.length = src := by
  have htake : (bytes.take offset).length = offset := List.length_take_of_le h
  rw [slice, overwrite, List.append_assoc, List.drop_left' htake, List.take_left' rfl]

/-- What lies before the written section stays. -/
theorem slice_overwrite_before {start len : ℕ} (h : offset ≤ bytes.length)
    (hbefore : start + len ≤ offset) :
    slice (overwrite bytes offset src) start len = slice bytes start len := by
  have htake : (bytes.take offset).length = offset := List.length_take_of_le h
  rw [slice, slice, overwrite, List.append_assoc,
    List.drop_append_of_le_length (by omega), List.take_append_of_le_length
      (by rw [List.length_drop]; omega), List.drop_take, List.take_take,
    Nat.min_eq_left (by omega)]

/-- One write after the other. -/
def overwriteAll (bytes : List UInt8) (writes : List (ℕ × List UInt8)) : List UInt8 :=
  writes.foldl (fun bytes write => overwrite bytes write.1 write.2) bytes

/-- No write starts before the end of the one before it, and the last ends at `stop` at most. -/
def Ascending (stop : ℕ) : ℕ → List (ℕ × List UInt8) → Prop
  | start, [] => start ≤ stop
  | start, write :: writes => start ≤ write.1 ∧ Ascending stop (write.1 + write.2.length) writes

theorem Ascending.start_le {stop start : ℕ} {writes : List (ℕ × List UInt8)}
    (h : Ascending stop start writes) : start ≤ stop := by
  induction writes generalizing start with
  | nil => exact h
  | cons write writes ih =>
    obtain ⟨hstart, hrest⟩ := h
    have hstop := ih hrest
    omega

theorem Ascending.end_le {stop start : ℕ} {writes : List (ℕ × List UInt8)}
    (h : Ascending stop start writes) {write : ℕ × List UInt8} (hmem : write ∈ writes) :
    write.1 + write.2.length ≤ stop := by
  induction writes generalizing start with
  | nil => cases hmem
  | cons first writes ih =>
    obtain ⟨-, hrest⟩ := h
    rcases List.mem_cons.mp hmem with rfl | hmem
    · exact hrest.start_le
    · exact ih hrest hmem

theorem overwriteAll_length {start : ℕ} {writes : List (ℕ × List UInt8)}
    (h : Ascending bytes.length start writes) :
    (overwriteAll bytes writes).length = bytes.length := by
  induction writes generalizing bytes start with
  | nil => rfl
  | cons write writes ih =>
    obtain ⟨-, hrest⟩ := h
    have hlen : (overwrite bytes write.1 write.2).length = bytes.length :=
      overwrite_length hrest.start_le
    show (overwriteAll (overwrite bytes write.1 write.2) writes).length = _
    rw [← hlen] at hrest
    rw [ih hrest, hlen]

/-- Ascending writes leave what is before them. -/
theorem slice_overwriteAll_before {start pos len : ℕ} {writes : List (ℕ × List UInt8)}
    (h : Ascending bytes.length start writes) (hbefore : pos + len ≤ start) :
    slice (overwriteAll bytes writes) pos len = slice bytes pos len := by
  induction writes generalizing bytes start with
  | nil => rfl
  | cons write writes ih =>
    obtain ⟨hstart, hrest⟩ := h
    have hstop := hrest.start_le
    have hlen : (overwrite bytes write.1 write.2).length = bytes.length := overwrite_length hstop
    show slice (overwriteAll (overwrite bytes write.1 write.2) writes) pos len = _
    rw [← hlen] at hrest
    rw [ih hrest (by omega), slice_overwrite_before (by omega) (by omega)]

/-- **Ascending writes are read back.** -/
theorem slice_overwriteAll {start : ℕ} {writes : List (ℕ × List UInt8)}
    (h : Ascending bytes.length start writes) {write : ℕ × List UInt8} (hmem : write ∈ writes) :
    slice (overwriteAll bytes writes) write.1 write.2.length = write.2 := by
  induction writes generalizing bytes start with
  | nil => cases hmem
  | cons first writes ih =>
    obtain ⟨-, hrest⟩ := h
    have hstop := hrest.start_le
    have hlen : (overwrite bytes first.1 first.2).length = bytes.length := overwrite_length hstop
    show slice (overwriteAll (overwrite bytes first.1 first.2) writes) _ _ = _
    rw [← hlen] at hrest
    rcases List.mem_cons.mp hmem with rfl | hmem
    · rw [slice_overwriteAll_before hrest (Nat.le_refl _), slice_overwrite_self (by omega)]
    · exact ih hrest hmem

end ByteLayouts
