import DietPython.Counters.DumpRecord

/-!
# Reading a counter dump

Every offset and every count is read from the file. Additions of `usize` and indexing panic where
they do in the code, and the loop over the records has fuel; a result is therefore a value, a
message, a panic, or nothing when the fuel is used up.
-/

namespace DietPython.Counters

open ByteLayouts

/-- Why there is no value. -/
inductive Stop
  | failed (message : String)
  | panicked
  | unfinished
  deriving DecidableEq

abbrev Outcome (α : Type) := Except Stop α

def ensure (condition : Prop) [Decidable condition] (message : String) : Outcome Unit :=
  if condition then .ok () else .error (.failed message)

def failWith {α : Type} (message : String) : Option α → Outcome α
  | some value => .ok value
  | none => .error (.failed message)

/-- Indexing, which panics behind the end. -/
def indexed {α : Type} (values : List α) (index : ℕ) : Outcome α :=
  match values[index]? with
  | some value => .ok value
  | none => .error .panicked

/-- The addition of `usize`, which panics when it overflows. -/
def addUsize (a b : ℕ) : Outcome ℕ :=
  if a + b < 18446744073709551616 then .ok (a + b) else .error .panicked

/-- `checked_mul` of `usize`. -/
def checkedMul (a b : ℕ) : Option ℕ := if a * b < 18446744073709551616 then some (a * b) else none

/-! ### Outcomes -/

section Outcomes

variable {α β : Type}

/-- A value or a message, and neither a panic nor a run without an end. -/
def Settles (outcome : Outcome α) : Prop :=
  outcome ≠ .error .panicked ∧ outcome ≠ .error .unfinished

theorem settles_ok (value : α) : Settles (.ok value) :=
  ⟨fun h => (by cases h), fun h => (by cases h)⟩

theorem settles_failed (message : String) : Settles (.error (.failed message) : Outcome α) :=
  ⟨fun h => (by cases h), fun h => (by cases h)⟩

theorem settles_bind {outcome : Outcome α} {next : α → Outcome β} (h : Settles outcome)
    (hnext : ∀ value, outcome = .ok value → Settles (next value)) : Settles (outcome >>= next) := by
  cases houtcome : outcome with
  | ok value => exact hnext value houtcome
  | error stop =>
    rw [houtcome] at h
    constructor
    · rintro heq
      exact h.1 (congrArg _ (Except.error.inj heq))
    · rintro heq
      exact h.2 (congrArg _ (Except.error.inj heq))

theorem bind_eq_ok {ε : Type} {outcome : Except ε α} {next : α → Except ε β} {result : β} :
    outcome >>= next = .ok result ↔ ∃ value, outcome = .ok value ∧ next value = .ok result := by
  cases outcome with
  | ok value => exact ⟨fun h => ⟨value, rfl, h⟩, fun ⟨_, rfl, h⟩ => h⟩
  | error stop => exact ⟨fun h => (by cases h), fun ⟨_, h, _⟩ => (by cases h)⟩

theorem ensure_eq_ok {condition : Prop} [Decidable condition] {message : String} {value : Unit} :
    ensure condition message = .ok value ↔ condition := by
  unfold ensure
  by_cases h : condition
  · rw [if_pos h]
    exact ⟨fun _ => h, fun _ => rfl⟩
  · rw [if_neg h]
    exact ⟨fun heq => (by cases heq), fun hcondition => absurd hcondition h⟩

theorem settles_ensure (condition : Prop) [Decidable condition] (message : String) :
    Settles (ensure condition message) := by
  unfold ensure
  split
  · exact settles_ok ()
  · exact settles_failed message

theorem failWith_eq_ok {message : String} {option : Option α} {value : α} :
    failWith message option = .ok value ↔ option = some value := by
  cases option with
  | some found =>
    exact ⟨fun h => congrArg some (Except.ok.inj h), fun h => congrArg _ (Option.some.inj h)⟩
  | none => exact ⟨fun h => (by cases h), fun h => (by cases h)⟩

theorem settles_failWith (message : String) (option : Option α) :
    Settles (failWith message option) := by
  cases option with
  | some value => exact settles_ok value
  | none => exact settles_failed message

theorem settles_indexed {values : List α} {index : ℕ} (h : index < values.length) :
    Settles (indexed values index) := by
  rw [indexed, List.getElem?_eq_getElem h]
  exact settles_ok _

theorem addUsize_eq_ok {a b sum : ℕ} : addUsize a b = .ok sum → sum = a + b := by
  unfold addUsize
  split
  · exact fun h => (Except.ok.inj h).symm
  · exact fun h => (by cases h)

theorem addUsize_of_lt {a b : ℕ} (h : a + b < 18446744073709551616) :
    addUsize a b = .ok (a + b) := if_pos h

theorem settles_addUsize {a b : ℕ} (h : a + b < 18446744073709551616) :
    Settles (addUsize a b) := by
  rw [addUsize_of_lt h]
  exact settles_ok _

end Outcomes

/-! ### Slices -/

/-- `&[u8]`: where it lies, and its bytes, which are at most `isize::MAX`. -/
@[ext]
structure ByteSlice where
  addr : ℕ
  bytes : List UInt8
  len_le : bytes.length ≤ 9223372036854775807

namespace ByteSlice

def len (bytes : ByteSlice) : ℕ := bytes.bytes.length

theorem slice_len_le (bytes : ByteSlice) (start len : ℕ) :
    (slice bytes.bytes start len).length ≤ 9223372036854775807 := by
  have hle := bytes.len_le
  rw [slice, List.length_take, List.length_drop]
  omega

def get (bytes : ByteSlice) (start stop : ℕ) : Option ByteSlice :=
  if start ≤ stop ∧ stop ≤ bytes.len then
    some
      { addr := bytes.addr + start
        bytes := slice bytes.bytes start (stop - start)
        len_le := bytes.slice_len_le start (stop - start) }
  else none

/-- `&bytes[start..]` -/
def tail (bytes : ByteSlice) (start : ℕ) : Outcome ByteSlice :=
  match bytes.get start bytes.len with
  | some rest => .ok rest
  | none => .error .panicked

theorem get_eq_some {bytes part : ByteSlice} {start stop : ℕ}
    (h : bytes.get start stop = some part) :
    start ≤ stop ∧ stop ≤ bytes.len ∧ part.addr = bytes.addr + start ∧ part.len = stop - start ∧
      part.bytes = slice bytes.bytes start (stop - start) := by
  unfold get at h
  split at h
  · rename_i hrange
    obtain rfl := Option.some.inj h
    obtain ⟨hle, hstop⟩ := hrange
    refine ⟨hle, hstop, rfl, slice_length ?_, rfl⟩
    unfold len at hstop
    omega
  · cases h

theorem get_of_le {bytes : ByteSlice} {start stop : ℕ} (hle : start ≤ stop)
    (hstop : stop ≤ bytes.len) : ∃ part, bytes.get start stop = some part := by
  rw [get, if_pos ⟨hle, hstop⟩]
  exact ⟨_, rfl⟩

theorem settles_tail {bytes : ByteSlice} {start : ℕ} (h : start ≤ bytes.len) :
    Settles (bytes.tail start) := by
  obtain ⟨part, hpart⟩ := get_of_le h (Nat.le_refl bytes.len)
  rw [tail, hpart]
  exact settles_ok part

theorem tail_eq_ok {bytes part : ByteSlice} {start : ℕ} (h : bytes.tail start = .ok part) :
    bytes.get start bytes.len = some part := by
  unfold tail at h
  split at h
  · rename_i rest hrest
    rw [hrest, Except.ok.inj h]
  · cases h

end ByteSlice

structure CounterDumpRecordView where
  header : CounterDumpRecordHeader
  stringOffsets : List UInt32
  stringBytes : ByteSlice
  columns : Columns

/-! ## Casts -/

section Casts

variable {T : Type} (layout : Layout T)

def castRef (bytes : ByteSlice) (offset : ℕ) : Outcome T := do
  let tail ← failWith s!"counter dump offset {offset} is out of bounds"
    (bytes.get offset bytes.len)
  let size := layout.size
  let align := layout.align
  ensure (size ≤ tail.len) s!"counter dump tail at offset {offset} is too short for {size} bytes"
  ensure (tail.addr % align = 0)
    s!"counter dump offset {offset} is not aligned for {align}-byte values"
  return layout.dec (slice tail.bytes 0 size)

def castSlice (bytes : ByteSlice) (offset len : ℕ) : Outcome (List T) := do
  let byteLen ← failWith "counter dump slice length overflowed" (checkedMul len layout.size)
  let stop ← addUsize offset byteLen
  let sliceBytes ← failWith
    s!"counter dump slice at offset {offset} with len {len} is out of bounds"
    (bytes.get offset stop)
  let align := layout.align
  ensure (sliceBytes.addr % align = 0)
    s!"counter dump slice at offset {offset} is not aligned for {align}-byte values"
  return layout.decAll len sliceBytes.bytes

theorem settles_castRef (bytes : ByteSlice) (offset : ℕ) :
    Settles (castRef layout bytes offset) := by
  refine settles_bind (settles_failWith _ _) fun tail _ => ?_
  refine settles_bind (settles_ensure _ _) fun _ _ => ?_
  exact settles_bind (settles_ensure _ _) fun _ _ => settles_ok _

theorem settles_castSlice (bytes : ByteSlice) {offset len : ℕ}
    (h : offset + len * layout.size < 18446744073709551616) :
    Settles (castSlice layout bytes offset len) := by
  refine settles_bind (settles_failWith _ _) fun byteLen hbyteLen => ?_
  have hlen : byteLen = len * layout.size := by
    have hmul := failWith_eq_ok.mp hbyteLen
    unfold checkedMul at hmul
    split at hmul
    · exact (Option.some.inj hmul).symm
    · cases hmul
  subst hlen
  refine settles_bind (settles_addUsize h) fun stop _ => ?_
  refine settles_bind (settles_failWith _ _) fun sliceBytes _ => ?_
  exact settles_bind (settles_ensure _ _) fun _ _ => settles_ok _

theorem castRef_eq_ok {bytes : ByteSlice} {value : T} (h : castRef layout bytes 0 = .ok value) :
    layout.size ≤ bytes.len ∧ value = layout.dec (slice bytes.bytes 0 layout.size) := by
  obtain ⟨tail, htail, h⟩ := bind_eq_ok.mp h
  obtain ⟨_, hsize, h⟩ := bind_eq_ok.mp h
  obtain ⟨_, -, h⟩ := bind_eq_ok.mp h
  obtain ⟨-, -, -, hlen, hbytes⟩ := ByteSlice.get_eq_some (failWith_eq_ok.mp htail)
  have hle := ensure_eq_ok.mp hsize
  rw [hlen, Nat.sub_zero] at hle
  refine ⟨hle, ?_⟩
  rw [← Except.ok.inj h, hbytes, slice_slice _ (by omega)]

theorem castRef_of_le {bytes : ByteSlice} (hsize : layout.size ≤ bytes.len)
    (halign : bytes.addr % layout.align = 0) :
    castRef layout bytes 0 = .ok (layout.dec (slice bytes.bytes 0 layout.size)) := by
  obtain ⟨part, hpart⟩ := ByteSlice.get_of_le (Nat.zero_le bytes.len) (Nat.le_refl bytes.len)
  obtain ⟨-, -, haddr, hlen, hbytes⟩ := ByteSlice.get_eq_some hpart
  refine bind_eq_ok.mpr ⟨part, failWith_eq_ok.mpr hpart, bind_eq_ok.mpr ⟨(), ?_, ?_⟩⟩
  · exact ensure_eq_ok.mpr (by omega)
  · refine bind_eq_ok.mpr ⟨(), ensure_eq_ok.mpr (by rw [haddr, Nat.add_zero, halign]), ?_⟩
    rw [hbytes, slice_slice _ (by omega)]
    rfl

theorem castSlice_eq_ok {bytes : ByteSlice} {offset len : ℕ} {values : List T}
    (h : castSlice layout bytes offset len = .ok values) :
    offset + len * layout.size ≤ bytes.len ∧
      values = layout.decAll len (slice bytes.bytes offset (len * layout.size)) := by
  obtain ⟨byteLen, hbyteLen, h⟩ := bind_eq_ok.mp h
  obtain ⟨stop, hstop, h⟩ := bind_eq_ok.mp h
  obtain ⟨sliceBytes, hslice, h⟩ := bind_eq_ok.mp h
  obtain ⟨_, -, hvalues⟩ := bind_eq_ok.mp h
  have hmul := failWith_eq_ok.mp hbyteLen
  unfold checkedMul at hmul
  split at hmul
  · obtain rfl := Option.some.inj hmul
    obtain rfl := addUsize_eq_ok hstop
    obtain ⟨-, hin, -, -, hbytes⟩ := ByteSlice.get_eq_some (failWith_eq_ok.mp hslice)
    refine ⟨hin, ?_⟩
    rw [← Except.ok.inj hvalues, hbytes, Nat.add_sub_cancel_left]
  · cases hmul

/-- **The cast of a section that is inside and aligned.** -/
theorem castSlice_of_le {bytes : ByteSlice} {offset len : ℕ}
    (hin : offset + len * layout.size ≤ bytes.len)
    (halign : (bytes.addr + offset) % layout.align = 0) :
    castSlice layout bytes offset len =
      .ok (layout.decAll len (slice bytes.bytes offset (len * layout.size))) := by
  have hmax := bytes.len_le
  have hlen : bytes.len = bytes.bytes.length := rfl
  have hmul : checkedMul len layout.size = some (len * layout.size) := if_pos (by omega)
  obtain ⟨part, hpart⟩ := ByteSlice.get_of_le (Nat.le_add_right _ _) hin
  obtain ⟨-, -, haddr, -, hbytes⟩ := ByteSlice.get_eq_some hpart
  rw [castSlice, hmul]
  refine bind_eq_ok.mpr ⟨_, rfl, bind_eq_ok.mpr ⟨_, addUsize_of_lt (by omega), ?_⟩⟩
  refine bind_eq_ok.mpr ⟨part, failWith_eq_ok.mpr hpart, bind_eq_ok.mpr ⟨(), ?_, ?_⟩⟩
  · exact ensure_eq_ok.mpr (by rw [haddr, halign])
  · rw [hbytes, Nat.add_sub_cancel_left]
    rfl

end Casts

/-! ## Records -/

namespace CounterDumpRecordHeader

/-- The offsets as `usize`, which any `u32` fits in. -/
def offsets (header : CounterDumpRecordHeader) : Offsets where
  stringOffsets := header.stringOffsetsOffset.toNat
  stringBytes := header.stringBytesOffset.toNat
  counterId := header.counterIdOffset.toNat
  scope := header.scopeOffset.toNat
  kind := header.kindOffset.toNat
  siteKind := header.siteKindOffset.toNat
  functionId := header.functionIdOffset.toNat
  currentFunctionId := header.currentFunctionIdOffset.toNat
  instrBlockLabel := header.instrBlockLabelOffset.toNat
  instrIndexInBlock := header.instrIndexInBlockOffset.toNat
  functionQualname := header.functionQualnameOffset.toNat
  blockLabel := header.blockLabelOffset.toNat
  value := header.valueOffset.toNat
  recordLen := header.recordLen.toNat

end CounterDumpRecordHeader

def isNondecreasing : List ℕ → Bool
  | a :: b :: rest => a ≤ b && isNondecreasing (b :: rest)
  | _ => true

def Offsets.starts (offsets : Offsets) (headerSize : ℕ) : List ℕ :=
  [headerSize, offsets.stringOffsets, offsets.stringBytes, offsets.counterId, offsets.scope,
    offsets.kind, offsets.siteKind, offsets.functionId, offsets.currentFunctionId,
    offsets.instrBlockLabel, offsets.instrIndexInBlock, offsets.functionQualname,
    offsets.blockLabel, offsets.value, offsets.recordLen]

/-- The header behind a byte offset of the file, with the checks that need nothing else. -/
def readHeader (remaining : ByteSlice) (offset : ℕ) : Outcome CounterDumpRecordHeader := do
  let header ← castRef headerLayout remaining 0
  let magic := List.ofFn header.magic
  ensure (header.magic = counterDumpMagic)
    s!"counter dump record at byte offset {offset} has invalid magic {magic}"
  let version := header.version
  ensure (version = counterDumpVersion)
    s!"counter dump record at byte offset {offset} uses unsupported version {version}"
  let headerSize := header.headerSize
  ensure (headerSize.toNat = headerLayout.size)
    s!"counter dump record at byte offset {offset} has unexpected header size {headerSize}"
  let recordLen := header.recordLen
  ensure (recordLen.toNat ≠ 0 ∧ recordLen.toNat % 8 = 0)
    s!"counter dump record at byte offset {offset} has invalid length {recordLen}"
  return header

def readColumns (record : ByteSlice) (offsets : Offsets) (rowCount : ℕ) : Outcome Columns := do
  let counterId ← castSlice u32 record offsets.counterId rowCount
  let scope ← castSlice u32 record offsets.scope rowCount
  let kind ← castSlice u32 record offsets.kind rowCount
  let siteKind ← castSlice u32 record offsets.siteKind rowCount
  let functionId ← castSlice u64 record offsets.functionId rowCount
  let currentFunctionId ← castSlice u64 record offsets.currentFunctionId rowCount
  let instrBlockLabel ← castSlice u32 record offsets.instrBlockLabel rowCount
  let instrIndexInBlock ← castSlice u32 record offsets.instrIndexInBlock rowCount
  let functionQualname ← castSlice u32 record offsets.functionQualname rowCount
  let blockLabel ← castSlice u32 record offsets.blockLabel rowCount
  let value ← castSlice u64 record offsets.value rowCount
  return {
    counterId := counterId
    scope := scope
    kind := kind
    siteKind := siteKind
    functionId := functionId
    currentFunctionId := currentFunctionId
    instrBlockLabel := instrBlockLabel
    instrIndexInBlock := instrIndexInBlock
    functionQualname := functionQualname
    blockLabel := blockLabel
    value := value }

/-- The string offsets begin with 0 and end with the number of bytes. -/
def checkStringOffsets (stringOffsets : List UInt32) (stringBytes : ByteSlice) (offset : ℕ) :
    Outcome Unit := do
  ensure (stringOffsets.head?.getD 0 = 0)
    s!"counter dump record at byte offset {offset} has a non-zero first string offset"
  ensure (stringBytes.len < 4294967296)
    s!"counter dump string bytes at byte offset {offset} exceed u32 capacity"
  ensure ((stringOffsets.getLast?.getD 0).toNat = stringBytes.len)
    s!"counter dump record at byte offset {offset} has mismatched string byte length"

/-- One round of the loop. -/
def parseRecord (remaining : ByteSlice) (offset : ℕ) : Outcome CounterDumpRecordView := do
  let header ← readHeader remaining offset
  let offsets := header.offsets
  let record ← failWith s!"counter dump record at byte offset {offset} extends past end of file"
    (remaining.get 0 offsets.recordLen)
  ensure (isNondecreasing (offsets.starts header.headerSize.toNat))
    s!"counter dump record at byte offset {offset} has overlapping sections"
  let offsetCount ← addUsize header.stringCount.toNat 1
  let stringOffsets ← castSlice u32 record offsets.stringOffsets offsetCount
  let stringBytesEnd ← addUsize offsets.stringBytes header.stringBytesLen.toNat
  let stringBytes ← failWith
    s!"counter dump string bytes at byte offset {offset} are out of bounds"
    (record.get offsets.stringBytes stringBytesEnd)
  let columns ← readColumns record offsets header.rowCount.toNat
  checkStringOffsets stringOffsets stringBytes offset
  return ⟨header, stringOffsets, stringBytes, columns⟩

/-- The loop from a byte offset on. -/
def parseFrom (bytes : ByteSlice) : ℕ → ℕ → Outcome (List CounterDumpRecordView)
  | 0, _ => .error .unfinished
  | fuel + 1, offset =>
    if offset < bytes.len then do
      let remaining ← bytes.tail offset
      let view ← parseRecord remaining offset
      let next ← addUsize offset view.header.recordLen.toNat
      let records ← parseFrom bytes fuel next
      return view :: records
    else .ok []

def parseCounterDumpRecords (bytes : ByteSlice) : Outcome (List CounterDumpRecordView) :=
  parseFrom bytes (bytes.len + 1) 0

/-! ## Rows -/

def fromUtf8 (bytes : List UInt8) : Option String :=
  String.fromUTF8? ⟨bytes.toArray⟩

/-- `BlockLabel::from_index` -/
def blockLabelFromIndex (value : ℕ) : Outcome UInt32 :=
  if value < 4294967296 then .ok (UInt32.ofNat value) else .error .panicked

def functionIdFromPacked (packed : UInt64) : Option FunctionId :=
  if packed ≠ counterDumpNoneU64 then some ⟨packed⟩ else none

namespace CounterDumpRecordView

variable (utf8Error : List UInt8 → String) (view : CounterDumpRecordView)

/-- `utf8Error` is the text of the library's error. -/
def resolveStringId (stringId : UInt32) : Outcome String := do
  let stringIndex := stringId.toNat
  let count := view.stringOffsets.length - 1
  let start ← failWith s!"string id {stringId} is out of bounds for {count} strings"
    view.stringOffsets[stringIndex]?
  let next ← addUsize stringIndex 1
  let stop ← failWith s!"string id {stringId} is missing its terminal offset"
    view.stringOffsets[next]?
  let bytes ← failWith s!"string id {stringId} range {start}..{stop} is out of bounds"
    (view.stringBytes.get start.toNat stop.toNat)
  let reason := utf8Error bytes.bytes
  failWith s!"counter dump string id {stringId} is not utf-8: {reason}" (fromUtf8 bytes.bytes)

def resolveOptionalStringId (stringId : UInt32) : Outcome (Option String) :=
  if stringId = counterDumpNoneU32 then .ok none
  else (view.resolveStringId utf8Error stringId).map some

def moduleName : Outcome String := view.resolveStringId utf8Error view.header.moduleNameStringId

def packageName : Outcome (Option String) :=
  view.resolveOptionalStringId utf8Error view.header.packageNameStringId

def rowCount : ℕ := view.columns.counterId.length

def instrId (index : ℕ) : Outcome (Option InstrId) := do
  let blockLabel ← indexed view.columns.instrBlockLabel index
  if blockLabel = counterDumpNoneU32 then
    .ok none
  else do
    let instrIndexInBlock ← indexed view.columns.instrIndexInBlock index
    if instrIndexInBlock = counterDumpNoneU32 then
      .ok none
    else do
      let label ← blockLabelFromIndex blockLabel.toNat
      return some ⟨label, instrIndexInBlock⟩

def row (index : ℕ) : Outcome CounterDumpRow := do
  let rowCount := view.rowCount
  ensure (index < rowCount) s!"counter dump row {index} is out of bounds for {rowCount} rows"
  let counterId ← indexed view.columns.counterId index
  let scope ← view.resolveStringId utf8Error (← indexed view.columns.scope index)
  let kind ← view.resolveStringId utf8Error (← indexed view.columns.kind index)
  let siteKind ← view.resolveStringId utf8Error (← indexed view.columns.siteKind index)
  let functionId ← indexed view.columns.functionId index
  let currentFunctionId ← indexed view.columns.currentFunctionId index
  let instrId ← view.instrId index
  let functionQualname ← view.resolveOptionalStringId utf8Error
    (← indexed view.columns.functionQualname index)
  let blockLabel ← view.resolveOptionalStringId utf8Error
    (← indexed view.columns.blockLabel index)
  let value ← indexed view.columns.value index
  return {
    counterId := counterId
    scope := scope
    kind := kind
    siteKind := siteKind
    functionId := functionIdFromPacked functionId
    currentFunctionId := functionIdFromPacked currentFunctionId
    instrId := instrId
    functionQualname := functionQualname
    blockLabel := blockLabel
    value := value }

end CounterDumpRecordView

end DietPython.Counters
