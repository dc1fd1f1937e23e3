import DietPython.Counters.Ids
import DietPython.Lib.ByteLayouts
import Mathlib.Data.Fin.VecNotation
import Mathlib.Data.Fintype.Pi

/-!
# Records of a counter dump

A record is a header, a table of strings and eleven columns. `encode` interns the strings, lays
the sections out one behind the other, and writes each at its offset.
-/

namespace DietPython.Counters

open ByteLayouts

def counterDumpMagic : Fin 8 → UInt8 := ![83, 79, 65, 67, 67, 78, 84, 82]

def counterDumpVersion : UInt16 := 4

/-- `u32::MAX` -/
def counterDumpNoneU32 : UInt32 := 4294967295

/-- `u64::MAX` -/
def counterDumpNoneU64 : UInt64 := 18446744073709551615

structure CounterDumpRecordHeader where
  magic : Fin 8 → UInt8
  version : UInt16
  headerSize : UInt16
  recordLen : UInt32
  rowCount : UInt32
  stringCount : UInt32
  stringBytesLen : UInt32
  moduleNameStringId : UInt32
  packageNameStringId : UInt32
  stringOffsetsOffset : UInt32
  stringBytesOffset : UInt32
  counterIdOffset : UInt32
  scopeOffset : UInt32
  kindOffset : UInt32
  siteKindOffset : UInt32
  functionIdOffset : UInt32
  currentFunctionIdOffset : UInt32
  instrBlockLabelOffset : UInt32
  instrIndexInBlockOffset : UInt32
  functionQualnameOffset : UInt32
  blockLabelOffset : UInt32
  valueOffset : UInt32

namespace CounterDumpRecordHeader

/-- The fields behind the first twelve bytes. -/
def words (header : CounterDumpRecordHeader) : List UInt32 :=
  [header.recordLen, header.rowCount, header.stringCount, header.stringBytesLen,
    header.moduleNameStringId, header.packageNameStringId, header.stringOffsetsOffset,
    header.stringBytesOffset, header.counterIdOffset, header.scopeOffset, header.kindOffset,
    header.siteKindOffset, header.functionIdOffset, header.currentFunctionIdOffset,
    header.instrBlockLabelOffset, header.instrIndexInBlockOffset, header.functionQualnameOffset,
    header.blockLabelOffset, header.valueOffset]

def enc (header : CounterDumpRecordHeader) : List UInt8 :=
  List.ofFn header.magic ++
    (u16.enc header.version ++ (u16.enc header.headerSize ++ u32.encAll header.words))

def dec (bytes : List UInt8) : CounterDumpRecordHeader :=
  let words := u32.decAll 19 (bytes.drop 12)
  let word (index : ℕ) : UInt32 := words.getD index 0
  { magic := fun index => bytes.getD index.val 0
    version := u16.dec (slice bytes 8 2)
    headerSize := u16.dec (slice bytes 10 2)
    recordLen := word 0
    rowCount := word 1
    stringCount := word 2
    stringBytesLen := word 3
    moduleNameStringId := word 4
    packageNameStringId := word 5
    stringOffsetsOffset := word 6
    stringBytesOffset := word 7
    counterIdOffset := word 8
    scopeOffset := word 9
    kindOffset := word 10
    siteKindOffset := word 11
    functionIdOffset := word 12
    currentFunctionIdOffset := word 13
    instrBlockLabelOffset := word 14
    instrIndexInBlockOffset := word 15
    functionQualnameOffset := word 16
    blockLabelOffset := word 17
    valueOffset := word 18 }

theorem enc_length (header : CounterDumpRecordHeader) : header.enc.length = 88 := by
  rw [enc, List.length_append, List.length_append, List.length_append, List.length_ofFn,
    u16.enc_length, u16.enc_length, u32.encAll_length]
  rfl

theorem dec_enc (header : CounterDumpRecordHeader) : dec header.enc = header := by
  have hmagic : (List.ofFn header.magic).length = 8 := List.length_ofFn
  have hversion : (u16.enc header.version).length = 2 := u16.enc_length _
  have hsize : (u16.enc header.headerSize).length = 2 := u16.enc_length _
  have h8 : header.enc.drop 8 =
      u16.enc header.version ++ (u16.enc header.headerSize ++ u32.encAll header.words) :=
    List.drop_left' hmagic
  have h10 : header.enc.drop 10 = u16.enc header.headerSize ++ u32.encAll header.words := by
    have hdrop : (header.enc.drop 8).drop 2 = header.enc.drop 10 := List.drop_drop
    rw [← hdrop, h8, List.drop_left' hversion]
  have h12 : header.enc.drop 12 = u32.encAll header.words := by
    have hdrop : (header.enc.drop 10).drop 2 = header.enc.drop 12 := List.drop_drop
    rw [← hdrop, h10, List.drop_left' hsize]
  have hwords : u32.decAll 19 (header.enc.drop 12) = header.words := by
    rw [h12]
    exact u32.decAll_encAll header.words
  have hbytes : ∀ index : Fin 8, header.enc.getD index.val 0 = header.magic index := by
    intro index
    have hlt : index.val < (List.ofFn header.magic).length := by
      rw [hmagic]
      exact index.isLt
    rw [enc, List.getD_eq_getElem?_getD, List.getElem?_append_left hlt,
      List.getElem?_eq_getElem hlt, List.getElem_ofFn]
    rfl
  have hv : u16.dec (slice header.enc 8 2) = header.version := by
    rw [slice, h8, List.take_left' hversion, u16.dec_enc]
  have hs : u16.dec (slice header.enc 10 2) = header.headerSize := by
    rw [slice, h10, List.take_left' hsize, u16.dec_enc]
  unfold dec
  simp only [hwords, hv, hs]
  cases header
  congr
  funext index
  exact hbytes index

end CounterDumpRecordHeader

def headerLayout : Layout CounterDumpRecordHeader where
  size := 88
  align := 4
  enc := CounterDumpRecordHeader.enc
  dec := CounterDumpRecordHeader.dec
  size_pos := Nat.zero_lt_succ _
  enc_length := CounterDumpRecordHeader.enc_length
  dec_enc := CounterDumpRecordHeader.dec_enc

structure CounterDumpRow where
  counterId : UInt32
  scope : String
  kind : String
  siteKind : String
  functionId : Option FunctionId
  currentFunctionId : Option FunctionId
  instrId : Option InstrId
  functionQualname : Option String
  blockLabel : Option String
  value : UInt64
  deriving DecidableEq

structure CounterDumpRecord where
  moduleName : String
  packageName : Option String
  rows : List CounterDumpRow
  deriving DecidableEq

/-- `u32::try_from`, with the message for a number that does not fit. -/
def tryU32 (value : ℕ) (message : String) : Except String UInt32 :=
  if value < 4294967296 then .ok (UInt32.ofNat value) else .error message

/-! ## The table of strings -/

structure StringTable where
  ids : String → Option UInt32
  strings : List String

namespace StringTable

def empty : StringTable := ⟨fun _ => none, []⟩

def intern (table : StringTable) (value : String) : Except String (UInt32 × StringTable) :=
  match table.ids value with
  | some id => .ok (id, table)
  | none => do
    let id ← tryU32 table.strings.length "counter dump string table exceeds u32 capacity"
    return (id, ⟨Function.update table.ids value (some id), table.strings ++ [value]⟩)

/-- Without a string there is a marker. -/
def internOptional (table : StringTable) : Option String → Except String (UInt32 × StringTable)
  | some value => table.intern value
  | none => .ok (counterDumpNoneU32, table)

end StringTable

/-! ## Columns -/

/-- What one row puts into the columns. -/
structure EncodedRow where
  counterId : UInt32
  scope : UInt32
  kind : UInt32
  siteKind : UInt32
  functionId : UInt64
  currentFunctionId : UInt64
  instrBlockLabel : UInt32
  instrIndexInBlock : UInt32
  functionQualname : UInt32
  blockLabel : UInt32
  value : UInt64

structure Columns where
  counterId : List UInt32
  scope : List UInt32
  kind : List UInt32
  siteKind : List UInt32
  functionId : List UInt64
  currentFunctionId : List UInt64
  instrBlockLabel : List UInt32
  instrIndexInBlock : List UInt32
  functionQualname : List UInt32
  blockLabel : List UInt32
  value : List UInt64

def Columns.ofRows (rows : List EncodedRow) : Columns where
  counterId := rows.map EncodedRow.counterId
  scope := rows.map EncodedRow.scope
  kind := rows.map EncodedRow.kind
  siteKind := rows.map EncodedRow.siteKind
  functionId := rows.map EncodedRow.functionId
  currentFunctionId := rows.map EncodedRow.currentFunctionId
  instrBlockLabel := rows.map EncodedRow.instrBlockLabel
  instrIndexInBlock := rows.map EncodedRow.instrIndexInBlock
  functionQualname := rows.map EncodedRow.functionQualname
  blockLabel := rows.map EncodedRow.blockLabel
  value := rows.map EncodedRow.value

def encodeRow (table : StringTable) (row : CounterDumpRow) :
    Except String (EncodedRow × StringTable) := do
  let (scope, table) ← table.intern row.scope
  let (kind, table) ← table.intern row.kind
  let (siteKind, table) ← table.intern row.siteKind
  let (functionQualname, table) ← table.internOptional row.functionQualname
  let (blockLabel, table) ← table.internOptional row.blockLabel
  return (
    { counterId := row.counterId
      scope := scope
      kind := kind
      siteKind := siteKind
      functionId := (row.functionId.map FunctionId.packed).getD counterDumpNoneU64
      currentFunctionId := (row.currentFunctionId.map FunctionId.packed).getD counterDumpNoneU64
      instrBlockLabel := (row.instrId.map InstrId.blockLabel).getD counterDumpNoneU32
      instrIndexInBlock := (row.instrId.map InstrId.instrIndexInBlock).getD counterDumpNoneU32
      functionQualname := functionQualname
      blockLabel := blockLabel
      value := row.value }, table)

def encodeRows (table : StringTable) :
    List CounterDumpRow → Except String (List EncodedRow × StringTable)
  | [] => .ok ([], table)
  | row :: rows => do
    let (encoded, table) ← encodeRow table row
    let (rest, table) ← encodeRows table rows
    return (encoded :: rest, table)

/-! ## The layout -/

def alignUp (offset align : ℕ) : ℕ :=
  if offset % align = 0 then offset else offset + (align - offset % align)

def stringBytesOf (value : String) : List UInt8 := value.toByteArray.data.toList

/-- The offsets behind the first one, and the bytes so far. -/
def encodeStrings (bytes : List UInt8) :
    List String → Except String (List UInt32 × List UInt8)
  | [] => .ok ([], bytes)
  | value :: strings => do
    let bytes := bytes ++ stringBytesOf value
    let offset ← tryU32 bytes.length "counter dump string bytes exceed u32 capacity"
    let (offsets, bytes) ← encodeStrings bytes strings
    return (offset :: offsets, bytes)

/-- Where the sections are, and where the record ends. -/
structure Offsets where
  stringOffsets : ℕ
  stringBytes : ℕ
  counterId : ℕ
  scope : ℕ
  kind : ℕ
  siteKind : ℕ
  functionId : ℕ
  currentFunctionId : ℕ
  instrBlockLabel : ℕ
  instrIndexInBlock : ℕ
  functionQualname : ℕ
  blockLabel : ℕ
  value : ℕ
  recordLen : ℕ

def offsetsOf (stringOffsets : List UInt32) (stringBytes : List UInt8) (columns : Columns) :
    Offsets :=
  let stringOffsetsOffset := alignUp headerLayout.size 4
  let stringBytesOffset := stringOffsetsOffset + stringOffsets.length * u32.size
  let counterId := alignUp (stringBytesOffset + stringBytes.length) 4
  let scope := counterId + columns.counterId.length * u32.size
  let kind := scope + columns.scope.length * u32.size
  let siteKind := kind + columns.kind.length * u32.size
  let functionId := alignUp (siteKind + columns.siteKind.length * u32.size) 8
  let currentFunctionId := functionId + columns.functionId.length * u64.size
  let instrBlockLabel := currentFunctionId + columns.currentFunctionId.length * u64.size
  let instrIndexInBlock := instrBlockLabel + columns.instrBlockLabel.length * u32.size
  let functionQualname := instrIndexInBlock + columns.instrIndexInBlock.length * u32.size
  let blockLabel := functionQualname + columns.functionQualname.length * u32.size
  let value := alignUp (blockLabel + columns.blockLabel.length * u32.size) 8
  { stringOffsets := stringOffsetsOffset
    stringBytes := stringBytesOffset
    counterId := counterId
    scope := scope
    kind := kind
    siteKind := siteKind
    functionId := functionId
    currentFunctionId := currentFunctionId
    instrBlockLabel := instrBlockLabel
    instrIndexInBlock := instrIndexInBlock
    functionQualname := functionQualname
    blockLabel := blockLabel
    value := value
    recordLen := alignUp (value + columns.value.length * u64.size) 8 }

/-- An offset of the header. -/
def headerOffset (offset : ℕ) : Except String UInt32 :=
  tryU32 offset "counter dump offset exceeds u32 capacity"

/-- The header; `headerSize` is the size of its type. -/
def encodeHeader (rowCount stringCount moduleNameStringId packageNameStringId : UInt32)
    (stringBytesLen : ℕ) (offsets : Offsets) : Except String CounterDumpRecordHeader := do
  let recordLen ← tryU32 offsets.recordLen "counter dump record length exceeds u32 capacity"
  let stringBytesLen ← tryU32 stringBytesLen "counter dump string bytes exceed u32 capacity"
  let stringOffsetsOffset ← headerOffset offsets.stringOffsets
  let stringBytesOffset ← headerOffset offsets.stringBytes
  let counterIdOffset ← headerOffset offsets.counterId
  let scopeOffset ← headerOffset offsets.scope
  let kindOffset ← headerOffset offsets.kind
  let siteKindOffset ← headerOffset offsets.siteKind
  let functionIdOffset ← headerOffset offsets.functionId
  let currentFunctionIdOffset ← headerOffset offsets.currentFunctionId
  let instrBlockLabelOffset ← headerOffset offsets.instrBlockLabel
  let instrIndexInBlockOffset ← headerOffset offsets.instrIndexInBlock
  let functionQualnameOffset ← headerOffset offsets.functionQualname
  let blockLabelOffset ← headerOffset offsets.blockLabel
  let valueOffset ← headerOffset offsets.value
  return {
    magic := counterDumpMagic
    version := counterDumpVersion
    headerSize := UInt16.ofNat headerLayout.size
    recordLen := recordLen
    rowCount := rowCount
    stringCount := stringCount
    stringBytesLen := stringBytesLen
    moduleNameStringId := moduleNameStringId
    packageNameStringId := packageNameStringId
    stringOffsetsOffset := stringOffsetsOffset
    stringBytesOffset := stringBytesOffset
    counterIdOffset := counterIdOffset
    scopeOffset := scopeOffset
    kindOffset := kindOffset
    siteKindOffset := siteKindOffset
    functionIdOffset := functionIdOffset
    currentFunctionIdOffset := currentFunctionIdOffset
    instrBlockLabelOffset := instrBlockLabelOffset
    instrIndexInBlockOffset := instrIndexInBlockOffset
    functionQualnameOffset := functionQualnameOffset
    blockLabelOffset := blockLabelOffset
    valueOffset := valueOffset }

/-! ## Writing -/

def writeBytes (dst : List UInt8) (offset : ℕ) (src : List UInt8) :
    Except String (List UInt8) :=
  if offset + src.length ≥ 18446744073709551616 then
    .error "counter dump byte range overflowed"
  else if offset + src.length ≤ dst.length then .ok (overwrite dst offset src)
  else .error "counter dump byte range is out of bounds"

def writeAll (dst : List UInt8) : List (ℕ × List UInt8) → Except String (List UInt8)
  | [] => .ok dst
  | write :: writes => do
    let dst ← writeBytes dst write.1 write.2
    writeAll dst writes

/-- The sections in the order in which they are written. -/
def sectionWrites (header : CounterDumpRecordHeader) (stringOffsets : List UInt32)
    (stringBytes : List UInt8) (columns : Columns) (offsets : Offsets) :
    List (ℕ × List UInt8) :=
  [(0, header.enc),
    (offsets.stringOffsets, u32.encAll stringOffsets),
    (offsets.stringBytes, stringBytes),
    (offsets.counterId, u32.encAll columns.counterId),
    (offsets.scope, u32.encAll columns.scope),
    (offsets.kind, u32.encAll columns.kind),
    (offsets.siteKind, u32.encAll columns.siteKind),
    (offsets.functionId, u64.encAll columns.functionId),
    (offsets.currentFunctionId, u64.encAll columns.currentFunctionId),
    (offsets.instrBlockLabel, u32.encAll columns.instrBlockLabel),
    (offsets.instrIndexInBlock, u32.encAll columns.instrIndexInBlock),
    (offsets.functionQualname, u32.encAll columns.functionQualname),
    (offsets.blockLabel, u32.encAll columns.blockLabel),
    (offsets.value, u64.encAll columns.value)]

/-- An empty package name counts as none. -/
def internPackage (table : StringTable) :
    Option String → Except String (UInt32 × StringTable)
  | some packageName =>
    if packageName ≠ "" then table.intern packageName else .ok (counterDumpNoneU32, table)
  | none => .ok (counterDumpNoneU32, table)

def CounterDumpRecord.encode (record : CounterDumpRecord) : Except String (List UInt8) := do
  let rowCount ← tryU32 record.rows.length "counter dump row count exceeds u32 capacity"
  let (moduleNameStringId, table) ← StringTable.empty.intern record.moduleName
  let (packageNameStringId, table) ← internPackage table record.packageName
  let (rows, table) ← encodeRows table record.rows
  let columns := Columns.ofRows rows
  let stringCount ←
    tryU32 table.strings.length "counter dump string count exceeds u32 capacity"
  let (moreOffsets, stringBytes) ← encodeStrings [] table.strings
  let stringOffsets := 0 :: moreOffsets
  let offsets := offsetsOf stringOffsets stringBytes columns
  let header ← encodeHeader rowCount stringCount moduleNameStringId packageNameStringId
    stringBytes.length offsets
  writeAll (List.replicate offsets.recordLen 0)
    (sectionWrites header stringOffsets stringBytes columns offsets)

end DietPython.Counters
