import DietPython.Counters.DumpParse

/-!
# Counter dumps are read back

1. `Interned` tables give identifiers that stay with their strings while the table grows.
2. The sections of an encoded record ascend, so that each is read back at its offset.
3. A round of the parser's loop gives back the columns, and rows give back the row.
4. `parse_encode` is for the records of a whole file.
-/

namespace DietPython.Counters

open ByteLayouts

theorem tryU32_eq_ok {value : ℕ} {message : String} {word : UInt32}
    (h : tryU32 value message = .ok word) : value < 4294967296 ∧ word.toNat = value := by
  unfold tryU32 at h
  split at h
  · rename_i hlt
    obtain rfl := Except.ok.inj h
    exact ⟨hlt, UInt32.toNat_ofNat_of_lt' hlt⟩
  · cases h

/-! ## Strings -/

/-- The string with an identifier. -/
def Means (strings : List String) (id : UInt32) (value : String) : Prop :=
  strings[id.toNat]? = some value

/-- A string, or the marker. -/
def MeansOptional (strings : List String) (id : UInt32) : Option String → Prop
  | some value => Means strings id value
  | none => id = counterDumpNoneU32

theorem Means.mono {strings more : List String} {id : UInt32} {value : String}
    (h : Means strings id value) (hmore : strings <+: more) : Means more id value := by
  obtain ⟨rest, rfl⟩ := hmore
  obtain ⟨hlt, -⟩ := List.getElem?_eq_some_iff.mp h
  unfold Means
  rw [List.getElem?_append_left hlt]
  exact h

theorem MeansOptional.mono {strings more : List String} {id : UInt32} {value : Option String}
    (h : MeansOptional strings id value) (hmore : strings <+: more) :
    MeansOptional more id value := by
  cases value with
  | some value => exact Means.mono h hmore
  | none => exact h

namespace StringTable

def Interned (table : StringTable) : Prop :=
  ∀ value id, table.ids value = some id → Means table.strings id value

theorem interned_empty : empty.Interned := fun _ _ h => (by cases h)

variable {table table' : StringTable} {id : UInt32}

theorem Interned.intern (h : table.Interned) {value : String}
    (hintern : table.intern value = .ok (id, table')) :
    table'.Interned ∧ table.strings <+: table'.strings ∧ Means table'.strings id value := by
  unfold StringTable.intern at hintern
  split at hintern
  · rename_i found hfound
    obtain ⟨rfl, rfl⟩ := Prod.mk.inj (Except.ok.inj hintern)
    exact ⟨h, List.prefix_rfl, h value found hfound⟩
  · obtain ⟨new, hnew, hresult⟩ := bind_eq_ok.mp hintern
    obtain ⟨rfl, rfl⟩ := Prod.mk.inj (Except.ok.inj hresult)
    obtain ⟨-, hnat⟩ := tryU32_eq_ok hnew
    have hmeans : Means (table.strings ++ [value]) new value := by
      unfold Means
      rw [hnat, List.getElem?_concat_length]
    refine ⟨fun other otherId hother => ?_, List.prefix_append _ _, hmeans⟩
    have hupdate : Function.update table.ids value (some new) other = some otherId := hother
    by_cases heq : other = value
    · subst heq
      rw [Function.update_self] at hupdate
      rw [← Option.some.inj hupdate]
      exact hmeans
    · rw [Function.update_of_ne heq] at hupdate
      exact (h other otherId hupdate).mono (List.prefix_append _ _)

theorem Interned.internOptional (h : table.Interned) {value : Option String}
    (hintern : table.internOptional value = .ok (id, table')) :
    table'.Interned ∧ table.strings <+: table'.strings ∧
      MeansOptional table'.strings id value := by
  cases value with
  | some value => exact h.intern hintern
  | none =>
    obtain ⟨rfl, rfl⟩ := Prod.mk.inj (Except.ok.inj hintern)
    exact ⟨h, List.prefix_rfl, rfl⟩

end StringTable

/-- What a row has become. -/
structure RowMeans (strings : List String) (row : CounterDumpRow) (encoded : EncodedRow) :
    Prop where
  counterId : encoded.counterId = row.counterId
  scope : Means strings encoded.scope row.scope
  kind : Means strings encoded.kind row.kind
  siteKind : Means strings encoded.siteKind row.siteKind
  functionId : encoded.functionId = (row.functionId.map FunctionId.packed).getD counterDumpNoneU64
  currentFunctionId : encoded.currentFunctionId =
    (row.currentFunctionId.map FunctionId.packed).getD counterDumpNoneU64
  instrBlockLabel : encoded.instrBlockLabel =
    (row.instrId.map InstrId.blockLabel).getD counterDumpNoneU32
  instrIndexInBlock : encoded.instrIndexInBlock =
    (row.instrId.map InstrId.instrIndexInBlock).getD counterDumpNoneU32
  functionQualname : MeansOptional strings encoded.functionQualname row.functionQualname
  blockLabel : MeansOptional strings encoded.blockLabel row.blockLabel
  value : encoded.value = row.value

theorem RowMeans.mono {strings more : List String} {row : CounterDumpRow} {encoded : EncodedRow}
    (h : RowMeans strings row encoded) (hmore : strings <+: more) : RowMeans more row encoded :=
  { h with
    scope := h.scope.mono hmore
    kind := h.kind.mono hmore
    siteKind := h.siteKind.mono hmore
    functionQualname := h.functionQualname.mono hmore
    blockLabel := h.blockLabel.mono hmore }

theorem encodeRow_eq_ok {table table' : StringTable} (h : table.Interned) {row : CounterDumpRow}
    {encoded : EncodedRow} (hrow : encodeRow table row = .ok (encoded, table')) :
    table'.Interned ∧ table.strings <+: table'.strings ∧
      RowMeans table'.strings row encoded := by
  obtain ⟨⟨scope, t₁⟩, h₁, hrow⟩ := bind_eq_ok.mp hrow
  obtain ⟨⟨kind, t₂⟩, h₂, hrow⟩ := bind_eq_ok.mp hrow
  obtain ⟨⟨siteKind, t₃⟩, h₃, hrow⟩ := bind_eq_ok.mp hrow
  obtain ⟨⟨functionQualname, t₄⟩, h₄, hrow⟩ := bind_eq_ok.mp hrow
  obtain ⟨⟨blockLabel, t₅⟩, h₅, hrow⟩ := bind_eq_ok.mp hrow
  obtain ⟨rfl, rfl⟩ := Prod.mk.inj (Except.ok.inj hrow)
  obtain ⟨i₁, p₁, m₁⟩ := h.intern h₁
  obtain ⟨i₂, p₂, m₂⟩ := i₁.intern h₂
  obtain ⟨i₃, p₃, m₃⟩ := i₂.intern h₃
  obtain ⟨i₄, p₄, m₄⟩ := i₃.internOptional h₄
  obtain ⟨i₅, p₅, m₅⟩ := i₄.internOptional h₅
  have p₃₅ := p₄.trans p₅
  have p₂₅ := p₃.trans p₃₅
  have p₁₅ := p₂.trans p₂₅
  exact ⟨i₅, p₁.trans p₁₅,
    { counterId := rfl
      scope := m₁.mono p₁₅
      kind := m₂.mono p₂₅
      siteKind := m₃.mono p₃₅
      functionId := rfl
      currentFunctionId := rfl
      instrBlockLabel := rfl
      instrIndexInBlock := rfl
      functionQualname := m₄.mono p₅
      blockLabel := m₅
      value := rfl }⟩

theorem encodeRows_eq_ok {table table' : StringTable} (h : table.Interned)
    {rows : List CounterDumpRow} {encoded : List EncodedRow}
    (hrows : encodeRows table rows = .ok (encoded, table')) :
    table'.Interned ∧ table.strings <+: table'.strings ∧
      List.Forall₂ (RowMeans table'.strings) rows encoded := by
  induction rows generalizing table encoded with
  | nil =>
    obtain ⟨rfl, rfl⟩ := Prod.mk.inj (Except.ok.inj hrows)
    exact ⟨h, List.prefix_rfl, .nil⟩
  | cons row rows ih =>
    obtain ⟨⟨first, t₁⟩, hfirst, hrows⟩ := bind_eq_ok.mp hrows
    obtain ⟨⟨rest, t₂⟩, hrest, hrows⟩ := bind_eq_ok.mp hrows
    obtain ⟨rfl, rfl⟩ := Prod.mk.inj (Except.ok.inj hrows)
    obtain ⟨hinterned, hprefix, hmeans⟩ := encodeRow_eq_ok h hfirst
    obtain ⟨hinterned', hprefix', hall⟩ := ih hinterned hrest
    exact ⟨hinterned', hprefix.trans hprefix', .cons (hmeans.mono hprefix') hall⟩

/-! ## Sections -/

theorem le_alignUp (offset align : ℕ) : offset ≤ alignUp offset align := by
  unfold alignUp
  split
  · exact Nat.le_refl _
  · exact Nat.le_add_right _ _

theorem alignUp_mod {align : ℕ} (h : 0 < align) (offset : ℕ) :
    alignUp offset align % align = 0 := by
  unfold alignUp
  split
  · assumption
  · have hlt := Nat.mod_lt offset h
    have hsum : offset + (align - offset % align) =
        align * (offset / align + 1) := by
      have hdiv := Nat.div_add_mod offset align
      rw [Nat.mul_succ]
      omega
    rw [hsum, Nat.mul_mod_right]

/-- All columns have one number for each row. -/
structure Columns.Rows (columns : Columns) (rowCount : ℕ) : Prop where
  counterId : columns.counterId.length = rowCount
  scope : columns.scope.length = rowCount
  kind : columns.kind.length = rowCount
  siteKind : columns.siteKind.length = rowCount
  functionId : columns.functionId.length = rowCount
  currentFunctionId : columns.currentFunctionId.length = rowCount
  instrBlockLabel : columns.instrBlockLabel.length = rowCount
  instrIndexInBlock : columns.instrIndexInBlock.length = rowCount
  functionQualname : columns.functionQualname.length = rowCount
  blockLabel : columns.blockLabel.length = rowCount
  value : columns.value.length = rowCount

theorem Columns.rows_ofRows (rows : List EncodedRow) : (Columns.ofRows rows).Rows rows.length where
  counterId := List.length_map _
  scope := List.length_map _
  kind := List.length_map _
  siteKind := List.length_map _
  functionId := List.length_map _
  currentFunctionId := List.length_map _
  instrBlockLabel := List.length_map _
  instrIndexInBlock := List.length_map _
  functionQualname := List.length_map _
  blockLabel := List.length_map _
  value := List.length_map _

/-- **The layout ascends**, from the header to the end of the record. -/
theorem ascending_sectionWrites (header : CounterDumpRecordHeader) (stringOffsets : List UInt32)
    (stringBytes : List UInt8) (columns : Columns) :
    Ascending (offsetsOf stringOffsets stringBytes columns).recordLen 0
      (sectionWrites header stringOffsets stringBytes columns
        (offsetsOf stringOffsets stringBytes columns)) := by
  unfold sectionWrites offsetsOf
  simp only [Ascending, Layout.encAll_length, CounterDumpRecordHeader.enc_length]
  refine ⟨Nat.le_refl _, ?_, Nat.le_refl _, le_alignUp _ _, Nat.le_refl _, Nat.le_refl _,
    Nat.le_refl _, le_alignUp _ _, Nat.le_refl _, Nat.le_refl _, Nat.le_refl _, Nat.le_refl _,
    Nat.le_refl _, le_alignUp _ _, le_alignUp _ _⟩
  decide

theorem writeAll_eq_ok {dst result : List UInt8} {writes : List (ℕ × List UInt8)}
    (h : writeAll dst writes = .ok result) : result = overwriteAll dst writes := by
  induction writes generalizing dst with
  | nil => exact (Except.ok.inj h).symm
  | cons write writes ih =>
    obtain ⟨next, hnext, hrest⟩ := bind_eq_ok.mp h
    unfold writeBytes at hnext
    split at hnext
    · cases hnext
    · split at hnext
      · rw [ih hrest, ← Except.ok.inj hnext]
        rfl
      · cases hnext

theorem headerOffset_eq_ok {offset : ℕ} {word : UInt32} (h : headerOffset offset = .ok word) :
    word.toNat = offset := (tryU32_eq_ok h).2

/-- What the header says about the record. -/
structure HeaderOf (header : CounterDumpRecordHeader)
    (rowCount stringCount moduleNameStringId packageNameStringId : UInt32) (stringBytesLen : ℕ)
    (offsets : Offsets) : Prop where
  magic : header.magic = counterDumpMagic
  version : header.version = counterDumpVersion
  headerSize : header.headerSize.toNat = headerLayout.size
  offsets : header.offsets = offsets
  rowCount : header.rowCount = rowCount
  stringCount : header.stringCount = stringCount
  stringBytesLen : header.stringBytesLen.toNat = stringBytesLen
  moduleNameStringId : header.moduleNameStringId = moduleNameStringId
  packageNameStringId : header.packageNameStringId = packageNameStringId

theorem encodeHeader_eq_ok
    {rowCount stringCount moduleNameStringId packageNameStringId : UInt32} {stringBytesLen : ℕ}
    {offsets : Offsets} {header : CounterDumpRecordHeader}
    (h : encodeHeader rowCount stringCount moduleNameStringId packageNameStringId stringBytesLen
      offsets = .ok header) :
    HeaderOf header rowCount stringCount moduleNameStringId packageNameStringId stringBytesLen
      offsets := by
  obtain ⟨recordLen, hrecordLen, h⟩ := bind_eq_ok.mp h
  obtain ⟨bytesLen, hbytesLen, h⟩ := bind_eq_ok.mp h
  obtain ⟨w₁, h₁, h⟩ := bind_eq_ok.mp h
  obtain ⟨w₂, h₂, h⟩ := bind_eq_ok.mp h
  obtain ⟨w₃, h₃, h⟩ := bind_eq_ok.mp h
  obtain ⟨w₄, h₄, h⟩ := bind_eq_ok.mp h
  obtain ⟨w₅, h₅, h⟩ := bind_eq_ok.mp h
  obtain ⟨w₆, h₆, h⟩ := bind_eq_ok.mp h
  obtain ⟨w₇, h₇, h⟩ := bind_eq_ok.mp h
  obtain ⟨w₈, h₈, h⟩ := bind_eq_ok.mp h
  obtain ⟨w₉, h₉, h⟩ := bind_eq_ok.mp h
  obtain ⟨w₁₀, h₁₀, h⟩ := bind_eq_ok.mp h
  obtain ⟨w₁₁, h₁₁, h⟩ := bind_eq_ok.mp h
  obtain ⟨w₁₂, h₁₂, h⟩ := bind_eq_ok.mp h
  obtain ⟨w₁₃, h₁₃, h⟩ := bind_eq_ok.mp h
  obtain rfl := Except.ok.inj h
  refine ⟨rfl, rfl, rfl, ?_, rfl, rfl, (tryU32_eq_ok hbytesLen).2, rfl, rfl⟩
  cases offsets
  simp only [CounterDumpRecordHeader.offsets, Offsets.mk.injEq]
  exact ⟨headerOffset_eq_ok h₁, headerOffset_eq_ok h₂, headerOffset_eq_ok h₃,
    headerOffset_eq_ok h₄, headerOffset_eq_ok h₅, headerOffset_eq_ok h₆, headerOffset_eq_ok h₇,
    headerOffset_eq_ok h₈, headerOffset_eq_ok h₉, headerOffset_eq_ok h₁₀, headerOffset_eq_ok h₁₁,
    headerOffset_eq_ok h₁₂, headerOffset_eq_ok h₁₃, (tryU32_eq_ok hrecordLen).2⟩

/-! ## Encoded records -/

/-- The offsets of the strings in their bytes. -/
structure StringOffsets (strings : List String) (offsets : List UInt32) (bytes : List UInt8) :
    Prop where
  length : offsets.length = strings.length + 1
  bytes : bytes = strings.flatMap stringBytesOf
  starts : ∀ count, count ≤ strings.length →
    (offsets[count]?.map UInt32.toNat) = some ((strings.take count).flatMap stringBytesOf).length

theorem encodeStrings_eq_ok {before bytes : List UInt8} {strings : List String}
    {offsets : List UInt32} (h : encodeStrings before strings = .ok (offsets, bytes)) :
    offsets.length = strings.length ∧ bytes = before ++ strings.flatMap stringBytesOf ∧
      ∀ count, count < strings.length → (offsets[count]?.map UInt32.toNat) =
        some (before ++ (strings.take (count + 1)).flatMap stringBytesOf).length := by
  induction strings generalizing before offsets with
  | nil =>
    obtain ⟨rfl, rfl⟩ := Prod.mk.inj (Except.ok.inj h)
    exact ⟨rfl, (List.append_nil _).symm, fun _ hcount => absurd hcount (Nat.not_lt_zero _)⟩
  | cons value strings ih =>
    obtain ⟨offset, hoffset, h⟩ := bind_eq_ok.mp h
    obtain ⟨⟨rest, bytes'⟩, hrest, h⟩ := bind_eq_ok.mp h
    obtain ⟨rfl, rfl⟩ := Prod.mk.inj (Except.ok.inj h)
    obtain ⟨hlen, hbytes, hat⟩ := ih hrest
    refine ⟨congrArg (· + 1) hlen, ?_, fun count hcount => ?_⟩
    · rw [hbytes, List.append_assoc, List.flatMap_cons]
    · cases count with
      | zero =>
        rw [List.getElem?_cons_zero, Option.map_some, (tryU32_eq_ok hoffset).2]
        rw [List.take_succ_cons, List.take_zero, List.flatMap_cons, List.flatMap_nil,
          List.append_nil]
      | succ count =>
        rw [List.getElem?_cons_succ, hat count (Nat.lt_of_succ_lt_succ hcount),
          List.take_succ_cons, List.flatMap_cons, List.append_assoc]

theorem stringOffsets_of_encodeStrings {bytes : List UInt8} {strings : List String}
    {offsets : List UInt32} (h : encodeStrings [] strings = .ok (offsets, bytes)) :
    StringOffsets strings (0 :: offsets) bytes := by
  obtain ⟨hlen, hbytes, hat⟩ := encodeStrings_eq_ok h
  refine ⟨congrArg (· + 1) hlen, hbytes, fun count hcount => ?_⟩
  cases count with
  | zero => rfl
  | succ count =>
    rw [List.getElem?_cons_succ, hat count hcount, List.nil_append]

/-- The bytes of a record, and what has gone into them. -/
structure Encodes (record : CounterDumpRecord) (bytes : List UInt8)
    (header : CounterDumpRecordHeader) (strings : List String) (stringOffsets : List UInt32)
    (stringBytes : List UInt8) (rows : List EncodedRow) : Prop where
  headed : HeaderOf header (UInt32.ofNat rows.length) (UInt32.ofNat strings.length)
    header.moduleNameStringId header.packageNameStringId stringBytes.length
    (offsetsOf stringOffsets stringBytes (Columns.ofRows rows))
  rowCount_lt : rows.length < 4294967296
  stringCount_lt : strings.length < 4294967296
  table : StringOffsets strings stringOffsets stringBytes
  means : List.Forall₂ (RowMeans strings) record.rows rows
  moduleName : Means strings header.moduleNameStringId record.moduleName
  packageName : record.packageName ≠ some "" →
    MeansOptional strings header.packageNameStringId record.packageName
  length : bytes.length = (offsetsOf stringOffsets stringBytes (Columns.ofRows rows)).recordLen
  sections : ∀ write ∈ sectionWrites header stringOffsets stringBytes (Columns.ofRows rows)
    (offsetsOf stringOffsets stringBytes (Columns.ofRows rows)),
    slice bytes write.1 write.2.length = write.2

theorem tryU32_eq_ofNat {value : ℕ} {message : String} {word : UInt32}
    (h : tryU32 value message = .ok word) : word = UInt32.ofNat value := by
  unfold tryU32 at h
  split at h
  · exact (Except.ok.inj h).symm
  · cases h

theorem internPackage_eq_ok {table table' : StringTable} (h : table.Interned)
    {packageName : Option String} {id : UInt32}
    (hpackage : internPackage table packageName = .ok (id, table')) :
    table'.Interned ∧ table.strings <+: table'.strings ∧
      (packageName ≠ some "" → MeansOptional table'.strings id packageName) := by
  cases packageName with
  | none =>
    obtain ⟨rfl, rfl⟩ := Prod.mk.inj (Except.ok.inj hpackage)
    exact ⟨h, List.prefix_rfl, fun _ => rfl⟩
  | some value =>
    change (if value ≠ "" then table.intern value else .ok (counterDumpNoneU32, table)) = _
      at hpackage
    split at hpackage
    · obtain ⟨hinterned, hprefix, hmeans⟩ := h.intern hpackage
      exact ⟨hinterned, hprefix, fun _ => hmeans⟩
    · rename_i hempty
      obtain ⟨rfl, rfl⟩ := Prod.mk.inj (Except.ok.inj hpackage)
      exact ⟨h, List.prefix_rfl, fun hne => absurd (congrArg some (not_not.mp hempty)) hne⟩

/-- **What `encode` writes.** -/
theorem encode_eq_ok {record : CounterDumpRecord} {bytes : List UInt8}
    (h : record.encode = .ok bytes) :
    ∃ header strings stringOffsets stringBytes rows,
      Encodes record bytes header strings stringOffsets stringBytes rows := by
  obtain ⟨rowCount, hrowCount, h⟩ := bind_eq_ok.mp h
  obtain ⟨⟨moduleId, t₁⟩, hmodule, h⟩ := bind_eq_ok.mp h
  obtain ⟨⟨packageId, t₂⟩, hpackage, h⟩ := bind_eq_ok.mp h
  obtain ⟨⟨rows, table⟩, hrows, h⟩ := bind_eq_ok.mp h
  obtain ⟨stringCount, hstringCount, h⟩ := bind_eq_ok.mp h
  obtain ⟨⟨moreOffsets, stringBytes⟩, hstrings, h⟩ := bind_eq_ok.mp h
  obtain ⟨header, hheader, hwrites⟩ := bind_eq_ok.mp h
  obtain ⟨i₁, -, m₁⟩ := StringTable.interned_empty.intern hmodule
  obtain ⟨i₂, p₂, m₂⟩ := internPackage_eq_ok i₁ hpackage
  obtain ⟨-, p₃, hmeans⟩ := encodeRows_eq_ok i₂ hrows
  have hof := encodeHeader_eq_ok hheader
  have hcount : record.rows.length = rows.length := hmeans.length_eq
  have hzeros : (List.replicate (offsetsOf (0 :: moreOffsets) stringBytes
      (Columns.ofRows rows)).recordLen (0 : UInt8)).length =
      (offsetsOf (0 :: moreOffsets) stringBytes (Columns.ofRows rows)).recordLen :=
    List.length_replicate
  have hascending := ascending_sectionWrites header (0 :: moreOffsets) stringBytes
    (Columns.ofRows rows)
  have hbytes := writeAll_eq_ok hwrites
  rw [← hzeros] at hascending
  refine ⟨header, table.strings, 0 :: moreOffsets, stringBytes, rows, ?_,
    (hcount ▸ (tryU32_eq_ok hrowCount).1), (tryU32_eq_ok hstringCount).1,
    stringOffsets_of_encodeStrings hstrings, hmeans, ?_, ?_, ?_, ?_⟩
  · rw [← hcount, ← tryU32_eq_ofNat hrowCount, ← tryU32_eq_ofNat hstringCount]
    rw [← hof.moduleNameStringId, ← hof.packageNameStringId] at hof
    exact hof
  · rw [hof.moduleNameStringId]
    exact m₁.mono (p₂.trans p₃)
  · intro hne
    rw [hof.packageNameStringId]
    exact (m₂ hne).mono p₃
  · rw [hbytes, overwriteAll_length hascending, hzeros]
  · intro write hwrite
    rw [hbytes]
    exact slice_overwriteAll hascending hwrite

/-! ## Parsing an encoded record -/

/-- Every section begins where its values may lie. -/
theorem offsetsOf_aligned (stringOffsets : List UInt32) (stringBytes : List UInt8)
    (columns : Columns) :
    let offsets := offsetsOf stringOffsets stringBytes columns
    (∀ start ∈ [offsets.stringOffsets, offsets.counterId, offsets.scope, offsets.kind,
      offsets.siteKind, offsets.instrBlockLabel, offsets.instrIndexInBlock,
      offsets.functionQualname, offsets.blockLabel], start % 4 = 0) ∧
    ∀ start ∈ [offsets.functionId, offsets.currentFunctionId, offsets.value, offsets.recordLen],
      start % 8 = 0 := by
  have h4 : ∀ offset, alignUp offset 4 % 4 = 0 := alignUp_mod (by decide)
  have h8 : ∀ offset, alignUp offset 8 % 8 = 0 := alignUp_mod (by decide)
  have hnarrow : u32.size = 4 := rfl
  have hwide : u64.size = 8 := rfl
  simp only [offsetsOf, hnarrow, hwide, List.forall_mem_cons, List.not_mem_nil, false_implies,
    implies_true, and_true]
  have h₁ := h4 headerLayout.size
  have h₂ := h4 (alignUp headerLayout.size 4 + stringOffsets.length * 4 + stringBytes.length)
  generalize alignUp (alignUp headerLayout.size 4 + stringOffsets.length * 4 + stringBytes.length)
    4 = counterId at *
  have h₃ := h8 (counterId + columns.counterId.length * 4 + columns.scope.length * 4 +
    columns.kind.length * 4 + columns.siteKind.length * 4)
  generalize alignUp (counterId + columns.counterId.length * 4 + columns.scope.length * 4 +
    columns.kind.length * 4 + columns.siteKind.length * 4) 8 = functionId at *
  have h₄ := h8 (functionId + columns.functionId.length * 8 +
    columns.currentFunctionId.length * 8 + columns.instrBlockLabel.length * 4 +
    columns.instrIndexInBlock.length * 4 + columns.functionQualname.length * 4 +
    columns.blockLabel.length * 4)
  generalize alignUp (functionId + columns.functionId.length * 8 +
    columns.currentFunctionId.length * 8 + columns.instrBlockLabel.length * 4 +
    columns.instrIndexInBlock.length * 4 + columns.functionQualname.length * 4 +
    columns.blockLabel.length * 4) 8 = value at *
  have h₅ := h8 (value + columns.value.length * 8)
  omega

theorem isNondecreasing_of_ascending {stop start : ℕ} {writes : List (ℕ × List UInt8)}
    (h : Ascending stop start writes) :
    isNondecreasing (start :: (writes.map Prod.fst ++ [stop])) = true := by
  induction writes generalizing start with
  | nil =>
    have hle : start ≤ stop := h
    show (decide (start ≤ stop) && true) = true
    rw [Bool.and_true]
    exact decide_eq_true hle
  | cons write writes ih =>
    obtain ⟨hstart, hrest⟩ := h
    have hnext := ih hrest
    have hbelow : isNondecreasing (write.1 :: (writes.map Prod.fst ++ [stop])) = true := by
      cases writes with
      | nil =>
        have hle : write.1 + write.2.length ≤ stop := hrest
        show (decide (write.1 ≤ stop) && true) = true
        rw [Bool.and_true]
        exact decide_eq_true (by omega)
      | cons second writes =>
        have hle : write.1 + write.2.length ≤ second.1 := hrest.1
        have htail := (Bool.and_eq_true_iff.mp hnext).2
        exact Bool.and_eq_true_iff.mpr ⟨decide_eq_true (by omega), htail⟩
    exact Bool.and_eq_true_iff.mpr ⟨decide_eq_true hstart, hbelow⟩

/-- A column that lies in the record as it was encoded. -/
theorem castSlice_column {T : Type} {layout : Layout T} {record : ByteSlice} {offset : ℕ}
    {values : List T}
    (hread : slice record.bytes offset (layout.encAll values).length = layout.encAll values)
    (hin : offset + (layout.encAll values).length ≤ record.len)
    (halign : (record.addr + offset) % layout.align = 0) {count : ℕ}
    (hcount : values.length = count) : castSlice layout record offset count = .ok values := by
  subst hcount
  rw [layout.encAll_length] at hread hin
  rw [castSlice_of_le layout hin halign, hread, layout.decAll_encAll]

section ParseEncoded

variable {record : CounterDumpRecord} {bytes : List UInt8} {header : CounterDumpRecordHeader}
  {strings : List String} {stringOffsets : List UInt32} {stringBytes : List UInt8}
  {rows : List EncodedRow}

theorem StringOffsets.check (h : StringOffsets strings stringOffsets stringBytes)
    {part : ByteSlice} (hpart : part.bytes = stringBytes) (hlt : stringBytes.length < 4294967296)
    (offset : ℕ) : checkStringOffsets stringOffsets part offset = .ok () := by
  have hlen : part.len = stringBytes.length := congrArg List.length hpart
  have hfirst := h.starts 0 (Nat.zero_le _)
  have hlast := h.starts strings.length (Nat.le_refl _)
  rw [List.take_length, ← h.bytes] at hlast
  have hhead : stringOffsets.head?.getD 0 = 0 := by
    rw [List.head?_eq_getElem?]
    obtain ⟨word, hword, hzero⟩ := Option.map_eq_some_iff.mp hfirst
    rw [hword, Option.getD_some]
    exact UInt32.toNat_inj.mp hzero
  have hend : (stringOffsets.getLast?.getD 0).toNat = stringBytes.length := by
    rw [List.getLast?_eq_getElem?, h.length, Nat.add_sub_cancel]
    obtain ⟨word, hword, hnat⟩ := Option.map_eq_some_iff.mp hlast
    rw [hword, Option.getD_some, hnat]
  refine bind_eq_ok.mpr ⟨(), ensure_eq_ok.mpr hhead, bind_eq_ok.mpr ⟨(), ?_, ?_⟩⟩
  · exact ensure_eq_ok.mpr (by omega)
  · exact ensure_eq_ok.mpr (by omega)

/-- The section of a write is inside the record and is read back. -/
theorem Encodes.read (h : Encodes record bytes header strings stringOffsets stringBytes rows)
    {write : ℕ × List UInt8}
    (hwrite : write ∈ sectionWrites header stringOffsets stringBytes (Columns.ofRows rows)
      (offsetsOf stringOffsets stringBytes (Columns.ofRows rows))) :
    slice bytes write.1 write.2.length = write.2 ∧ write.1 + write.2.length ≤ bytes.length := by
  refine ⟨h.sections write hwrite, ?_⟩
  rw [h.length]
  exact (ascending_sectionWrites header stringOffsets stringBytes _).end_le hwrite

theorem Encodes.length_mod
    (h : Encodes record bytes header strings stringOffsets stringBytes rows) :
    bytes.length % 8 = 0 := by
  obtain ⟨-, h8⟩ := offsetsOf_aligned stringOffsets stringBytes (Columns.ofRows rows)
  rw [h.length]
  exact h8 _ (by simp only [List.mem_cons, true_or, or_true])

theorem Encodes.readHeader (h : Encodes record bytes header strings stringOffsets stringBytes rows)
    {remaining : ByteSlice} {rest : List UInt8} (hbytes : remaining.bytes = bytes ++ rest)
    (halign : remaining.addr % 8 = 0) (offset : ℕ) :
    readHeader remaining offset = .ok header := by
  obtain ⟨hread, hin⟩ := h.read (List.mem_cons_self)
  change slice bytes 0 header.enc.length = header.enc at hread
  change 0 + header.enc.length ≤ bytes.length at hin
  have henc := header.enc_length
  have hsize : headerLayout.size = 88 := rfl
  have hlen : remaining.len = bytes.length + rest.length := by
    rw [ByteSlice.len, hbytes, List.length_append]
  have hcast : castRef headerLayout remaining 0 = .ok header := by
    rw [castRef_of_le headerLayout (by omega) (show remaining.addr % 4 = 0 by omega), hbytes,
      slice_append_left rest (by omega), hsize, ← henc]
    exact congrArg _ ((congrArg headerLayout.dec hread).trans (headerLayout.dec_enc header))
  have hrecordLen : header.recordLen.toNat = bytes.length := by
    rw [h.length, ← h.headed.offsets]
    rfl
  have haligned := h.length_mod
  refine bind_eq_ok.mpr ⟨header, hcast, bind_eq_ok.mpr ⟨(), ensure_eq_ok.mpr h.headed.magic, ?_⟩⟩
  refine bind_eq_ok.mpr ⟨(), ensure_eq_ok.mpr h.headed.version, bind_eq_ok.mpr ⟨(), ?_, ?_⟩⟩
  · exact ensure_eq_ok.mpr h.headed.headerSize
  · exact bind_eq_ok.mpr ⟨(), ensure_eq_ok.mpr (by omega), rfl⟩

theorem Encodes.readColumns
    (h : Encodes record bytes header strings stringOffsets stringBytes rows)
    {part : ByteSlice} (hbytes : part.bytes = bytes) (halign : part.addr % 8 = 0) :
    readColumns part (offsetsOf stringOffsets stringBytes (Columns.ofRows rows)) rows.length =
      .ok (Columns.ofRows rows) := by
  obtain ⟨h4, h8⟩ := offsetsOf_aligned stringOffsets stringBytes (Columns.ofRows rows)
  simp only [List.forall_mem_cons, List.not_mem_nil, false_implies, implies_true, and_true]
    at h4 h8
  have hrows := Columns.rows_ofRows rows
  have hlen : part.len = bytes.length := congrArg List.length hbytes
  have hread : ∀ write ∈ sectionWrites header stringOffsets stringBytes (Columns.ofRows rows)
      (offsetsOf stringOffsets stringBytes (Columns.ofRows rows)),
      slice part.bytes write.1 write.2.length = write.2 ∧ write.1 + write.2.length ≤ part.len := by
    intro write hwrite
    rw [hbytes, hlen]
    exact h.read hwrite
  unfold sectionWrites at hread
  simp only [List.forall_mem_cons, List.not_mem_nil, false_implies, implies_true, and_true]
    at hread
  obtain ⟨-, -, -, r₁, r₂, r₃, r₄, r₅, r₆, r₇, r₈, r₉, r₁₀, r₁₁⟩ := hread
  obtain ⟨-, a₁, a₂, a₃, a₄, a₇, a₈, a₉, a₁₀⟩ := h4
  obtain ⟨a₅, a₆, a₁₁, -⟩ := h8
  have h32 : ∀ start, start % 4 = 0 → (part.addr + start) % u32.align = 0 := by
    intro start hstart
    show (part.addr + start) % 4 = 0
    omega
  have h64 : ∀ start, start % 8 = 0 → (part.addr + start) % u64.align = 0 := by
    intro start hstart
    show (part.addr + start) % 8 = 0
    omega
  refine bind_eq_ok.mpr ⟨_, castSlice_column r₁.1 r₁.2 (h32 _ a₁) hrows.counterId, ?_⟩
  refine bind_eq_ok.mpr ⟨_, castSlice_column r₂.1 r₂.2 (h32 _ a₂) hrows.scope, ?_⟩
  refine bind_eq_ok.mpr ⟨_, castSlice_column r₃.1 r₃.2 (h32 _ a₃) hrows.kind, ?_⟩
  refine bind_eq_ok.mpr ⟨_, castSlice_column r₄.1 r₄.2 (h32 _ a₄) hrows.siteKind, ?_⟩
  refine bind_eq_ok.mpr ⟨_, castSlice_column r₅.1 r₅.2 (h64 _ a₅) hrows.functionId, ?_⟩
  refine bind_eq_ok.mpr ⟨_, castSlice_column r₆.1 r₆.2 (h64 _ a₆) hrows.currentFunctionId, ?_⟩
  refine bind_eq_ok.mpr ⟨_, castSlice_column r₇.1 r₇.2 (h32 _ a₇) hrows.instrBlockLabel, ?_⟩
  refine bind_eq_ok.mpr ⟨_, castSlice_column r₈.1 r₈.2 (h32 _ a₈) hrows.instrIndexInBlock, ?_⟩
  refine bind_eq_ok.mpr ⟨_, castSlice_column r₉.1 r₉.2 (h32 _ a₉) hrows.functionQualname, ?_⟩
  refine bind_eq_ok.mpr ⟨_, castSlice_column r₁₀.1 r₁₀.2 (h32 _ a₁₀) hrows.blockLabel, ?_⟩
  exact bind_eq_ok.mpr ⟨_, castSlice_column r₁₁.1 r₁₁.2 (h64 _ a₁₁) hrows.value, rfl⟩

/-- **One round of the loop.** -/
theorem Encodes.parseRecord
    (h : Encodes record bytes header strings stringOffsets stringBytes rows)
    {remaining : ByteSlice} {rest : List UInt8} (hbytes : remaining.bytes = bytes ++ rest)
    (halign : remaining.addr % 8 = 0) (offset : ℕ) :
    ∃ part : ByteSlice, part.bytes = stringBytes ∧
      parseRecord remaining offset =
        .ok ⟨header, stringOffsets, part, Columns.ofRows rows⟩ := by
  have hoffsets := h.headed.offsets
  have hlen : remaining.len = bytes.length + rest.length := by
    rw [ByteSlice.len, hbytes, List.length_append]
  have hrecordLen : header.offsets.recordLen = bytes.length := by rw [hoffsets, h.length]
  obtain ⟨whole, hwhole⟩ := ByteSlice.get_of_le (Nat.zero_le header.offsets.recordLen)
    (show header.offsets.recordLen ≤ remaining.len by omega)
  obtain ⟨-, -, haddr, hwholeLen, hwholeBytes⟩ := ByteSlice.get_eq_some hwhole
  rw [Nat.sub_zero, hrecordLen, hbytes, slice_append_left rest (by omega), slice_all]
    at hwholeBytes
  have hwholeAlign : whole.addr % 8 = 0 := by omega
  have hordered : isNondecreasing (header.offsets.starts header.headerSize.toNat) = true := by
    rw [h.headed.headerSize, hoffsets]
    have hascending := (ascending_sectionWrites header stringOffsets stringBytes
      (Columns.ofRows rows)).2
    rw [Nat.zero_add, header.enc_length] at hascending
    exact isNondecreasing_of_ascending hascending
  have hcount : header.stringCount.toNat = strings.length := by
    rw [h.headed.stringCount]
    exact UInt32.toNat_ofNat_of_lt' h.stringCount_lt
  have hrowCount : header.rowCount.toNat = rows.length := by
    rw [h.headed.rowCount]
    exact UInt32.toNat_ofNat_of_lt' h.rowCount_lt
  have hstringsLt : stringBytes.length < 4294967296 := by
    rw [← h.headed.stringBytesLen]
    exact header.stringBytesLen.toNat_lt
  obtain ⟨h4, -⟩ := offsetsOf_aligned stringOffsets stringBytes (Columns.ofRows rows)
  have hwholeSize : whole.len = bytes.length := congrArg List.length hwholeBytes
  have hoffsetsCast : castSlice u32 whole header.offsets.stringOffsets (strings.length + 1) =
      .ok stringOffsets := by
    rw [hoffsets]
    obtain ⟨hread, hin⟩ := h.read (List.mem_cons_of_mem _ List.mem_cons_self)
    rw [← hwholeBytes] at hread
    rw [← hwholeSize] at hin
    have hstart := h4 _ List.mem_cons_self
    refine castSlice_column hread hin ?_ h.table.length
    show (whole.addr + _) % 4 = 0
    omega
  obtain ⟨hread, hin⟩ := h.read
    (List.mem_cons_of_mem _ (List.mem_cons_of_mem _ List.mem_cons_self))
  have hmax := whole.len_le
  have hwholeLenEq : whole.len = whole.bytes.length := rfl
  obtain ⟨part, hpart⟩ := ByteSlice.get_of_le
    (Nat.le_add_right header.offsets.stringBytes header.stringBytesLen.toNat)
    (show header.offsets.stringBytes + header.stringBytesLen.toNat ≤ whole.len by
      rw [hoffsets, h.headed.stringBytesLen, hwholeSize]
      exact hin)
  obtain ⟨-, hpartEnd, -, -, hpartBytes⟩ := ByteSlice.get_eq_some hpart
  have hpartEq : part.bytes = stringBytes := by
    rw [hpartBytes, Nat.add_sub_cancel_left, hwholeBytes, hoffsets, h.headed.stringBytesLen]
    exact hread
  refine ⟨part, hpartEq, ?_⟩
  refine bind_eq_ok.mpr ⟨header, h.readHeader hbytes halign offset, ?_⟩
  refine bind_eq_ok.mpr ⟨whole, failWith_eq_ok.mpr hwhole, ?_⟩
  refine bind_eq_ok.mpr ⟨(), ensure_eq_ok.mpr hordered, ?_⟩
  have hcountLt := h.stringCount_lt
  refine bind_eq_ok.mpr ⟨_, addUsize_of_lt (by omega), ?_⟩
  rw [hcount]
  refine bind_eq_ok.mpr ⟨stringOffsets, hoffsetsCast, ?_⟩
  refine bind_eq_ok.mpr ⟨_, addUsize_of_lt (by omega), ?_⟩
  refine bind_eq_ok.mpr ⟨part, failWith_eq_ok.mpr hpart, ?_⟩
  rw [hrowCount, hoffsets]
  refine bind_eq_ok.mpr ⟨_, h.readColumns hwholeBytes hwholeAlign, ?_⟩
  exact bind_eq_ok.mpr ⟨(), h.table.check hpartEq hstringsLt offset, rfl⟩

end ParseEncoded

/-! ## Rows of a view -/

/-- The view of an encoded record. -/
def Views (record : CounterDumpRecord) (view : CounterDumpRecordView) : Prop :=
  ∃ bytes strings rows, view.columns = Columns.ofRows rows ∧
    Encodes record bytes view.header strings view.stringOffsets view.stringBytes.bytes rows

/-- No identifier of the row is a marker. -/
structure CounterDumpRow.Unmarked (row : CounterDumpRow) : Prop where
  functionId : ∀ id ∈ row.functionId, id.packed ≠ counterDumpNoneU64
  currentFunctionId : ∀ id ∈ row.currentFunctionId, id.packed ≠ counterDumpNoneU64
  instrId : ∀ id ∈ row.instrId,
    id.blockLabel ≠ counterDumpNoneU32 ∧ id.instrIndexInBlock ≠ counterDumpNoneU32

/-- The package name is absent or not empty, and no identifier of a row is a marker. -/
structure CounterDumpRecord.Unmarked (record : CounterDumpRecord) : Prop where
  packageName : record.packageName ≠ some ""
  rows : ∀ row ∈ record.rows, row.Unmarked

theorem fromUtf8_stringBytesOf (value : String) : fromUtf8 (stringBytesOf value) = some value := by
  have hbytes : (⟨(stringBytesOf value).toArray⟩ : ByteArray) = value.toByteArray := by
    unfold stringBytesOf
    rw [Array.toArray_toList]
  rw [fromUtf8, hbytes, String.fromUTF8?, dif_pos value.isValidUTF8]
  rfl

section RowsOfView

variable (utf8Error : List UInt8 → String) {view : CounterDumpRecordView} {strings : List String}

theorem resolveStringId_of_means
    (h : StringOffsets strings view.stringOffsets view.stringBytes.bytes) {id : UInt32}
    {value : String} (hmeans : Means strings id value) :
    view.resolveStringId utf8Error id = .ok value := by
  obtain ⟨hlt, hvalue⟩ := List.getElem?_eq_some_iff.mp hmeans
  obtain ⟨start, hstart, hstartNat⟩ :=
    Option.map_eq_some_iff.mp (h.starts id.toNat (Nat.le_of_lt hlt))
  obtain ⟨stop, hstop, hstopNat⟩ := Option.map_eq_some_iff.mp (h.starts (id.toNat + 1) hlt)
  have htake : strings.take (id.toNat + 1) = strings.take id.toNat ++ [value] := by
    rw [List.take_succ_eq_append_getElem hlt, hvalue]
  rw [htake, List.flatMap_append, List.flatMap_singleton, List.length_append] at hstopNat
  have hbytes : view.stringBytes.bytes =
      (strings.take id.toNat).flatMap stringBytesOf ++
        (stringBytesOf value ++ (strings.drop (id.toNat + 1)).flatMap stringBytesOf) := by
    rw [h.bytes, ← List.append_assoc, ← List.flatMap_singleton stringBytesOf value,
      ← List.flatMap_append, ← htake, ← List.flatMap_append, List.take_append_drop]
  have hlen : view.stringBytes.len = ((strings.take id.toNat).flatMap stringBytesOf).length +
      ((stringBytesOf value).length +
        ((strings.drop (id.toNat + 1)).flatMap stringBytesOf).length) := by
    rw [ByteSlice.len, hbytes, List.length_append, List.length_append]
  obtain ⟨part, hpart⟩ := ByteSlice.get_of_le (show start.toNat ≤ stop.toNat by omega)
    (show stop.toNat ≤ view.stringBytes.len by omega)
  obtain ⟨-, -, -, -, hpartBytes⟩ := ByteSlice.get_eq_some hpart
  have hpartEq : part.bytes = stringBytesOf value := by
    rw [hpartBytes, hstopNat, hstartNat, hbytes, Nat.add_sub_cancel_left, slice_append_right,
      List.take_left' rfl]
  have hidLt : id.toNat < 4294967296 := id.toNat_lt
  refine bind_eq_ok.mpr ⟨start, failWith_eq_ok.mpr hstart, ?_⟩
  refine bind_eq_ok.mpr ⟨_, addUsize_of_lt (by omega), ?_⟩
  refine bind_eq_ok.mpr ⟨stop, failWith_eq_ok.mpr hstop, ?_⟩
  refine bind_eq_ok.mpr ⟨part, failWith_eq_ok.mpr hpart, failWith_eq_ok.mpr ?_⟩
  rw [hpartEq, fromUtf8_stringBytesOf]

/-- An identifier of a string is not the marker, since the number of strings fits in `u32`. -/
theorem Means.ne_none {id : UInt32} {value : String} (h : Means strings id value)
    (hlt : strings.length < 4294967296) : id ≠ counterDumpNoneU32 := by
  rintro rfl
  obtain ⟨hid, -⟩ := List.getElem?_eq_some_iff.mp h
  have hnat : counterDumpNoneU32.toNat = 4294967295 := rfl
  omega

theorem resolveOptionalStringId_of_means
    (h : StringOffsets strings view.stringOffsets view.stringBytes.bytes)
    (hlt : strings.length < 4294967296) {id : UInt32} {value : Option String}
    (hmeans : MeansOptional strings id value) :
    view.resolveOptionalStringId utf8Error id = .ok value := by
  unfold CounterDumpRecordView.resolveOptionalStringId
  cases value with
  | none => exact if_pos hmeans
  | some value =>
    rw [if_neg (Means.ne_none hmeans hlt), resolveStringId_of_means utf8Error h hmeans]
    rfl

theorem functionIdFromPacked_of_unmarked {id : Option FunctionId}
    (h : ∀ found ∈ id, found.packed ≠ counterDumpNoneU64) :
    functionIdFromPacked ((id.map FunctionId.packed).getD counterDumpNoneU64) = id := by
  unfold functionIdFromPacked
  cases id with
  | none => exact if_neg fun hne => hne rfl
  | some id => exact if_pos (h id rfl)

theorem indexed_of_getElem? {α : Type} {values : List α} {index : ℕ} {value : α}
    (h : values[index]? = some value) : indexed values index = .ok value := by
  rw [indexed, h]

theorem indexed_column {α : Type} {rows : List EncodedRow} {index : ℕ} {encoded : EncodedRow}
    (h : rows[index]? = some encoded) (column : EncodedRow → α) :
    indexed (rows.map column) index = .ok (column encoded) := by
  refine indexed_of_getElem? ?_
  rw [List.getElem?_map, h]
  rfl

theorem instrId_of_unmarked {rows : List EncodedRow} (hcolumns : view.columns = Columns.ofRows rows)
    {index : ℕ} {encoded : EncodedRow} (hencoded : rows[index]? = some encoded)
    {row : CounterDumpRow} (hmeans : RowMeans strings row encoded) (hrow : row.Unmarked) :
    view.instrId index = .ok row.instrId := by
  have hunmarked := hrow.instrId
  have hlabel := hmeans.instrBlockLabel
  have hinstr := hmeans.instrIndexInBlock
  rw [CounterDumpRecordView.instrId, hcolumns]
  refine bind_eq_ok.mpr ⟨_, indexed_column hencoded EncodedRow.instrBlockLabel, ?_⟩
  cases hid : row.instrId with
  | none =>
    rw [hid] at hlabel
    exact if_pos hlabel
  | some id =>
    rw [hid] at hlabel hinstr
    obtain ⟨hne, hne'⟩ := hunmarked id hid
    have hlabel : encoded.instrBlockLabel = id.blockLabel := hlabel
    have hinstr : encoded.instrIndexInBlock = id.instrIndexInBlock := hinstr
    rw [if_neg (by rw [hlabel]; exact hne)]
    refine bind_eq_ok.mpr ⟨_, indexed_column hencoded EncodedRow.instrIndexInBlock, ?_⟩
    rw [if_neg (by rw [hinstr]; exact hne'), blockLabelFromIndex,
      if_pos encoded.instrBlockLabel.toNat_lt, UInt32.ofNat_toNat, hlabel, hinstr]
    rfl

/-- **A row is read back.** -/
theorem row_of_means {record : CounterDumpRecord} {bytes : List UInt8} {rows : List EncodedRow}
    (hcolumns : view.columns = Columns.ofRows rows)
    (h : Encodes record bytes view.header strings view.stringOffsets view.stringBytes.bytes rows)
    {index : ℕ} {encoded : EncodedRow} (hencoded : rows[index]? = some encoded)
    {row : CounterDumpRow} (hmeans : RowMeans strings row encoded) (hrow : row.Unmarked) :
    view.row utf8Error index = .ok row := by
  have hlt := h.stringCount_lt
  have hinstr := instrId_of_unmarked hcolumns hencoded hmeans hrow
  obtain ⟨hindex, -⟩ := List.getElem?_eq_some_iff.mp hencoded
  have hcount : view.rowCount = rows.length := by
    rw [CounterDumpRecordView.rowCount, hcolumns]
    exact List.length_map _
  have hcolumn : ∀ {T : Type} (column : EncodedRow → T),
      indexed (rows.map column) index = .ok (column encoded) := indexed_column hencoded
  rw [CounterDumpRecordView.row]
  refine bind_eq_ok.mpr ⟨(), ensure_eq_ok.mpr (by omega), ?_⟩
  rw [hcolumns]
  refine bind_eq_ok.mpr ⟨_, hcolumn EncodedRow.counterId, ?_⟩
  refine bind_eq_ok.mpr ⟨_, hcolumn EncodedRow.scope, ?_⟩
  refine bind_eq_ok.mpr ⟨_, resolveStringId_of_means utf8Error h.table hmeans.scope, ?_⟩
  refine bind_eq_ok.mpr ⟨_, hcolumn EncodedRow.kind, ?_⟩
  refine bind_eq_ok.mpr ⟨_, resolveStringId_of_means utf8Error h.table hmeans.kind, ?_⟩
  refine bind_eq_ok.mpr ⟨_, hcolumn EncodedRow.siteKind, ?_⟩
  refine bind_eq_ok.mpr ⟨_, resolveStringId_of_means utf8Error h.table hmeans.siteKind, ?_⟩
  refine bind_eq_ok.mpr ⟨_, hcolumn EncodedRow.functionId, ?_⟩
  refine bind_eq_ok.mpr ⟨_, hcolumn EncodedRow.currentFunctionId, ?_⟩
  refine bind_eq_ok.mpr ⟨_, hinstr, ?_⟩
  refine bind_eq_ok.mpr ⟨_, hcolumn EncodedRow.functionQualname, ?_⟩
  refine bind_eq_ok.mpr ⟨_, resolveOptionalStringId_of_means utf8Error h.table hlt
    hmeans.functionQualname, ?_⟩
  refine bind_eq_ok.mpr ⟨_, hcolumn EncodedRow.blockLabel, ?_⟩
  refine bind_eq_ok.mpr ⟨_, resolveOptionalStringId_of_means utf8Error h.table hlt
    hmeans.blockLabel, ?_⟩
  refine bind_eq_ok.mpr ⟨_, hcolumn EncodedRow.value, ?_⟩
  rw [hmeans.functionId, functionIdFromPacked_of_unmarked hrow.functionId,
    hmeans.currentFunctionId, functionIdFromPacked_of_unmarked hrow.currentFunctionId,
    hmeans.counterId, hmeans.value]
  rfl

end RowsOfView

/-! ## Files -/

/-- What a reader gets from a view. -/
def CounterDumpRecordView.toRecord (utf8Error : List UInt8 → String)
    (view : CounterDumpRecordView) : Outcome CounterDumpRecord := do
  let moduleName ← view.moduleName utf8Error
  let packageName ← view.packageName utf8Error
  let rows ← (List.range' 0 view.rowCount).mapM (view.row utf8Error)
  return ⟨moduleName, packageName, rows⟩

theorem mapM_range'_eq_ok {ε α : Type} {read : ℕ → Except ε α} {values : List α} {start : ℕ}
    (h : ∀ index value, values[index]? = some value → read (start + index) = .ok value) :
    (List.range' start values.length).mapM read = .ok values := by
  induction values generalizing start with
  | nil => rfl
  | cons value values ih =>
    have hfirst : read start = .ok value := h 0 value rfl
    have hrest : (List.range' (start + 1) values.length).mapM read = .ok values := by
      refine ih fun index found hfound => ?_
      rw [Nat.add_right_comm, Nat.add_assoc]
      exact h (index + 1) found hfound
    rw [List.length_cons, List.range'_succ, List.mapM_cons]
    exact bind_eq_ok.mpr ⟨value, hfirst, bind_eq_ok.mpr ⟨values, hrest, rfl⟩⟩

theorem Views.toRecord {record : CounterDumpRecord} {view : CounterDumpRecordView}
    (h : Views record view) (hrecord : record.Unmarked) (utf8Error : List UInt8 → String) :
    view.toRecord utf8Error = .ok record := by
  obtain ⟨bytes, strings, rows, hcolumns, h⟩ := h
  have hlen := h.means.length_eq
  have hcount : view.rowCount = record.rows.length := by
    rw [CounterDumpRecordView.rowCount, hcolumns, hlen]
    exact List.length_map _
  have hrows : (List.range' 0 view.rowCount).mapM (view.row utf8Error) = .ok record.rows := by
    rw [hcount]
    refine mapM_range'_eq_ok fun index row hrow => ?_
    obtain ⟨hindex, rfl⟩ := List.getElem?_eq_some_iff.mp hrow
    rw [Nat.zero_add]
    exact row_of_means utf8Error hcolumns h (List.getElem?_eq_getElem (by omega))
      (h.means.get hindex (by omega)) (hrecord.rows _ (List.getElem_mem hindex))
  refine bind_eq_ok.mpr ⟨_, resolveStringId_of_means utf8Error h.table h.moduleName, ?_⟩
  refine bind_eq_ok.mpr ⟨_, resolveOptionalStringId_of_means utf8Error h.table h.stringCount_lt
    (h.packageName hrecord.packageName), ?_⟩
  exact bind_eq_ok.mpr ⟨_, hrows, rfl⟩

/-- **The loop over encoded records**, from any place of the file on. -/
theorem parseFrom_encodings {records : List CounterDumpRecord} {encodings : List (List UInt8)}
    (h : List.Forall₂ (fun record encoding => record.encode = .ok encoding) records encodings)
    {bytes : ByteSlice} (halign : bytes.addr % 8 = 0) {before : List UInt8}
    (hbytes : bytes.bytes = before ++ encodings.flatten) (hbefore : before.length % 8 = 0)
    {fuel : ℕ} (hfuel : encodings.flatten.length < fuel) :
    ∃ views, parseFrom bytes fuel before.length = .ok views ∧
      List.Forall₂ Views records views := by
  induction h generalizing before fuel with
  | nil =>
    obtain ⟨fuel, rfl⟩ : ∃ rest, fuel = rest + 1 := ⟨fuel - 1, by omega⟩
    refine ⟨[], ?_, .nil⟩
    have hlen : bytes.len = before.length := by
      rw [ByteSlice.len, hbytes, List.flatten_nil, List.append_nil]
    rw [parseFrom, if_neg (by omega)]
  | @cons record encoding records encodings hencode _ ih =>
    obtain ⟨header, strings, stringOffsets, stringBytes, rows, hencodes⟩ := encode_eq_ok hencode
    rw [List.flatten_cons] at hbytes hfuel
    rw [List.length_append] at hfuel
    have hmod := hencodes.length_mod
    have hpos : 88 ≤ encoding.length := by
      have hin := (hencodes.read List.mem_cons_self).2
      change 0 + header.enc.length ≤ encoding.length at hin
      rw [header.enc_length] at hin
      omega
    have hlen : bytes.len = before.length + (encoding.length + encodings.flatten.length) := by
      rw [ByteSlice.len, hbytes, List.length_append, List.length_append]
    have hmax := bytes.len_le
    have hlenEq : bytes.len = bytes.bytes.length := rfl
    obtain ⟨fuel, rfl⟩ : ∃ rest, fuel = rest + 1 := ⟨fuel - 1, by omega⟩
    obtain ⟨remaining, hremaining⟩ := ByteSlice.get_of_le
      (show before.length ≤ bytes.len by omega) (Nat.le_refl bytes.len)
    obtain ⟨-, -, haddr, -, hremainingBytes⟩ := ByteSlice.get_eq_some hremaining
    have htail : bytes.tail before.length = .ok remaining := by rw [ByteSlice.tail, hremaining]
    have hrest : remaining.bytes = encoding ++ encodings.flatten := by
      rw [hremainingBytes, hbytes, slice_append_right]
      refine List.take_of_length_le ?_
      rw [List.length_append]
      omega
    obtain ⟨part, rfl, hparse⟩ := hencodes.parseRecord hrest (by omega) before.length
    have hrecordLen : header.recordLen.toNat = encoding.length := by
      rw [hencodes.length, ← hencodes.headed.offsets]
      rfl
    have hbytes' : bytes.bytes = (before ++ encoding) ++ encodings.flatten := by
      rw [hbytes, List.append_assoc]
    have hbefore' : (before ++ encoding).length % 8 = 0 := by
      rw [List.length_append]
      omega
    have hfuel' : encodings.flatten.length < fuel := by omega
    obtain ⟨views, hviews, hall⟩ := ih hbytes' hbefore' hfuel'
    rw [List.length_append] at hviews
    have hfirst : Views record ⟨header, stringOffsets, part, Columns.ofRows rows⟩ :=
      ⟨encoding, strings, rows, rfl, hencodes⟩
    refine ⟨_ :: views, ?_, .cons hfirst hall⟩
    rw [parseFrom, if_pos (by omega)]
    refine bind_eq_ok.mpr ⟨remaining, htail, bind_eq_ok.mpr ⟨_, hparse, ?_⟩⟩
    refine bind_eq_ok.mpr ⟨_, addUsize_of_lt ?_, ?_⟩
    · show before.length + header.recordLen.toNat < _
      omega
    · rw [hrecordLen]
      exact bind_eq_ok.mpr ⟨views, hviews, rfl⟩

theorem forall₂_of_mapM {α β ε : Type} {f : α → Except ε β} {values : List α} {results : List β}
    (h : values.mapM f = .ok results) :
    List.Forall₂ (fun value result => f value = .ok result) values results := by
  induction values generalizing results with
  | nil =>
    obtain rfl := Except.ok.inj h
    exact .nil
  | cons value values ih =>
    rw [List.mapM_cons] at h
    obtain ⟨first, hfirst, h⟩ := bind_eq_ok.mp h
    obtain ⟨rest, hrest, h⟩ := bind_eq_ok.mp h
    obtain rfl := Except.ok.inj h
    exact .cons hfirst (ih hrest)

theorem mapM_of_forall₂ {α β ε : Type} {f : β → Except ε α} {values : List α} {inputs : List β}
    (h : List.Forall₂ (fun value input => f input = .ok value) values inputs) :
    inputs.mapM f = .ok values := by
  induction h with
  | nil => rfl
  | cons hfirst _ ih =>
    rw [List.mapM_cons]
    exact bind_eq_ok.mpr ⟨_, hfirst, bind_eq_ok.mpr ⟨_, ih, rfl⟩⟩

/-- **Encoded records are read back**, in their order, from a buffer that is aligned. -/
theorem parse_encode {records : List CounterDumpRecord} {encodings : List (List UInt8)}
    (hencode : records.mapM CounterDumpRecord.encode = .ok encodings)
    (hunmarked : ∀ record ∈ records, record.Unmarked) {bytes : ByteSlice}
    (hbytes : bytes.bytes = encodings.flatten) (halign : bytes.addr % 8 = 0)
    (utf8Error : List UInt8 → String) :
    ∃ views, parseCounterDumpRecords bytes = .ok views ∧
      views.mapM (CounterDumpRecordView.toRecord utf8Error) = .ok records := by
  have hlen : encodings.flatten.length < bytes.len + 1 := by
    rw [ByteSlice.len, hbytes]
    exact Nat.lt_succ_self _
  have hnothing : bytes.bytes = [] ++ encodings.flatten := hbytes
  obtain ⟨views, hparse, hviews⟩ :=
    parseFrom_encodings (forall₂_of_mapM hencode) halign hnothing rfl hlen
  refine ⟨views, hparse, mapM_of_forall₂ ?_⟩
  refine List.forall₂_iff_get.mpr ⟨hviews.length_eq, fun index hindex hindex' => ?_⟩
  exact (hviews.get hindex hindex').toRecord
    (hunmarked _ (List.get_mem records ⟨index, hindex⟩)) utf8Error

/-- A module in a package with one row, and a module without rows. -/
def twoRecords : List CounterDumpRecord :=
  [⟨"alpha", some "pkg", [⟨1, "this", "refs", "runtime", some ⟨7⟩, none, some ⟨5, 3⟩, some "f",
    none, 11⟩]⟩, ⟨"beta", none, []⟩]

def twoEncodings : List (List UInt8) := (twoRecords.mapM CounterDumpRecord.encode).toOption.getD []

def twoRecordsFile : ByteSlice where
  addr := 4096
  bytes := twoEncodings.flatten
  len_le := by decide +kernel

theorem parse_encode_twoRecords :
    ∃ views, parseCounterDumpRecords twoRecordsFile = .ok views ∧
      views.mapM (CounterDumpRecordView.toRecord fun _ => "") = .ok twoRecords := by
  have hencode : twoRecords.mapM CounterDumpRecord.encode = .ok twoEncodings := by
    have hok : (twoRecords.mapM CounterDumpRecord.encode).toOption.isSome = true := by
      decide +kernel
    unfold twoEncodings
    cases hresult : twoRecords.mapM CounterDumpRecord.encode with
    | ok encodings => rfl
    | error message =>
      rw [hresult] at hok
      cases hok
  have hunmarked : ∀ record ∈ twoRecords, record.Unmarked := by
    simp only [twoRecords, List.forall_mem_cons, List.not_mem_nil, false_implies, implies_true,
      and_true]
    refine ⟨⟨by decide, ?_⟩, ⟨by decide, fun row hrow => (by cases hrow)⟩⟩
    intro row hrow
    obtain rfl := List.mem_singleton.mp hrow
    exact ⟨by decide, by decide, by decide⟩
  have hbytes : twoRecordsFile.bytes = twoEncodings.flatten := by rw [twoRecordsFile]
  exact parse_encode hencode hunmarked hbytes (by decide) fun _ => ""

end DietPython.Counters
