import DietPython.Counters.DumpSafety

/-!
# The files that are accepted

`WellFormedFile` says of the bytes alone what the parser asks of a file: records one behind the
other, each with a header that fits it. The parser accepts these files and no others, and it is
safe on a file exactly when no record of it has sections that overlap.
-/

namespace DietPython.Counters

open ByteLayouts

/-! ## Well-formed files -/

def headerAt (bytes : ByteSlice) : CounterDumpRecordHeader :=
  headerLayout.dec (slice bytes.bytes 0 headerLayout.size)

/-- The offsets of all numbers in the string table. -/
def stringOffsetsAt (bytes : ByteSlice) : List UInt32 :=
  let header := headerAt bytes
  u32.decAll (header.stringCount.toNat + 1)
    (slice bytes.bytes header.offsets.stringOffsets ((header.stringCount.toNat + 1) * u32.size))

/-- The columns with numbers of four bytes. -/
def Offsets.narrow (offsets : Offsets) : List ℕ :=
  [offsets.counterId, offsets.scope, offsets.kind, offsets.siteKind, offsets.instrBlockLabel,
    offsets.instrIndexInBlock, offsets.functionQualname, offsets.blockLabel]

/-- The columns with numbers of eight bytes. -/
def Offsets.wide (offsets : Offsets) : List ℕ :=
  [offsets.functionId, offsets.currentFunctionId, offsets.value]

/-- The bytes begin with a record. -/
structure WellFormedRecord (bytes : ByteSlice) : Prop where
  headerInside : headerLayout.size ≤ bytes.len
  headerAligned : bytes.addr % headerLayout.align = 0
  magic : (headerAt bytes).magic = counterDumpMagic
  version : (headerAt bytes).version = counterDumpVersion
  headerSize : (headerAt bytes).headerSize.toNat = headerLayout.size
  lenPos : (headerAt bytes).recordLen.toNat ≠ 0
  lenAligned : (headerAt bytes).recordLen.toNat % 8 = 0
  recordInside : (headerAt bytes).recordLen.toNat ≤ bytes.len
  ordered : ((headerAt bytes).offsets.starts headerLayout.size).Pairwise (· ≤ ·)
  inside : ∀ part ∈ (headerAt bytes).sections,
    part.1 + part.2 ≤ (headerAt bytes).recordLen.toNat
  stringsAligned : (bytes.addr + (headerAt bytes).offsets.stringOffsets) % u32.align = 0
  narrowAligned : ∀ start ∈ (headerAt bytes).offsets.narrow, (bytes.addr + start) % u32.align = 0
  wideAligned : ∀ start ∈ (headerAt bytes).offsets.wide, (bytes.addr + start) % u64.align = 0
  firstString : (stringOffsetsAt bytes).head?.getD 0 = 0
  lastString : (stringOffsetsAt bytes).getLast?.getD 0 = (headerAt bytes).stringBytesLen

/-- From the offset to the end there are records one behind the other, with these headers. -/
inductive WellFormedFile (bytes : ByteSlice) : ℕ → List CounterDumpRecordHeader → Prop
  | done : WellFormedFile bytes bytes.len []
  | record {offset : ℕ} {rest : ByteSlice} {headers : List CounterDumpRecordHeader} :
    offset < bytes.len → bytes.get offset bytes.len = some rest → WellFormedRecord rest →
    WellFormedFile bytes (offset + (headerAt rest).recordLen.toNat) headers →
    WellFormedFile bytes offset (headerAt rest :: headers)

/-! ### Casts -/

section Casts

variable {T : Type} {layout : Layout T} {bytes : ByteSlice}

theorem castRef_isOk : (∃ value, castRef layout bytes 0 = .ok value) ↔
    layout.size ≤ bytes.len ∧ bytes.addr % layout.align = 0 := by
  refine ⟨fun ⟨value, h⟩ => ⟨(castRef_eq_ok _ h).1, ?_⟩, fun ⟨hsize, halign⟩ =>
    ⟨_, castRef_of_le _ hsize halign⟩⟩
  obtain ⟨tail, htail, h⟩ := bind_eq_ok.mp h
  obtain ⟨_, -, h⟩ := bind_eq_ok.mp h
  obtain ⟨_, halign, -⟩ := bind_eq_ok.mp h
  obtain ⟨-, -, haddr, -, -⟩ := ByteSlice.get_eq_some (failWith_eq_ok.mp htail)
  rw [← Nat.add_zero bytes.addr, ← haddr]
  exact ensure_eq_ok.mp halign

theorem castSlice_aligned {offset len : ℕ} {values : List T}
    (h : castSlice layout bytes offset len = .ok values) :
    (bytes.addr + offset) % layout.align = 0 := by
  obtain ⟨byteLen, -, h⟩ := bind_eq_ok.mp h
  obtain ⟨stop, -, h⟩ := bind_eq_ok.mp h
  obtain ⟨part, hpart, h⟩ := bind_eq_ok.mp h
  obtain ⟨_, halign, -⟩ := bind_eq_ok.mp h
  obtain ⟨-, -, haddr, -, -⟩ := ByteSlice.get_eq_some (failWith_eq_ok.mp hpart)
  rw [← haddr]
  exact ensure_eq_ok.mp halign

end Casts

/-! ### Records -/

section Records

variable {remaining record : ByteSlice} {offset : ℕ}

theorem readHeader_iff {header : CounterDumpRecordHeader} :
    readHeader remaining offset = .ok header ↔
      header = headerAt remaining ∧ headerLayout.size ≤ remaining.len ∧
        remaining.addr % headerLayout.align = 0 ∧ header.magic = counterDumpMagic ∧
        header.version = counterDumpVersion ∧ header.headerSize.toNat = headerLayout.size ∧
        header.recordLen.toNat ≠ 0 ∧ header.recordLen.toNat % 8 = 0 := by
  constructor
  · intro h
    obtain ⟨read, hread, h⟩ := bind_eq_ok.mp h
    obtain ⟨_, hmagic, h⟩ := bind_eq_ok.mp h
    obtain ⟨_, hversion, h⟩ := bind_eq_ok.mp h
    obtain ⟨_, hsize, h⟩ := bind_eq_ok.mp h
    obtain ⟨_, hlen, h⟩ := bind_eq_ok.mp h
    obtain rfl := Except.ok.inj h
    obtain ⟨hin, halign⟩ := castRef_isOk.mp ⟨_, hread⟩
    exact ⟨(castRef_eq_ok _ hread).2, hin, halign, ensure_eq_ok.mp hmagic,
      ensure_eq_ok.mp hversion, ensure_eq_ok.mp hsize, ensure_eq_ok.mp hlen⟩
  · rintro ⟨rfl, hin, halign, hmagic, hversion, hsize, hlen⟩
    refine bind_eq_ok.mpr ⟨_, castRef_of_le _ hin halign, ?_⟩
    refine bind_eq_ok.mpr ⟨(), ensure_eq_ok.mpr hmagic, ?_⟩
    refine bind_eq_ok.mpr ⟨(), ensure_eq_ok.mpr hversion, ?_⟩
    refine bind_eq_ok.mpr ⟨(), ensure_eq_ok.mpr hsize, ?_⟩
    exact bind_eq_ok.mpr ⟨(), ensure_eq_ok.mpr hlen, rfl⟩

/-- A column lies inside the record, and its numbers are aligned. -/
def ColumnFits {T : Type} (layout : Layout T) (record : ByteSlice) (rowCount start : ℕ) : Prop :=
  start + rowCount * layout.size ≤ record.len ∧ (record.addr + start) % layout.align = 0

theorem castSlice_isOk {T : Type} {layout : Layout T} {rowCount start : ℕ} :
    (∃ values, castSlice layout record start rowCount = .ok values) ↔
      ColumnFits layout record rowCount start :=
  ⟨fun ⟨_, h⟩ => ⟨(castSlice_eq_ok _ h).1, castSlice_aligned h⟩,
    fun h => ⟨_, castSlice_of_le _ h.1 h.2⟩⟩

theorem readColumns_isOk {offsets : Offsets} {rowCount : ℕ} :
    (∃ columns, readColumns record offsets rowCount = .ok columns) ↔
      (∀ start ∈ offsets.narrow, ColumnFits u32 record rowCount start) ∧
        ∀ start ∈ offsets.wide, ColumnFits u64 record rowCount start := by
  unfold Offsets.narrow Offsets.wide
  simp only [List.forall_mem_cons, List.not_mem_nil, false_implies, implies_true, and_true]
  constructor
  · rintro ⟨columns, h⟩
    obtain ⟨_, h₁, h⟩ := bind_eq_ok.mp h
    obtain ⟨_, h₂, h⟩ := bind_eq_ok.mp h
    obtain ⟨_, h₃, h⟩ := bind_eq_ok.mp h
    obtain ⟨_, h₄, h⟩ := bind_eq_ok.mp h
    obtain ⟨_, h₅, h⟩ := bind_eq_ok.mp h
    obtain ⟨_, h₆, h⟩ := bind_eq_ok.mp h
    obtain ⟨_, h₇, h⟩ := bind_eq_ok.mp h
    obtain ⟨_, h₈, h⟩ := bind_eq_ok.mp h
    obtain ⟨_, h₉, h⟩ := bind_eq_ok.mp h
    obtain ⟨_, h₁₀, h⟩ := bind_eq_ok.mp h
    obtain ⟨_, h₁₁, -⟩ := bind_eq_ok.mp h
    have fits : ∀ {T : Type} {layout : Layout T} {start : ℕ} {values : List T},
        castSlice layout record start rowCount = .ok values →
          ColumnFits layout record rowCount start := fun h => castSlice_isOk.mp ⟨_, h⟩
    exact ⟨⟨fits h₁, fits h₂, fits h₃, fits h₄, fits h₇, fits h₈, fits h₉, fits h₁₀⟩,
      fits h₅, fits h₆, fits h₁₁⟩
  · rintro ⟨⟨h₁, h₂, h₃, h₄, h₇, h₈, h₉, h₁₀⟩, h₅, h₆, h₁₁⟩
    refine ⟨columnsAt record.bytes offsets rowCount, ?_⟩
    have cast : ∀ {T : Type} {layout : Layout T} {start : ℕ},
        ColumnFits layout record rowCount start → castSlice layout record start rowCount =
          .ok (layout.decAll rowCount (slice record.bytes start (rowCount * layout.size))) :=
      fun h => castSlice_of_le _ h.1 h.2
    refine bind_eq_ok.mpr ⟨_, cast h₁, bind_eq_ok.mpr ⟨_, cast h₂, ?_⟩⟩
    refine bind_eq_ok.mpr ⟨_, cast h₃, bind_eq_ok.mpr ⟨_, cast h₄, ?_⟩⟩
    refine bind_eq_ok.mpr ⟨_, cast h₅, bind_eq_ok.mpr ⟨_, cast h₆, ?_⟩⟩
    refine bind_eq_ok.mpr ⟨_, cast h₇, bind_eq_ok.mpr ⟨_, cast h₈, ?_⟩⟩
    refine bind_eq_ok.mpr ⟨_, cast h₉, bind_eq_ok.mpr ⟨_, cast h₁₀, ?_⟩⟩
    exact bind_eq_ok.mpr ⟨_, cast h₁₁, rfl⟩

theorem checkStringOffsets_isOk {stringOffsets : List UInt32} {stringBytes : ByteSlice}
    (hlen : stringBytes.len < 4294967296) :
    (∃ value, checkStringOffsets stringOffsets stringBytes offset = .ok value) ↔
      stringOffsets.head?.getD 0 = 0 ∧
        (stringOffsets.getLast?.getD 0).toNat = stringBytes.len := by
  constructor
  · rintro ⟨value, h⟩
    obtain ⟨_, hfirst, h⟩ := bind_eq_ok.mp h
    obtain ⟨_, -, hlast⟩ := bind_eq_ok.mp h
    exact ⟨ensure_eq_ok.mp hfirst, ensure_eq_ok.mp hlast⟩
  · rintro ⟨hfirst, hlast⟩
    exact ⟨(), bind_eq_ok.mpr ⟨(), ensure_eq_ok.mpr hfirst,
      bind_eq_ok.mpr ⟨(), ensure_eq_ok.mpr hlen, ensure_eq_ok.mpr hlast⟩⟩⟩

/-- What is inside the record is read there as from the bytes that remain. -/
theorem stringOffsetsAt_record {len : ℕ} (hbytes : record.bytes = slice remaining.bytes 0 len)
    (h : (headerAt remaining).offsets.stringOffsets +
      ((headerAt remaining).stringCount.toNat + 1) * u32.size ≤ len) :
    u32.decAll ((headerAt remaining).stringCount.toNat + 1)
        (slice record.bytes (headerAt remaining).offsets.stringOffsets
          (((headerAt remaining).stringCount.toNat + 1) * u32.size)) =
      stringOffsetsAt remaining := by
  rw [hbytes, slice_slice _ h, Nat.zero_add]
  rfl

theorem wellFormed_of_parseRecord {view : CounterDumpRecordView}
    (h : parseRecord remaining offset = .ok view) :
    view.header = headerAt remaining ∧ WellFormedRecord remaining := by
  obtain ⟨record, hrecord, hshows⟩ := parseRecord_eq_ok h
  obtain ⟨-, hfits, haddr, hlen, hbytes⟩ := ByteSlice.get_eq_some hrecord
  obtain ⟨header, hheader, h⟩ := bind_eq_ok.mp h
  obtain ⟨rfl, hin, halign, hmagic, hversion, hsize, hpos, hmod⟩ := readHeader_iff.mp hheader
  obtain ⟨record', hrecord', h⟩ := bind_eq_ok.mp h
  obtain ⟨_, hordered, h⟩ := bind_eq_ok.mp h
  obtain ⟨offsetCount, hcount, h⟩ := bind_eq_ok.mp h
  obtain ⟨stringOffsets, hoffsets, h⟩ := bind_eq_ok.mp h
  obtain ⟨stringBytesEnd, hend, h⟩ := bind_eq_ok.mp h
  obtain ⟨stringBytes, hstringBytes, h⟩ := bind_eq_ok.mp h
  obtain ⟨columns, hcolumns, h⟩ := bind_eq_ok.mp h
  obtain ⟨_, hcheck, hview⟩ := bind_eq_ok.mp h
  obtain rfl := Except.ok.inj hview
  obtain rfl := Option.some.inj (hrecord.symm.trans (failWith_eq_ok.mp hrecord'))
  obtain rfl := addUsize_eq_ok hcount
  obtain rfl := addUsize_eq_ok hend
  rw [Nat.add_zero] at haddr
  rw [Nat.sub_zero] at hlen hbytes
  have hstarts := (isNondecreasing_iff _).mp (ensure_eq_ok.mp hordered)
  rw [hsize] at hstarts
  have hinside : ∀ part ∈ (headerAt remaining).sections,
      part.1 + part.2 ≤ (headerAt remaining).recordLen.toNat := hlen ▸ hshows.inside
  obtain ⟨-, -, -, hstringLen, -⟩ := ByteSlice.get_eq_some (failWith_eq_ok.mp hstringBytes)
  rw [Nat.add_sub_cancel_left] at hstringLen
  have hstringsInside := hinside ((headerAt remaining).offsets.stringOffsets,
    ((headerAt remaining).stringCount.toNat + 1) * u32.size) (.tail _ (.head _))
  obtain ⟨-, rfl⟩ := castSlice_eq_ok _ hoffsets
  rw [stringOffsetsAt_record hbytes hstringsInside] at hcheck
  obtain ⟨hfirst, hlast⟩ := (checkStringOffsets_isOk (by
    rw [hstringLen]
    exact (headerAt remaining).stringBytesLen.toNat_lt)).mp ⟨_, hcheck⟩
  obtain ⟨hnarrow, hwide⟩ := readColumns_isOk.mp ⟨_, hcolumns⟩
  exact ⟨rfl,
    { headerInside := hin
      headerAligned := halign
      magic := hmagic
      version := hversion
      headerSize := hsize
      lenPos := hpos
      lenAligned := hmod
      recordInside := hfits
      ordered := hstarts
      inside := hinside
      stringsAligned := haddr ▸ castSlice_aligned hoffsets
      narrowAligned := fun start hstart => haddr ▸ (hnarrow start hstart).2
      wideAligned := fun start hstart => haddr ▸ (hwide start hstart).2
      firstString := hfirst
      lastString := UInt32.toNat_inj.mp (hlast.trans hstringLen) }⟩

/-- **A well-formed record is accepted.** -/
theorem WellFormedRecord.parse (h : WellFormedRecord remaining) (offset : ℕ) :
    ∃ view, parseRecord remaining offset = .ok view := by
  obtain ⟨record, hrecord⟩ := ByteSlice.get_of_le (Nat.zero_le _) h.recordInside
  obtain ⟨-, -, haddr, hlen, hbytes⟩ := ByteSlice.get_eq_some hrecord
  rw [Nat.add_zero] at haddr
  rw [Nat.sub_zero] at hlen hbytes
  have hcount : (headerAt remaining).stringCount.toNat + 1 < 18446744073709551616 := by
    have hlt : (headerAt remaining).stringCount.toNat < 4294967296 := UInt32.toNat_lt _
    omega
  have hend : (headerAt remaining).offsets.stringBytes +
      (headerAt remaining).stringBytesLen.toNat < 18446744073709551616 := by
    have hstart : (headerAt remaining).stringBytesOffset.toNat < 4294967296 := UInt32.toNat_lt _
    have hlt : (headerAt remaining).stringBytesLen.toNat < 4294967296 := UInt32.toNat_lt _
    show (headerAt remaining).stringBytesOffset.toNat + _ < _
    omega
  have hinside := h.inside
  unfold CounterDumpRecordHeader.sections at hinside
  simp only [List.forall_mem_cons, List.not_mem_nil, false_implies, implies_true,
    and_true] at hinside
  obtain ⟨-, hstrings, hstringBytes, b₁, b₂, b₃, b₄, w₁, w₂, b₅, b₆, b₇, b₈, w₃⟩ := hinside
  obtain ⟨stringBytes, hpart⟩ := ByteSlice.get_of_le (Nat.le_add_right _ _) (hlen ▸ hstringBytes)
  obtain ⟨-, -, -, hstringLen, -⟩ := ByteSlice.get_eq_some hpart
  rw [Nat.add_sub_cancel_left] at hstringLen
  have hcolumns : ∃ columns, readColumns record (headerAt remaining).offsets
      (headerAt remaining).rowCount.toNat = .ok columns := by
    have hnarrow := h.narrowAligned
    have hwide := h.wideAligned
    rw [← haddr] at hnarrow hwide
    refine readColumns_isOk.mpr ⟨fun start hstart => ⟨?_, hnarrow start hstart⟩,
      fun start hstart => ⟨?_, hwide start hstart⟩⟩
    · rw [hlen]
      revert start
      unfold Offsets.narrow
      simp only [List.forall_mem_cons, List.not_mem_nil, false_implies, implies_true, and_true]
      exact ⟨b₁, b₂, b₃, b₄, b₅, b₆, b₇, b₈⟩
    · rw [hlen]
      revert start
      unfold Offsets.wide
      simp only [List.forall_mem_cons, List.not_mem_nil, false_implies, implies_true, and_true]
      exact ⟨w₁, w₂, w₃⟩
  obtain ⟨columns, hcolumns⟩ := hcolumns
  have hcheck := (@checkStringOffsets_isOk offset _ _ (by
    rw [hstringLen]
    exact (headerAt remaining).stringBytesLen.toNat_lt)).mpr
      ⟨h.firstString, (congrArg UInt32.toNat h.lastString).trans hstringLen.symm⟩
  obtain ⟨value, hcheck⟩ := hcheck
  refine ⟨⟨headerAt remaining, stringOffsetsAt remaining, stringBytes, columns⟩, ?_⟩
  refine bind_eq_ok.mpr ⟨headerAt remaining, readHeader_iff.mpr ⟨rfl, h.headerInside,
    h.headerAligned, h.magic, h.version, h.headerSize, h.lenPos, h.lenAligned⟩, ?_⟩
  refine bind_eq_ok.mpr ⟨record, failWith_eq_ok.mpr hrecord, bind_eq_ok.mpr ⟨(), ?_, ?_⟩⟩
  · refine ensure_eq_ok.mpr ((isNondecreasing_iff _).mpr ?_)
    rw [h.headerSize]
    exact h.ordered
  refine bind_eq_ok.mpr ⟨_, addUsize_of_lt hcount, ?_⟩
  refine bind_eq_ok.mpr ⟨stringOffsetsAt remaining, ?_, ?_⟩
  · rw [castSlice_of_le u32 (hlen ▸ hstrings) (haddr ▸ h.stringsAligned)]
    exact congrArg Except.ok (stringOffsetsAt_record hbytes hstrings)
  refine bind_eq_ok.mpr ⟨_, addUsize_of_lt hend, bind_eq_ok.mpr ⟨_, failWith_eq_ok.mpr hpart, ?_⟩⟩
  exact bind_eq_ok.mpr ⟨columns, hcolumns, bind_eq_ok.mpr ⟨value, hcheck, rfl⟩⟩

end Records

/-! ### Files -/

section Files

variable {bytes : ByteSlice}

theorem WellFormedFile.offset_le {offset : ℕ} {headers : List CounterDumpRecordHeader}
    (h : WellFormedFile bytes offset headers) : offset ≤ bytes.len := by
  cases h with
  | done => exact Nat.le_refl _
  | record hlt => exact Nat.le_of_lt hlt

theorem wellFormed_of_parseFrom {fuel offset : ℕ} {views : List CounterDumpRecordView}
    (hoffset : offset ≤ bytes.len) (h : parseFrom bytes fuel offset = .ok views) :
    WellFormedFile bytes offset (views.map CounterDumpRecordView.header) := by
  induction fuel generalizing offset views with
  | zero => cases h
  | succ fuel ih =>
    rw [parseFrom] at h
    split at h
    · rename_i hlt
      obtain ⟨remaining, htail, h⟩ := bind_eq_ok.mp h
      obtain ⟨view, hview, h⟩ := bind_eq_ok.mp h
      obtain ⟨next, hnext, h⟩ := bind_eq_ok.mp h
      obtain ⟨records, hrecords, hviews⟩ := bind_eq_ok.mp h
      obtain rfl := addUsize_eq_ok hnext
      obtain rfl := Except.ok.inj hviews
      obtain ⟨hend, -, -⟩ := parseRecord_tail htail hview
      obtain ⟨hheader, hrecord⟩ := wellFormed_of_parseRecord hview
      rw [List.map_cons, hheader]
      refine .record hlt (ByteSlice.tail_eq_ok htail) hrecord ?_
      rw [← hheader]
      exact ih hend hrecords
    · obtain rfl := Except.ok.inj h
      obtain rfl : offset = bytes.len := by omega
      exact .done

theorem WellFormedFile.parse {offset : ℕ} {headers : List CounterDumpRecordHeader}
    (h : WellFormedFile bytes offset headers) {fuel : ℕ} (hfuel : bytes.len < offset + fuel) :
    ∃ views, parseFrom bytes fuel offset = .ok views ∧
      views.map CounterDumpRecordView.header = headers := by
  induction h generalizing fuel with
  | done =>
    obtain ⟨fuel, rfl⟩ : ∃ rest, fuel = rest + 1 := ⟨fuel - 1, by omega⟩
    exact ⟨[], by rw [parseFrom, if_neg (Nat.lt_irrefl _)], rfl⟩
  | @record offset rest headers hlt hrest hrecord hfile ih =>
    obtain ⟨fuel, rfl⟩ : ∃ rest, fuel = rest + 1 := ⟨fuel - 1, by omega⟩
    obtain ⟨view, hview⟩ := hrecord.parse offset
    obtain ⟨hheader, -⟩ := wellFormed_of_parseRecord hview
    have hpos := hrecord.lenPos
    obtain ⟨views, hviews, hmap⟩ : ∃ views, parseFrom bytes fuel _ = .ok views ∧ _ := ih (by omega)
    have hmax := bytes.len_le
    have hlen : bytes.len = bytes.bytes.length := rfl
    have hnext := hfile.offset_le
    have htail : bytes.tail offset = .ok rest := by rw [ByteSlice.tail, hrest]
    refine ⟨view :: views, ?_, by rw [List.map_cons, hheader, hmap]⟩
    rw [parseFrom, if_pos hlt]
    refine bind_eq_ok.mpr ⟨rest, htail, bind_eq_ok.mpr ⟨view, hview, ?_⟩⟩
    rw [hheader]
    exact bind_eq_ok.mpr ⟨_, addUsize_of_lt (by omega), bind_eq_ok.mpr ⟨views, hviews, rfl⟩⟩

/-- **The files that are accepted** are the well-formed ones. -/
theorem parse_isOk {headers : List CounterDumpRecordHeader} :
    (∃ views, parseCounterDumpRecords bytes = .ok views ∧
      views.map CounterDumpRecordView.header = headers) ↔ WellFormedFile bytes 0 headers := by
  refine ⟨?_, fun h => h.parse (by omega)⟩
  rintro ⟨views, hviews, rfl⟩
  exact wellFormed_of_parseFrom (Nat.zero_le _) hviews

end Files

/-! ## The promise -/

/-- Every fuel behind the length gives a value or a message. The views of an accepted file tile it,
their sections have no common byte, and reading them does not panic. -/
structure Safe (bytes : ByteSlice) : Prop where
  settles : ∀ fuel, bytes.len < fuel → Settles (parseFrom bytes fuel 0)
  accepted : ∀ views, parseCounterDumpRecords bytes = .ok views → Tiles bytes 0 views ∧
    ∀ view ∈ views, view.header.sections.Pairwise Apart ∧
      ∀ utf8Error, Settles (view.moduleName utf8Error) ∧ Settles (view.packageName utf8Error) ∧
        ∀ index, Settles (view.row utf8Error index)

/-- **The parser is safe** exactly when the bytes are no sequence of well-formed records, or none
of the records has a section with bytes that starts before the end of the one before it. -/
theorem safe_iff (bytes : ByteSlice) :
    Safe bytes ↔ ∀ headers, WellFormedFile bytes 0 headers →
      ∀ header ∈ headers, Spaced 0 header.sections := by
  have htiles : ∀ {views}, parseCounterDumpRecords bytes = .ok views → Tiles bytes 0 views :=
    fun hviews => tiles_of_parseFrom (Nat.zero_le _) hviews
  have hspaced : ∀ {views}, parseCounterDumpRecords bytes = .ok views → ∀ view ∈ views,
      (Spaced 0 view.header.sections ↔ view.header.sections.Pairwise Apart) := by
    intro views hviews view hview
    obtain ⟨record, hshows⟩ := (htiles hviews).shows hview
    rw [spaced_iff hshows.ordered]
    exact ⟨fun h => h.2, fun h => ⟨fun part _ _ => Nat.zero_le _, h⟩⟩
  constructor
  · intro hsafe headers hfile header hheader
    obtain ⟨views, hviews, rfl⟩ := parse_isOk.mpr hfile
    obtain ⟨view, hview, rfl⟩ := List.mem_map.mp hheader
    exact (hspaced hviews view hview).mpr ((hsafe.accepted views hviews).2 view hview).1
  · intro hgap
    refine ⟨fun fuel hfuel => settles_parseFrom (Nat.zero_le _) (by omega), ?_⟩
    intro views hviews
    refine ⟨htiles hviews, fun view hview => ⟨?_, fun utf8Error => ?_⟩⟩
    · refine (hspaced hviews view hview).mp (hgap _ (parse_isOk.mp ⟨views, hviews, rfl⟩) _ ?_)
      exact List.mem_map_of_mem hview
    · obtain ⟨record, hshows⟩ := (htiles hviews).shows hview
      exact ⟨settles_resolveStringId _ _ _, settles_resolveOptionalStringId _ _ _,
        hshows.settles_row utf8Error⟩

/-- One row and no strings; the columns of the scopes and of the kinds start at one offset. -/
def overlappingHeader : CounterDumpRecordHeader where
  magic := counterDumpMagic
  version := counterDumpVersion
  headerSize := 88
  recordLen := 144
  rowCount := 1
  stringCount := 0
  stringBytesLen := 0
  moduleNameStringId := 0
  packageNameStringId := counterDumpNoneU32
  stringOffsetsOffset := 88
  stringBytesOffset := 92
  counterIdOffset := 92
  scopeOffset := 96
  kindOffset := 96
  siteKindOffset := 100
  functionIdOffset := 104
  currentFunctionIdOffset := 112
  instrBlockLabelOffset := 120
  instrIndexInBlockOffset := 124
  functionQualnameOffset := 128
  blockLabelOffset := 132
  valueOffset := 136

def overlappingFile : ByteSlice where
  addr := 0
  bytes := overlappingHeader.enc ++ List.replicate 56 0
  len_le := by
    rw [List.length_append, CounterDumpRecordHeader.enc_length, List.length_replicate]
    decide

/-- The offsets of scopes and kinds, where there is one record. -/
def scopeAndKind : Outcome (List CounterDumpRecordView) → Option (Section × Section)
  | .ok [view] => do
    let scope ← view.header.sections[4]?
    let kind ← view.header.sections[5]?
    return (scope, kind)
  | _ => none

/-- The file is accepted, and a byte belongs to two of its sections. -/
theorem overlappingFile_not_safe : ¬ Safe overlappingFile := by
  intro hsafe
  have hparse : scopeAndKind (parseCounterDumpRecords overlappingFile) =
      some ((96, 4), (96, 4)) := by decide +kernel
  unfold scopeAndKind at hparse
  split at hparse
  · rename_i view hview
    have hdisjoint := ((hsafe.accepted _ hview).2 view List.mem_cons_self).1
    have hcount : view.header.sections.length = 14 := rfl
    have hapart := List.pairwise_iff_getElem.mp hdisjoint 4 5 (by omega) (by omega) (by decide)
    have hpair : (view.header.sections[4], view.header.sections[5]) =
        (((96, 4), (96, 4)) : Section × Section) := Option.some.inj hparse
    obtain ⟨hscope, hkind⟩ := Prod.mk.inj hpair
    rw [hscope, hkind] at hapart
    exact hapart 96 (by decide)
  · cases hparse

end DietPython.Counters
