import DietPython.Counters.DumpParse

/-!
# What the parser of counter dumps promises

`Shows` says what a view has to do with the bytes of its record, and `Tiles` that records lie one
behind the other. The parser settles on every byte slice, and its views tile the slice. Sections
lie inside their record, but only their starts are compared, so that they can overlap: a record
has no overlap exactly when its sections are `Spaced`.
-/

namespace DietPython.Counters

open ByteLayouts

/-! ## Sections -/

/-- A section as its offset and its length. -/
abbrev Section := ℕ × ℕ

def CounterDumpRecordHeader.sections (header : CounterDumpRecordHeader) : List Section :=
  let offsets := header.offsets
  let rowCount := header.rowCount.toNat
  [(0, headerLayout.size),
    (offsets.stringOffsets, (header.stringCount.toNat + 1) * u32.size),
    (offsets.stringBytes, header.stringBytesLen.toNat),
    (offsets.counterId, rowCount * u32.size),
    (offsets.scope, rowCount * u32.size),
    (offsets.kind, rowCount * u32.size),
    (offsets.siteKind, rowCount * u32.size),
    (offsets.functionId, rowCount * u64.size),
    (offsets.currentFunctionId, rowCount * u64.size),
    (offsets.instrBlockLabel, rowCount * u32.size),
    (offsets.instrIndexInBlock, rowCount * u32.size),
    (offsets.functionQualname, rowCount * u32.size),
    (offsets.blockLabel, rowCount * u32.size),
    (offsets.value, rowCount * u64.size)]

/-- Sections without a common byte. -/
def Apart (a b : Section) : Prop :=
  ∀ pos, ¬ ((a.1 ≤ pos ∧ pos < a.1 + a.2) ∧ b.1 ≤ pos ∧ pos < b.1 + b.2)

/-- No section with bytes starts before `stop`, nor before the end of one with bytes before it. -/
def Spaced : ℕ → List Section → Prop
  | _, [] => True
  | stop, (start, len) :: sections =>
    if len = 0 then Spaced stop sections
    else stop ≤ start ∧ Spaced (start + len) sections

theorem apart_iff {a b : Section} (h : a.1 ≤ b.1) (hb : b.2 ≠ 0) :
    Apart a b ↔ a.1 + a.2 ≤ b.1 := by
  constructor
  · intro hapart
    have hfirst := hapart b.1
    omega
  · intro hle pos hpos
    omega

/-- **Spaced sections are the pairwise disjoint ones**, when they are in the order of their
starts. -/
theorem spaced_iff {sections : List Section} (h : sections.Pairwise fun a b => a.1 ≤ b.1)
    (stop : ℕ) :
    Spaced stop sections ↔
      (∀ part ∈ sections, part.2 ≠ 0 → stop ≤ part.1) ∧ sections.Pairwise Apart := by
  induction sections generalizing stop with
  | nil => exact ⟨fun _ => ⟨fun _ hpart => (by cases hpart), .nil⟩, fun _ => trivial⟩
  | cons first sections ih =>
    obtain ⟨hfirst, hrest⟩ := List.pairwise_cons.mp h
    obtain ⟨start, len⟩ := first
    rw [Spaced, List.forall_mem_cons, List.pairwise_cons]
    by_cases hlen : len = 0
    · have hempty : ∀ other ∈ sections, Apart (start, len) other := by
        intro other _ pos hpos
        have hbounds : start ≤ pos ∧ pos < start + len := hpos.1
        omega
      rw [if_pos hlen, ih hrest]
      exact ⟨fun ⟨hstop, hapart⟩ => ⟨⟨fun hne => absurd hlen hne, hstop⟩, hempty, hapart⟩,
        fun ⟨⟨_, hstop⟩, _, hapart⟩ => ⟨hstop, hapart⟩⟩
    · rw [if_neg hlen, ih hrest]
      constructor
      · rintro ⟨hstop, hafter, hapart⟩
        refine ⟨⟨fun _ => hstop, fun part hpart hne => ?_⟩, fun part hpart => ?_, hapart⟩
        · exact Nat.le_trans hstop (hfirst part hpart)
        · by_cases hne : part.2 = 0
          · intro pos hpos
            omega
          · exact (apart_iff (hfirst part hpart) hne).mpr (hafter part hpart hne)
      · rintro ⟨⟨hstop, -⟩, hdisjoint, hapart⟩
        refine ⟨hstop hlen, fun part hpart hne => ?_, hapart⟩
        exact (apart_iff (hfirst part hpart) hne).mp (hdisjoint part hpart)

theorem isNondecreasing_iff (values : List ℕ) :
    isNondecreasing values = true ↔ values.Pairwise (· ≤ ·) := by
  induction values with
  | nil => exact ⟨fun _ => .nil, fun _ => rfl⟩
  | cons a rest ih =>
    cases rest with
    | nil => exact ⟨fun _ => List.pairwise_singleton _ _, fun _ => rfl⟩
    | cons b rest =>
      rw [isNondecreasing, Bool.and_eq_true, decide_eq_true_eq, ih, List.pairwise_cons (a := a)]
      constructor
      · rintro ⟨hab, hrest⟩
        refine ⟨fun c hc => ?_, hrest⟩
        rcases List.mem_cons.mp hc with rfl | hc
        · exact hab
        · exact Nat.le_trans hab ((List.pairwise_cons.mp hrest).1 c hc)
      · rintro ⟨hall, hrest⟩
        exact ⟨hall b List.mem_cons_self, hrest⟩

/-! ## Views -/

def columnsAt (bytes : List UInt8) (offsets : Offsets) (rowCount : ℕ) : Columns :=
  let narrow (offset : ℕ) := u32.decAll rowCount (slice bytes offset (rowCount * u32.size))
  let wide (offset : ℕ) := u64.decAll rowCount (slice bytes offset (rowCount * u64.size))
  { counterId := narrow offsets.counterId
    scope := narrow offsets.scope
    kind := narrow offsets.kind
    siteKind := narrow offsets.siteKind
    functionId := wide offsets.functionId
    currentFunctionId := wide offsets.currentFunctionId
    instrBlockLabel := narrow offsets.instrBlockLabel
    instrIndexInBlock := narrow offsets.instrIndexInBlock
    functionQualname := narrow offsets.functionQualname
    blockLabel := narrow offsets.blockLabel
    value := wide offsets.value }

/-- The view of the record with these bytes. -/
structure Shows (record : ByteSlice) (view : CounterDumpRecordView) : Prop where
  len : record.len = view.header.recordLen.toNat
  len_pos : 0 < record.len
  header : view.header = headerLayout.dec (slice record.bytes 0 headerLayout.size)
  inside : ∀ part ∈ view.header.sections, part.1 + part.2 ≤ record.len
  ordered : view.header.sections.Pairwise fun a b => a.1 ≤ b.1
  stringOffsets : view.stringOffsets = u32.decAll (view.header.stringCount.toNat + 1)
    (slice record.bytes view.header.offsets.stringOffsets
      ((view.header.stringCount.toNat + 1) * u32.size))
  stringBytes : view.stringBytes.bytes = slice record.bytes view.header.offsets.stringBytes
    view.header.stringBytesLen.toNat
  columns : view.columns =
    columnsAt record.bytes view.header.offsets view.header.rowCount.toNat

/-- The records lie one behind the other from `offset` to the end. -/
def Tiles (bytes : ByteSlice) : ℕ → List CounterDumpRecordView → Prop
  | offset, [] => offset = bytes.len
  | offset, view :: views => ∃ record,
    bytes.get offset (offset + view.header.recordLen.toNat) = some record ∧ Shows record view ∧
      Tiles bytes (offset + view.header.recordLen.toNat) views

/-! ### Reading a record -/

section ReadRecord

variable {remaining record : ByteSlice} {offset : ℕ}

theorem settles_readHeader : Settles (readHeader remaining offset) := by
  refine settles_bind (settles_castRef _ _ _) fun header _ => ?_
  refine settles_bind (settles_ensure _ _) fun _ _ => ?_
  refine settles_bind (settles_ensure _ _) fun _ _ => ?_
  refine settles_bind (settles_ensure _ _) fun _ _ => ?_
  exact settles_bind (settles_ensure _ _) fun _ _ => settles_ok _

theorem readHeader_eq_ok {header : CounterDumpRecordHeader}
    (h : readHeader remaining offset = .ok header) :
    headerLayout.size ≤ remaining.len ∧
      header = headerLayout.dec (slice remaining.bytes 0 headerLayout.size) ∧
      header.headerSize.toNat = headerLayout.size ∧ header.recordLen.toNat ≠ 0 := by
  obtain ⟨read, hread, h⟩ := bind_eq_ok.mp h
  obtain ⟨_, -, h⟩ := bind_eq_ok.mp h
  obtain ⟨_, -, h⟩ := bind_eq_ok.mp h
  obtain ⟨_, hsize, h⟩ := bind_eq_ok.mp h
  obtain ⟨_, hlen, h⟩ := bind_eq_ok.mp h
  obtain rfl := Except.ok.inj h
  obtain ⟨hle, hdec⟩ := castRef_eq_ok _ hread
  exact ⟨hle, hdec, ensure_eq_ok.mp hsize, (ensure_eq_ok.mp hlen).1⟩

/-- An offset of a header, and a column behind it, are far below the largest `usize`. -/
theorem column_lt (offset rowCount : UInt32) {size : ℕ} (hsize : size ≤ 8) :
    offset.toNat + rowCount.toNat * size < 18446744073709551616 := by
  have hoffset : offset.toNat < 4294967296 := offset.toNat_lt
  have hrows : rowCount.toNat < 4294967296 := rowCount.toNat_lt
  have hcolumn : rowCount.toNat * size ≤ rowCount.toNat * 8 := Nat.mul_le_mul_left _ hsize
  omega

theorem settles_readColumns (record : ByteSlice) (header : CounterDumpRecordHeader) :
    Settles (readColumns record header.offsets header.rowCount.toNat) := by
  have hnarrow : ∀ offset : UInt32,
      Settles (castSlice u32 record offset.toNat header.rowCount.toNat) :=
    fun offset => settles_castSlice _ _ (column_lt _ _ (by decide))
  have hwide : ∀ offset : UInt32,
      Settles (castSlice u64 record offset.toNat header.rowCount.toNat) :=
    fun offset => settles_castSlice _ _ (column_lt _ _ (by decide))
  refine settles_bind (hnarrow _) fun _ _ => ?_
  refine settles_bind (hnarrow _) fun _ _ => ?_
  refine settles_bind (hnarrow _) fun _ _ => ?_
  refine settles_bind (hnarrow _) fun _ _ => ?_
  refine settles_bind (hwide _) fun _ _ => ?_
  refine settles_bind (hwide _) fun _ _ => ?_
  refine settles_bind (hnarrow _) fun _ _ => ?_
  refine settles_bind (hnarrow _) fun _ _ => ?_
  refine settles_bind (hnarrow _) fun _ _ => ?_
  refine settles_bind (hnarrow _) fun _ _ => ?_
  exact settles_bind (hwide _) fun _ _ => settles_ok _

theorem readColumns_eq_ok {offsets : Offsets} {rowCount : ℕ} {columns : Columns}
    (h : readColumns record offsets rowCount = .ok columns) :
    columns = columnsAt record.bytes offsets rowCount ∧
      (∀ start ∈ [offsets.counterId, offsets.scope, offsets.kind, offsets.siteKind,
        offsets.instrBlockLabel, offsets.instrIndexInBlock, offsets.functionQualname,
        offsets.blockLabel], start + rowCount * u32.size ≤ record.len) ∧
      ∀ start ∈ [offsets.functionId, offsets.currentFunctionId, offsets.value],
        start + rowCount * u64.size ≤ record.len := by
  obtain ⟨counterId, h₁, h⟩ := bind_eq_ok.mp h
  obtain ⟨scope, h₂, h⟩ := bind_eq_ok.mp h
  obtain ⟨kind, h₃, h⟩ := bind_eq_ok.mp h
  obtain ⟨siteKind, h₄, h⟩ := bind_eq_ok.mp h
  obtain ⟨functionId, h₅, h⟩ := bind_eq_ok.mp h
  obtain ⟨currentFunctionId, h₆, h⟩ := bind_eq_ok.mp h
  obtain ⟨instrBlockLabel, h₇, h⟩ := bind_eq_ok.mp h
  obtain ⟨instrIndexInBlock, h₈, h⟩ := bind_eq_ok.mp h
  obtain ⟨functionQualname, h₉, h⟩ := bind_eq_ok.mp h
  obtain ⟨blockLabel, h₁₀, h⟩ := bind_eq_ok.mp h
  obtain ⟨value, h₁₁, hcolumns⟩ := bind_eq_ok.mp h
  obtain ⟨b₁, rfl⟩ := castSlice_eq_ok _ h₁
  obtain ⟨b₂, rfl⟩ := castSlice_eq_ok _ h₂
  obtain ⟨b₃, rfl⟩ := castSlice_eq_ok _ h₃
  obtain ⟨b₄, rfl⟩ := castSlice_eq_ok _ h₄
  obtain ⟨b₅, rfl⟩ := castSlice_eq_ok _ h₅
  obtain ⟨b₆, rfl⟩ := castSlice_eq_ok _ h₆
  obtain ⟨b₇, rfl⟩ := castSlice_eq_ok _ h₇
  obtain ⟨b₈, rfl⟩ := castSlice_eq_ok _ h₈
  obtain ⟨b₉, rfl⟩ := castSlice_eq_ok _ h₉
  obtain ⟨b₁₀, rfl⟩ := castSlice_eq_ok _ h₁₀
  obtain ⟨b₁₁, rfl⟩ := castSlice_eq_ok _ h₁₁
  refine ⟨?_, ?_, ?_⟩
  · exact (Except.ok.inj hcolumns).symm
  · simp only [List.forall_mem_cons, List.not_mem_nil, false_implies, implies_true, and_true]
    exact ⟨b₁, b₂, b₃, b₄, b₇, b₈, b₉, b₁₀⟩
  · simp only [List.forall_mem_cons, List.not_mem_nil, false_implies, implies_true, and_true]
    exact ⟨b₅, b₆, b₁₁⟩

theorem settles_checkStringOffsets (stringOffsets : List UInt32) (stringBytes : ByteSlice) :
    Settles (checkStringOffsets stringOffsets stringBytes offset) := by
  refine settles_bind (settles_ensure _ _) fun _ _ => ?_
  exact settles_bind (settles_ensure _ _) fun _ _ => settles_ensure _ _

/-- **One round settles.** -/
theorem settles_parseRecord : Settles (parseRecord remaining offset) := by
  refine settles_bind settles_readHeader fun header _ => ?_
  have hcount : header.stringCount.toNat < 4294967296 := header.stringCount.toNat_lt
  have hstart : header.stringBytesOffset.toNat < 4294967296 := header.stringBytesOffset.toNat_lt
  have hlen : header.stringBytesLen.toNat < 4294967296 := header.stringBytesLen.toNat_lt
  have hfirst : header.stringOffsetsOffset.toNat < 4294967296 :=
    header.stringOffsetsOffset.toNat_lt
  refine settles_bind (settles_failWith _ _) fun record _ => ?_
  refine settles_bind (settles_ensure _ _) fun _ _ => ?_
  refine settles_bind (settles_addUsize (by omega)) fun offsetCount hoffsetCount => ?_
  obtain rfl := addUsize_eq_ok hoffsetCount
  refine settles_bind (settles_castSlice _ _ ?_) fun stringOffsets _ => ?_
  · show header.stringOffsetsOffset.toNat + (header.stringCount.toNat + 1) * 4 < _
    omega
  refine settles_bind (settles_addUsize ?_) fun stringBytesEnd _ => ?_
  · show header.stringBytesOffset.toNat + header.stringBytesLen.toNat < _
    omega
  refine settles_bind (settles_failWith _ _) fun stringBytes _ => ?_
  refine settles_bind (settles_readColumns _ _) fun columns _ => ?_
  exact settles_bind (settles_checkStringOffsets _ _) fun _ _ => settles_ok _

/-- The record of a view, from the bytes that remain. -/
theorem parseRecord_eq_ok {view : CounterDumpRecordView}
    (h : parseRecord remaining offset = .ok view) :
    ∃ record, remaining.get 0 view.header.recordLen.toNat = some record ∧ Shows record view := by
  obtain ⟨header, hheader, h⟩ := bind_eq_ok.mp h
  obtain ⟨record, hrecord, h⟩ := bind_eq_ok.mp h
  obtain ⟨_, hordered, h⟩ := bind_eq_ok.mp h
  obtain ⟨offsetCount, hcount, h⟩ := bind_eq_ok.mp h
  obtain ⟨stringOffsets, hoffsets, h⟩ := bind_eq_ok.mp h
  obtain ⟨stringBytesEnd, hend, h⟩ := bind_eq_ok.mp h
  obtain ⟨stringBytes, hbytes, h⟩ := bind_eq_ok.mp h
  obtain ⟨columns, hcolumns, h⟩ := bind_eq_ok.mp h
  obtain ⟨_, -, hview⟩ := bind_eq_ok.mp h
  obtain rfl := Except.ok.inj hview
  have hsome := failWith_eq_ok.mp hrecord
  obtain ⟨-, hlen, -, hrecordLen, hrecordBytes⟩ := ByteSlice.get_eq_some hsome
  obtain ⟨-, hdec, hsize, hpos⟩ := readHeader_eq_ok hheader
  obtain rfl := addUsize_eq_ok hcount
  obtain rfl := addUsize_eq_ok hend
  obtain ⟨hoffsetsIn, rfl⟩ := castSlice_eq_ok _ hoffsets
  obtain ⟨-, hbytesIn, -, -, hstringBytes⟩ := ByteSlice.get_eq_some (failWith_eq_ok.mp hbytes)
  obtain ⟨rfl, hnarrow, hwide⟩ := readColumns_eq_ok hcolumns
  have hstarts := (isNondecreasing_iff _).mp (ensure_eq_ok.mp hordered)
  rw [hsize] at hstarts
  have hheaderIn : headerLayout.size ≤ header.offsets.recordLen := by
    refine (List.pairwise_cons.mp hstarts).1 _ ?_
    simp only [List.mem_cons, true_or, or_true]
  rw [Nat.sub_zero] at hrecordLen hrecordBytes
  refine ⟨record, hsome, hrecordLen, ?_, ?_, ?_, ?_, rfl, ?_, rfl⟩
  · rw [hrecordLen]
    exact Nat.pos_of_ne_zero hpos
  · show header = headerLayout.dec (slice record.bytes 0 headerLayout.size)
    rw [hrecordBytes, slice_slice _ (by omega)]
    exact hdec
  · rw [Nat.add_sub_cancel_left] at hstringBytes
    simp only [List.forall_mem_cons, List.not_mem_nil, false_implies, implies_true,
      and_true] at hnarrow hwide
    obtain ⟨b₁, b₂, b₃, b₄, b₅, b₆, b₇, b₈⟩ := hnarrow
    obtain ⟨w₁, w₂, w₃⟩ := hwide
    unfold CounterDumpRecordHeader.sections
    simp only [List.forall_mem_cons, List.not_mem_nil, false_implies, implies_true, and_true]
    refine ⟨?_, hoffsetsIn, hbytesIn, b₁, b₂, b₃, b₄, w₁, w₂, b₅, b₆, b₇, b₈, w₃⟩
    rw [hrecordLen, Nat.zero_add]
    exact hheaderIn
  · -- the starts of the sections are among the numbers that were compared
    have hsorted : (header.sections.map Prod.fst).Pairwise (· ≤ ·) := by
      refine List.pairwise_cons.mpr ⟨fun start _ => Nat.zero_le start, ?_⟩
      refine (List.pairwise_cons.mp hstarts).2.sublist ?_
      exact List.sublist_append_left _ [header.offsets.recordLen]
    exact List.pairwise_map.mp hsorted
  · rw [Nat.add_sub_cancel_left] at hstringBytes
    exact hstringBytes

end ReadRecord

/-! ### Reading a file -/

/-- The length of a record takes the loop forward, but not behind the end. -/
theorem parseRecord_tail {bytes remaining : ByteSlice} {offset : ℕ} {view : CounterDumpRecordView}
    (htail : bytes.tail offset = .ok remaining) (h : parseRecord remaining offset = .ok view) :
    offset + view.header.recordLen.toNat ≤ bytes.len ∧ 0 < view.header.recordLen.toNat ∧
      ∃ record, bytes.get offset (offset + view.header.recordLen.toNat) = some record ∧
        Shows record view := by
  obtain ⟨record, hrecord, hshows⟩ := parseRecord_eq_ok h
  obtain ⟨hle, -, haddr, hlen, hbytes⟩ := ByteSlice.get_eq_some (ByteSlice.tail_eq_ok htail)
  obtain ⟨-, hin, haddr', hlen', hbytes'⟩ := ByteSlice.get_eq_some hrecord
  have hend : offset + view.header.recordLen.toNat ≤ bytes.len := by omega
  obtain ⟨part, hpart⟩ := ByteSlice.get_of_le (Nat.le_add_right _ _) hend
  obtain ⟨-, -, haddr'', -, hbytes''⟩ := ByteSlice.get_eq_some hpart
  have hsame : part = record := by
    ext1
    · rw [haddr'', haddr', haddr, Nat.add_zero]
    · rw [hbytes'', hbytes', hbytes, Nat.add_sub_cancel_left, Nat.sub_zero,
        slice_slice _ (by omega), Nat.add_zero]
  subst hsame
  refine ⟨hend, ?_, part, hpart, hshows⟩
  rw [← hshows.len]
  exact hshows.len_pos

/-- **The loop settles** when it has more fuel than there are bytes left. -/
theorem settles_parseFrom {bytes : ByteSlice} {fuel offset : ℕ} (hoffset : offset ≤ bytes.len)
    (hfuel : bytes.len < offset + fuel) : Settles (parseFrom bytes fuel offset) := by
  induction fuel generalizing offset with
  | zero => omega
  | succ fuel ih =>
    rw [parseFrom]
    split
    · rename_i hmore
      refine settles_bind (ByteSlice.settles_tail hoffset) fun remaining htail => ?_
      refine settles_bind settles_parseRecord fun view hview => ?_
      obtain ⟨hend, hpos, -⟩ := parseRecord_tail htail hview
      have hmax := bytes.len_le
      have hlen : bytes.len = bytes.bytes.length := rfl
      refine settles_bind (settles_addUsize (by omega)) fun next hnext => ?_
      obtain rfl := addUsize_eq_ok hnext
      exact settles_bind (ih hend (by omega)) fun _ _ => settles_ok _
    · exact settles_ok _

/-- **The records tile the file.** -/
theorem tiles_of_parseFrom {bytes : ByteSlice} {fuel offset : ℕ}
    {views : List CounterDumpRecordView} (hoffset : offset ≤ bytes.len)
    (h : parseFrom bytes fuel offset = .ok views) : Tiles bytes offset views := by
  induction fuel generalizing offset views with
  | zero => cases h
  | succ fuel ih =>
    rw [parseFrom] at h
    split at h
    · obtain ⟨remaining, htail, h⟩ := bind_eq_ok.mp h
      obtain ⟨view, hview, h⟩ := bind_eq_ok.mp h
      obtain ⟨next, hnext, h⟩ := bind_eq_ok.mp h
      obtain ⟨records, hrecords, hviews⟩ := bind_eq_ok.mp h
      obtain rfl := addUsize_eq_ok hnext
      obtain rfl := Except.ok.inj hviews
      obtain ⟨hend, -, record, hrecord, hshows⟩ := parseRecord_tail htail hview
      exact ⟨record, hrecord, hshows, ih hend hrecords⟩
    · rename_i hdone
      obtain rfl := Except.ok.inj h
      show offset = bytes.len
      omega

/-- Every view of a file shows one of its parts. -/
theorem Tiles.shows {bytes : ByteSlice} {offset : ℕ} {views : List CounterDumpRecordView}
    (h : Tiles bytes offset views) {view : CounterDumpRecordView} (hview : view ∈ views) :
    ∃ record, Shows record view := by
  induction views generalizing offset with
  | nil => cases hview
  | cons first views ih =>
    obtain ⟨record, -, hshows, hrest⟩ := h
    rcases List.mem_cons.mp hview with rfl | hview
    · exact ⟨record, hshows⟩
    · exact ih hrest hview

/-! ### Rows -/

section Rows

variable {record : ByteSlice} {view : CounterDumpRecordView} (utf8Error : List UInt8 → String)

theorem settles_resolveStringId (view : CounterDumpRecordView) (stringId : UInt32) :
    Settles (view.resolveStringId utf8Error stringId) := by
  have hid : stringId.toNat < 4294967296 := stringId.toNat_lt
  refine settles_bind (settles_failWith _ _) fun start _ => ?_
  refine settles_bind (settles_addUsize (by omega)) fun next _ => ?_
  refine settles_bind (settles_failWith _ _) fun stop _ => ?_
  exact settles_bind (settles_failWith _ _) fun bytes _ => settles_failWith _ _

theorem settles_resolveOptionalStringId (view : CounterDumpRecordView) (stringId : UInt32) :
    Settles (view.resolveOptionalStringId utf8Error stringId) := by
  unfold CounterDumpRecordView.resolveOptionalStringId
  split
  · exact settles_ok _
  · have hresolve := settles_resolveStringId utf8Error view stringId
    cases hid : view.resolveStringId utf8Error stringId with
    | ok value => exact settles_ok _
    | error stop =>
      rw [hid] at hresolve
      exact ⟨fun h => hresolve.1 (congrArg _ (Except.error.inj h)),
        fun h => hresolve.2 (congrArg _ (Except.error.inj h))⟩

theorem Shows.settles_instrId (h : Shows record view) {index : ℕ} (hindex : index < view.rowCount) :
    Settles (view.instrId index) := by
  have hcolumns := h.columns
  have hrows : view.rowCount = view.header.rowCount.toNat := by
    rw [CounterDumpRecordView.rowCount, hcolumns]
    exact Layout.decAll_length _ _ _
  rw [hrows] at hindex
  refine settles_bind (settles_indexed ?_) fun blockLabel _ => ?_
  · rw [hcolumns]
    exact Nat.lt_of_lt_of_eq hindex (Layout.decAll_length _ _ _).symm
  split
  · exact settles_ok _
  · refine settles_bind (settles_indexed ?_) fun instrIndex _ => ?_
    · rw [hcolumns]
      exact Nat.lt_of_lt_of_eq hindex (Layout.decAll_length _ _ _).symm
    split
    · exact settles_ok _
    · refine settles_bind ?_ fun _ _ => settles_ok _
      rw [blockLabelFromIndex, if_pos blockLabel.toNat_lt]
      exact settles_ok _

/-- **A row settles**, for every index. -/
theorem Shows.settles_row (h : Shows record view) (index : ℕ) :
    Settles (view.row utf8Error index) := by
  refine settles_bind (settles_ensure _ _) fun _ hensure => ?_
  have hindex := ensure_eq_ok.mp hensure
  have hinstr := h.settles_instrId hindex
  have hcolumns := h.columns
  rw [CounterDumpRecordView.rowCount, hcolumns] at hindex
  have hlt : index < view.header.rowCount.toNat :=
    Nat.lt_of_lt_of_eq hindex (Layout.decAll_length _ _ _)
  have hcolumn : ∀ {T : Type} (layout : Layout T) (bytes : List UInt8),
      Settles (indexed (layout.decAll view.header.rowCount.toNat bytes) index) := by
    intro T layout bytes
    exact settles_indexed (Nat.lt_of_lt_of_eq hlt (layout.decAll_length _ _).symm)
  rw [hcolumns]
  refine settles_bind (hcolumn _ _) fun _ _ => ?_
  refine settles_bind (hcolumn _ _) fun _ _ => ?_
  refine settles_bind (settles_resolveStringId _ _ _) fun _ _ => ?_
  refine settles_bind (hcolumn _ _) fun _ _ => ?_
  refine settles_bind (settles_resolveStringId _ _ _) fun _ _ => ?_
  refine settles_bind (hcolumn _ _) fun _ _ => ?_
  refine settles_bind (settles_resolveStringId _ _ _) fun _ _ => ?_
  refine settles_bind (hcolumn _ _) fun _ _ => ?_
  refine settles_bind (hcolumn _ _) fun _ _ => ?_
  refine settles_bind hinstr fun _ _ => ?_
  refine settles_bind (hcolumn _ _) fun _ _ => ?_
  refine settles_bind (settles_resolveOptionalStringId _ _ _) fun _ _ => ?_
  refine settles_bind (hcolumn _ _) fun _ _ => ?_
  refine settles_bind (settles_resolveOptionalStringId _ _ _) fun _ _ => ?_
  exact settles_bind (hcolumn _ _) fun _ _ => settles_ok _

end Rows

end DietPython.Counters
