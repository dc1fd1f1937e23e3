import Mathlib.Data.List.Basic
import Mathlib.Data.Nat.Notation

/-!
# Lowering of import statements

An import statement becomes assignments of calls of `import_` and `import_attr`, and
`from m import *` a call of `import_star`. Most of the code is written as text and parsed again, so
the names in it go through `{:?}` and a string literal of Python. `readLiteral_debugText` says which
names come out of that.
-/

namespace DietPython.Imports

/-! ## Statements -/

abbrev Text := List Char

/-- No quote, no backslash and no control character that `{:?}` has an escape for. -/
def IsPlain (c : Char) : Prop :=
  c ≠ '"' ∧ c ≠ '\\' ∧ c ≠ '\x00' ∧ c ≠ '\t' ∧ c ≠ '\r' ∧ c ≠ '\n'

instance : DecidablePred IsPlain := fun _ => inferInstanceAs (Decidable (_ ∧ _))

theorem forall_mem_singleton_plain {c : Char} (h : IsPlain c) : ∀ c' ∈ [c], IsPlain c' := by
  intro c' hc'
  rw [List.mem_singleton.mp hc']
  exact h

/-- An identifier, identifiers with dots between them, or `*`. -/
structure SourceName where
  text : Text
  plain : ∀ c ∈ text, IsPlain c

structure ImportAlias where
  name : SourceName
  asname : Option SourceName

def starText : Text := ['*']

def futureText : Text := "__future__".toList

def knownFutureFeatures : List Text :=
  ["nested_scopes", "generators", "division", "absolute_import", "with_statement",
    "print_function", "unicode_literals", "barry_as_FLUFL", "generator_stop",
    "annotations"].map String.toList

def isKnownFutureFeature (feature : Text) : Bool := knownFutureFeatures.contains feature

/-- A from-import that Python compiles. -/
structure StmtImportFrom where
  moduleName : Option SourceName
  names : List ImportAlias
  level : ℕ
  /-- The statement stands in the body of the module itself. -/
  atTopLevel : Bool
  nonempty : names ≠ []
  star_alone : ∀ a ∈ names, a.name.text = starText → names = [a]
  future : moduleName.map SourceName.text = some futureText → level = 0 →
    atTopLevel = true ∧ ∀ a ∈ names, isKnownFutureFeature a.name.text = true

namespace StmtImportFrom

variable (stmt : StmtImportFrom)

def moduleText : Text := (stmt.moduleName.map SourceName.text).getD []

def isStar : Bool := stmt.names.any fun a => a.name.text == starText

/-- The level is not looked at. -/
def isFutureImport : Bool := stmt.moduleName.map SourceName.text == some futureText

end StmtImportFrom

inductive ImportStmt
  | stmtImport (names : List ImportAlias)
  | stmtImportFrom (stmt : StmtImportFrom)

/-! ## Names in the text of the code -/

/-- The tables of Rust's `char` that `{:?}` consults. -/
structure DebugTable where
  graphemeExtended : Char → Bool
  printable : Char → Bool

def DebugTable.escapes (table : DebugTable) (c : Char) : Bool :=
  table.graphemeExtended c || !table.printable c

def unicodeEscape (c : Char) : Text :=
  ['\\', 'u', '{'] ++ (Nat.toDigits 16 c.toNat ++ ['}'])

def debugChar (table : DebugTable) (c : Char) : Text :=
  if c = '\x00' then ['\\', '0']
  else if c = '\t' then ['\\', 't']
  else if c = '\r' then ['\\', 'r']
  else if c = '\n' then ['\\', 'n']
  else if c = '\\' ∨ c = '"' then ['\\', c]
  else if table.escapes c then unicodeEscape c
  else [c]

/-- `{:?}` of a string. -/
def debugText (table : DebugTable) (text : Text) : Text :=
  '"' :: text.flatMap (debugChar table) ++ ['"']

/-- What a backslash and the next character stand for in Python. A brace is no hexadecimal digit, so
`\u` in front of one is an error. -/
def readEscape : Char → Option Char
  | '\\' => some '\\'
  | '"' => some '"'
  | 'n' => some '\n'
  | 'r' => some '\r'
  | 't' => some '\t'
  | '0' => some '\x00'
  | _ => none

/-- The rest of a string literal, up to the closing quote. -/
def readBody : Text → Option Text
  | [] => none
  | '"' :: rest => if rest.isEmpty then some [] else none
  | ['\\'] => none
  | '\\' :: c :: rest => (readEscape c).bind fun c => (readBody rest).map (c :: ·)
  | c :: rest => (readBody rest).map (c :: ·)

/-- The string that the parser takes a literal for. -/
def readLiteral : Text → Option Text
  | '"' :: rest => readBody rest
  | _ => none

section Literals

variable {table : DebugTable}

theorem debugChar_of_plain {c : Char} (h : IsPlain c) :
    debugChar table c = if table.escapes c then unicodeEscape c else [c] := by
  obtain ⟨hquote, hbackslash, hnul, htab, hreturn, hnewline⟩ := h
  unfold debugChar
  rw [if_neg hnul, if_neg htab, if_neg hreturn, if_neg hnewline, if_neg]
  rintro (h | h)
  · exact hbackslash h
  · exact hquote h

theorem readBody_cons {c : Char} (h : IsPlain c) (rest : Text) :
    readBody (c :: rest) = (readBody rest).map (c :: ·) := by
  obtain ⟨hquote, hbackslash, _⟩ := h
  rw [readBody]
  · exact hquote
  · exact fun heq _ => hbackslash heq
  · exact fun _ _ heq _ => hbackslash heq

theorem readBody_unicodeEscape (c : Char) (rest : Text) :
    readBody (unicodeEscape c ++ rest) = none := by
  show readBody ('\\' :: 'u' :: _) = none
  rw [readBody]
  rfl

theorem readBody_debug {text : Text} (h : ∀ c ∈ text, IsPlain c) :
    readBody (text.flatMap (debugChar table) ++ ['"']) =
      if text.any table.escapes then none else some text := by
  induction text with
  | nil => rfl
  | cons c text ih =>
    obtain ⟨hc, hrest⟩ := List.forall_mem_cons.mp h
    rw [List.flatMap_cons, List.append_assoc, debugChar_of_plain hc, List.any_cons]
    cases hescapes : table.escapes c with
    | true =>
      rw [if_pos rfl, readBody_unicodeEscape]
      rfl
    | false =>
      rw [if_neg Bool.false_ne_true, List.singleton_append, readBody_cons hc, ih hrest,
        Bool.false_or]
      cases text.any table.escapes <;> rfl

/-- A name comes out of the text unless `{:?}` writes one of its characters as a number. -/
theorem readLiteral_debugText {text : Text} (h : ∀ c ∈ text, IsPlain c) :
    readLiteral (debugText table text) = if text.any table.escapes then none else some text :=
  readBody_debug h

end Literals

/-! ## The lowered code -/

inductive ImportExpr
  /-- `__soac__.import_(name, __spec__, fromlist, level)`; the defaults are `None` and 0 -/
  | import_ (name : Text) (fromlist : Option (List Text)) (level : ℕ)
  /-- `__soac__.import_attr(value, attr)` -/
  | importAttr (value : ImportExpr) (attr : Text)
  /-- The temporary of the statement. -/
  | loadTemp

inductive ImportTarget
  | temp
  | name (name : Text)

inductive LoweredImport
  | assign (target : ImportTarget) (value : ImportExpr)
  /-- `__soac__.import_star(name, __spec__, globals(), level)` -/
  | importStar (name : Text) (level : ℕ)

/-- A name that is written into the text; the parser's failure is a panic. -/
def writtenName (table : DebugTable) (text : Text) : Option Text :=
  readLiteral (debugText table text)

namespace ImportAlias

variable (a : ImportAlias)

/-- `module_name.split('.')` -/
def parts : List Text := a.name.text.splitOn '.'

def bindingOfImport : Text := (a.asname.map SourceName.text).getD (a.parts.headD [])

def bindingOfFrom : Text := (a.asname.map SourceName.text).getD a.name.text

def needsFromlist : Bool := a.asname.isSome && a.name.text.contains '.'

end ImportAlias

def rewriteAlias (table : DebugTable) (a : ImportAlias) : Option LoweredImport :=
  if a.needsFromlist then do
    let name ← writtenName table a.name.text
    let attrs ← a.parts.tail.mapM (writtenName table)
    return .assign (.name a.bindingOfImport)
      (attrs.foldl .importAttr (.import_ name none 0))
  else
    some (.assign (.name a.bindingOfImport) (.import_ a.name.text none 0))

def rewrite (table : DebugTable) (names : List ImportAlias) : Option (List LoweredImport) :=
  names.mapM (rewriteAlias table)

def rewriteFrom (table : DebugTable) (stmt : StmtImportFrom) : Option (List LoweredImport) := do
  if stmt.isStar then
    let name ← writtenName table stmt.moduleText
    return [.importStar name stmt.level]
  else
    let fromlist ← stmt.names.mapM fun a => writtenName table a.name.text
    let name ← writtenName table stmt.moduleText
    return .assign .temp (.import_ name (some fromlist) stmt.level) ::
      stmt.names.map fun a =>
        .assign (.name a.bindingOfFrom) (.importAttr .loadTemp a.name.text)

/-- The lowered code of a statement, if lowering does not fail. Imports of `__future__` in the body
of the module are taken out before. -/
def lower (table : DebugTable) : ImportStmt → Option (List LoweredImport)
  | .stmtImport names => rewrite table names
  | .stmtImportFrom stmt =>
    if stmt.atTopLevel && stmt.isFutureImport then
      if stmt.names.all fun a => isKnownFutureFeature a.name.text then some [] else none
    else
      rewriteFrom table stmt

/-! ## Names that come through the text -/

/-- The assignment that an alias of `import` becomes, if its names come through the text. -/
def ImportAlias.lowered (a : ImportAlias) : LoweredImport :=
  .assign (.name a.bindingOfImport) <|
    (if a.needsFromlist then a.parts.tail else []).foldl .importAttr
      (.import_ a.name.text none 0)

def StmtImportFrom.lowered (stmt : StmtImportFrom) : List LoweredImport :=
  .assign .temp
      (.import_ stmt.moduleText (some (stmt.names.map fun a => a.name.text)) stmt.level) ::
    stmt.names.map fun a => .assign (.name a.bindingOfFrom) (.importAttr .loadTemp a.name.text)

/-- A name of the statement that is written into the text has a character that `{:?}` writes as a
number. -/
def ImportStmt.hasEscapedName (table : DebugTable) : ImportStmt → Bool
  | .stmtImport names => names.any fun a => a.needsFromlist && a.name.text.any table.escapes
  | .stmtImportFrom stmt => stmt.moduleText.any table.escapes ||
    (!stmt.isStar && stmt.names.any fun a => a.name.text.any table.escapes)

theorem mapM_ite {α β : Type} (p : α → Bool) (f : α → β) (l : List α) :
    (l.mapM fun a => if p a then none else some (f a)) =
      if l.any p then none else some (l.map f) := by
  induction l with
  | nil => rfl
  | cons a l ih =>
    rw [List.mapM_cons, ih, List.any_cons]
    cases p a with
    | true => rfl
    | false =>
      rw [Bool.false_or]
      cases l.any p <;> rfl

theorem subset_of_mem_splitOn (text : Text) : ∀ part ∈ text.splitOn '.', part ⊆ text := by
  induction text with
  | nil =>
    intro part hpart
    rw [List.mem_singleton.mp hpart]
    exact List.Subset.refl _
  | cons c text ih =>
    intro part hpart
    obtain ⟨first, parts, hparts⟩ := List.exists_cons_of_ne_nil (List.splitOn_ne_nil '.' text)
    rw [List.splitOn_cons_eq_if_modifyHead] at hpart
    rw [hparts] at ih hpart
    split at hpart
    · rcases List.mem_cons.mp hpart with rfl | hpart
      · exact List.nil_subset _
      · exact List.subset_cons_of_subset c (ih part hpart)
    · rcases List.mem_cons.mp hpart with rfl | hpart
      · exact List.cons_subset_cons c (ih first List.mem_cons_self)
      · exact List.subset_cons_of_subset c (ih part (List.mem_cons_of_mem first hpart))

theorem mapM_eq_some_self {α : Type} {f : α → Option α} {l : List α}
    (h : ∀ a ∈ l, f a = some a) : l.mapM f = some l := by
  induction l with
  | nil => rfl
  | cons a l ih =>
    obtain ⟨ha, hl⟩ := List.forall_mem_cons.mp h
    rw [List.mapM_cons, ha, ih hl]
    rfl

section Rewriting

variable (table : DebugTable)

theorem writtenName_eq {text : Text} (h : ∀ c ∈ text, IsPlain c) :
    writtenName table text = if text.any table.escapes then none else some text :=
  readLiteral_debugText h

theorem SourceName.written (name : SourceName) :
    writtenName table name.text = if name.text.any table.escapes then none else some name.text :=
  writtenName_eq table name.plain

theorem StmtImportFrom.moduleText_written (stmt : StmtImportFrom) :
    writtenName table stmt.moduleText =
      if stmt.moduleText.any table.escapes then none else some stmt.moduleText := by
  unfold moduleText
  cases stmt.moduleName with
  | none => rfl
  | some name => exact name.written table

theorem parts_written {a : ImportAlias} (h : a.name.text.any table.escapes = false) :
    a.parts.tail.mapM (writtenName table) = some a.parts.tail := by
  refine mapM_eq_some_self fun part hpart => ?_
  have hsub := subset_of_mem_splitOn a.name.text part (List.mem_of_mem_tail hpart)
  have hany : part.any table.escapes = false := by
    rw [List.any_eq_false] at h ⊢
    exact fun c hc => h c (hsub hc)
  rw [writtenName_eq table fun c hc => a.name.plain c (hsub hc), hany]
  rfl

theorem rewriteAlias_eq (a : ImportAlias) : rewriteAlias table a =
    if a.needsFromlist && a.name.text.any table.escapes then none else some a.lowered := by
  unfold rewriteAlias ImportAlias.lowered
  cases a.needsFromlist with
  | false => rfl
  | true =>
    rw [a.name.written table]
    cases hany : a.name.text.any table.escapes with
    | true => rfl
    | false =>
      show ((a.parts.tail.mapM (writtenName table)).bind fun attrs => some _) = _
      rw [parts_written table hany]
      rfl

theorem rewrite_eq (names : List ImportAlias) : rewrite table names =
    if (ImportStmt.stmtImport names).hasEscapedName table then none
    else some (names.map ImportAlias.lowered) := by
  unfold rewrite
  rw [funext (rewriteAlias_eq table), mapM_ite]
  rfl

theorem rewriteFrom_eq (stmt : StmtImportFrom) : rewriteFrom table stmt =
    if (ImportStmt.stmtImportFrom stmt).hasEscapedName table then none
    else some (if stmt.isStar then [.importStar stmt.moduleText stmt.level]
      else stmt.lowered) := by
  unfold rewriteFrom
  rw [stmt.moduleText_written table]
  show _ = if (stmt.moduleText.any table.escapes || (!stmt.isStar &&
    stmt.names.any fun a => a.name.text.any table.escapes)) = true then none else _
  cases stmt.isStar with
  | true =>
    cases stmt.moduleText.any table.escapes <;> rfl
  | false =>
    have hnames := mapM_ite (fun a : ImportAlias => a.name.text.any table.escapes)
      (fun a => a.name.text) stmt.names
    rw [if_neg Bool.false_ne_true, funext fun a : ImportAlias => a.name.written table, hnames]
    cases stmt.names.any fun a => a.name.text.any table.escapes <;>
      cases stmt.moduleText.any table.escapes <;> rfl

end Rewriting

end DietPython.Imports
