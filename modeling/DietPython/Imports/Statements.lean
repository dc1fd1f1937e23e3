import DietPython.Imports.Machinery
import DietPython.Syntax.PrivateNames

/-!
# Running import statements

Python runs an import statement as a list of instructions that hold one module. The lowered code
evaluates nested calls and keeps the module in a temporary. `observed_runLowered` turns the lowered
code into the same list of instructions, with the helpers in place of `IMPORT_NAME` and
`IMPORT_FROM`.
-/

namespace DietPython.Imports

open Lockstep

/-- The module that is held, or the temporary of the lowered code, and the world. -/
structure ImportState (W O : Type) where
  held : Value O
  world : W

/-! ## Instructions -/

inductive ImportOp
  /-- `IMPORT_NAME`, and the module is held -/
  | importName (name : Text) (fromlist : List Text) (level : ℕ)
  /-- `IMPORT_FROM`, and the attribute is held in place of the module -/
  | enter (attr : Text)
  /-- `STORE_NAME` of the module, which is held no longer -/
  | storeModule (name : Text)
  /-- `IMPORT_FROM` and `STORE_NAME` -/
  | storeAttr (attr name : Text)

/-- `import a.b.c` binds `a`, and `import a.b.c as x` goes down to `c`. -/
def ImportAlias.ops (a : ImportAlias) : List ImportOp :=
  .importName a.name.text [] 0 ::
    match a.asname with
    | none => [.storeModule (firstPart a.name.text)]
    | some asname => a.parts.tail.map .enter ++ [.storeModule asname.text]

def StmtImportFrom.ops (stmt : StmtImportFrom) : List ImportOp :=
  .importName stmt.moduleText (stmt.names.map fun a => a.name.text) stmt.level ::
    stmt.names.map fun a => .storeAttr a.name.text a.bindingOfFrom

/-- A name in the body of a class, which Python takes for a private one unless it has a dot. -/
def pythonName (className : Option String) (name : Text) : Text :=
  if name.contains '.' then name
  else (Syntax.pythonMangle className (String.ofList name)).toList

/-- The instruction that Python makes in the body of a class. The names of a from-import are private
where they are read and bound, but not in the list that `__import__` gets, and the parts that
`import a.b as x` goes down to are never private. -/
def ImportOp.inClass (className : Option String) : ImportOp → ImportOp
  | .importName name fromlist level => .importName (pythonName className name) fromlist level
  | .enter attr => .enter attr
  | .storeModule name => .storeModule (pythonName className name)
  | .storeAttr attr name => .storeAttr (pythonName className attr) (pythonName className name)

def ImportStmt.ops : ImportStmt → List ImportOp
  | .stmtImport names => names.flatMap ImportAlias.ops
  | .stmtImportFrom stmt => stmt.ops

/-- Python takes no name of the statement for a private one of the class around it. -/
def ImportStmt.HasNoPrivate (className : Option String) (stmt : ImportStmt) : Prop :=
  ∀ op ∈ stmt.ops, op.inClass className = op

theorem ImportStmt.map_inClass {className : Option String} {stmt : ImportStmt}
    (h : stmt.HasNoPrivate className) : stmt.ops.map (.inClass className) = stmt.ops :=
  (List.map_congr_left h).trans (List.map_id _)

variable {W O E : Type}

/-- An instruction, on top of a way to import a module and one to read an attribute of it. -/
def stepWith (importModule : Text → List Text → ℕ → W → Answer W E (Value O))
    (attrOf : Value O → Text → W → Emitted (ImportEvent O) E (Value O × W)) :
    ImportOp → ImportState W O → Emitted (ImportEvent O) E (ImportState W O)
  | .importName name fromlist level, s =>
    (call (importModule name fromlist level s.world)).andThen fun (o, w) => ⟨[], .ok ⟨o, w⟩⟩
  | .enter attr, s => (attrOf s.held attr s.world).andThen fun (o, w) => ⟨[], .ok ⟨o, w⟩⟩
  | .storeModule name, s => ⟨[.bound name s.held], .ok ⟨.none, s.world⟩⟩
  | .storeAttr attr name, s =>
    (attrOf s.held attr s.world).andThen fun (value, w) =>
      ⟨[.bound name value], .ok ⟨s.held, w⟩⟩

namespace Interpreter

variable (py : Interpreter W O E) (spec : ModuleSpec)

def pythonStep : ImportOp → ImportState W O → Emitted (ImportEvent O) E (ImportState W O) :=
  stepWith (py.importName spec) py.importFrom

/-- The instructions with the helpers of the runtime. -/
def helperStep : ImportOp → ImportState W O → Emitted (ImportEvent O) E (ImportState W O) :=
  stepWith (fun name fromlist level => py.import_ spec name (some fromlist) level) py.importAttr

/-- A statement in Python, perhaps in the body of a class. The grammar has `*` only alone, and only
outside of classes. -/
def runPython (className : Option String) (stmt : ImportStmt) (w : W) :
    Emitted (ImportEvent O) E (ImportState W O) :=
  let code := stmt.ops.map (.inClass className)
  match stmt with
  | .stmtImport _ => run (py.pythonStep spec) code ⟨.none, w⟩
  | .stmtImportFrom stmt =>
    if stmt.names.head?.any fun a => a.name.text == starText then
      (py.importAllFrom spec stmt.moduleText stmt.level w).andThen fun w => ⟨[], .ok ⟨.none, w⟩⟩
    else run (py.pythonStep spec) code ⟨.none, w⟩

/-! ## The lowered code -/

def eval : ImportExpr → ImportState W O → Emitted (ImportEvent O) E (Value O × W)
  | .import_ name fromlist level, s => call (py.import_ spec name fromlist level s.world)
  | .importAttr value attr, s => (eval value s).andThen fun (o, w) => py.importAttr o attr w
  | .loadTemp, s => ⟨[], .ok (s.held, s.world)⟩

def exec : LoweredImport → ImportState W O → Emitted (ImportEvent O) E (ImportState W O)
  | .assign .temp value, s => (py.eval spec value s).andThen fun (o, w) => ⟨[], .ok ⟨o, w⟩⟩
  | .assign (.name name) value, s =>
    (py.eval spec value s).andThen fun (o, w) => ⟨[.bound name o], .ok ⟨s.held, w⟩⟩
  | .importStar name level, s =>
    (py.importStar spec name level s.world).andThen fun w => ⟨[], .ok ⟨s.held, w⟩⟩

def runLowered (program : List LoweredImport) (w : W) :
    Emitted (ImportEvent O) E (ImportState W O) :=
  run (py.exec spec) program ⟨.none, w⟩

end Interpreter

/-! ## The lowered code as instructions -/

theorem parts_head (a : ImportAlias) : a.parts.headD [] = firstPart a.name.text := by
  unfold ImportAlias.parts firstPart
  induction a.name.text with
  | nil => rfl
  | cons c text ih =>
    rw [List.splitOn_cons_eq_if_modifyHead, List.takeWhile_cons]
    by_cases hc : c = '.'
    · subst hc
      rfl
    · rw [if_neg (by simpa using hc), if_pos (by simpa using hc), ← ih]
      obtain ⟨part, parts, hparts⟩ := List.exists_cons_of_ne_nil (List.splitOn_ne_nil '.' text)
      rw [hparts]
      rfl

theorem parts_tail_of_no_dot {a : ImportAlias} (h : a.name.text.contains '.' = false) :
    a.parts.tail = [] := by
  have hnot : '.' ∉ a.name.text := by simpa using h
  unfold ImportAlias.parts
  rw [List.splitOn_eq_singleton hnot]
  rfl

/-- With or without `as`, the parts behind the first one are entered exactly if there is an `as`
and a dot. -/
theorem ImportAlias.ops_eq (a : ImportAlias) : a.ops = .importName a.name.text [] 0 ::
    ((if a.needsFromlist then a.parts.tail else []).map .enter ++
      [.storeModule a.bindingOfImport]) := by
  have hhead := parts_head a
  have htail := @parts_tail_of_no_dot a
  unfold ops needsFromlist bindingOfImport
  cases a.asname with
  | none =>
    rw [← hhead]
    rfl
  | some asname =>
    cases hdot : a.name.text.contains '.' with
    | true => rfl
    | false =>
      rw [htail hdot]
      rfl

section Run

variable {py : Interpreter W O E} {spec : ModuleSpec}

theorem helperStep_enter (attr : Text) (s : ImportState W O) :
    py.helperStep spec (.enter attr) s =
      (py.importAttr s.held attr s.world).andThen fun (o, w) => ⟨[], .ok ⟨o, w⟩⟩ := rfl

theorem exec_assign_name (name : Text) (value : ImportExpr) (s : ImportState W O) :
    py.exec spec (.assign (.name name) value) s = (py.eval spec value s).andThen fun (o, w) =>
      ⟨[.bound name o], .ok ⟨s.held, w⟩⟩ := rfl

/-- Nested calls of `import_attr` are evaluated from the inside. -/
theorem eval_foldl (attrs : List Text) (value : ImportExpr) (s : ImportState W O)
    (next : Value O × W → Emitted (ImportEvent O) E (ImportState W O)) :
    (py.eval spec (attrs.foldl .importAttr value) s).andThen next =
      (py.eval spec value s).andThen fun (o, w) =>
        (run (py.helperStep spec) (attrs.map .enter) ⟨o, w⟩).andThen fun s =>
          next (s.held, s.world) := by
  induction attrs generalizing value with
  | nil =>
    refine Emitted.andThen_congr fun (o, w) _ => ?_
    rfl
  | cons attr attrs ih =>
    rw [List.foldl_cons, ih, Interpreter.eval, Emitted.andThen_assoc]
    refine Emitted.andThen_congr fun (o, w) _ => ?_
    show (py.importAttr o attr w).andThen _ =
      (run (py.helperStep spec) (.enter attr :: attrs.map .enter) ⟨o, w⟩).andThen _
    rw [run_cons, Emitted.andThen_assoc, helperStep_enter, Emitted.andThen_assoc]
    rfl

/-- An alias of `import`, as instructions. -/
theorem exec_lowered_alias (a : ImportAlias) (w : W) :
    py.exec spec a.lowered ⟨.none, w⟩ = run (py.helperStep spec) a.ops ⟨.none, w⟩ := by
  rw [a.ops_eq, run_cons]
  unfold ImportAlias.lowered
  rw [exec_assign_name, eval_foldl]
  show _ = ((call (py.import_ spec a.name.text (some []) 0 w)).andThen _).andThen _
  rw [Emitted.andThen_assoc]
  refine Emitted.andThen_congr fun (o, w) _ => ?_
  show _ = run (py.helperStep spec) _ ⟨o, w⟩
  rw [run_append]
  rfl

theorem exec_lowered_held {a : ImportAlias} {s s' : ImportState W O}
    (h : (py.exec spec a.lowered s).outcome = .ok s') : s'.held = s.held := by
  unfold ImportAlias.lowered at h
  rw [exec_assign_name] at h
  generalize py.eval spec _ s = r at h
  obtain ⟨events, e | ⟨o, w⟩⟩ := r
  · cases h
  · cases h
    rfl

theorem run_lowered_aliases (names : List ImportAlias) (w : W) :
    run (py.exec spec) (names.map ImportAlias.lowered) ⟨.none, w⟩ =
      run (py.helperStep spec) (names.flatMap ImportAlias.ops) ⟨.none, w⟩ := by
  induction names generalizing w with
  | nil => rfl
  | cons a names ih =>
    rw [List.map_cons, List.flatMap_cons, run_cons, run_append, ← exec_lowered_alias]
    refine Emitted.andThen_congr fun s hs => ?_
    obtain ⟨held, w⟩ := s
    obtain rfl : held = .none := exec_lowered_held hs
    exact ih w

theorem run_lowered_from (stmt : StmtImportFrom) (w : W) :
    run (py.exec spec) stmt.lowered ⟨.none, w⟩ =
      run (py.helperStep spec) stmt.ops ⟨.none, w⟩ := by
  have hstore : ∀ (names : List ImportAlias) (s : ImportState W O),
      run (py.exec spec) (names.map fun a =>
          .assign (.name a.bindingOfFrom) (.importAttr .loadTemp a.name.text)) s =
        run (py.helperStep spec) (names.map fun a =>
          .storeAttr a.name.text a.bindingOfFrom) s := by
    intro names
    induction names with
    | nil => exact fun _ => rfl
    | cons a names ih =>
      intro s
      rw [List.map_cons, List.map_cons, run_cons, run_cons, funext ih]
      rfl
  unfold StmtImportFrom.lowered StmtImportFrom.ops
  rw [run_cons, run_cons, funext (hstore stmt.names)]
  rfl

end Run

end DietPython.Imports
