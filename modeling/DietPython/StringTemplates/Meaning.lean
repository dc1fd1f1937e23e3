import DietPython.StringTemplates.Lowering
import Mathlib.Tactic.Common

/-!
# What f-strings and t-strings mean

The meaning of an expression is a computation in a monad: what the interpolated expressions, their
conversions and their `__format__` methods do is up to the world. `World.eval` is the meaning that
Python gives to a template, and `World.evalLowered` that of the lowered expression.

1. Both evaluate in the same order, so they can only differ in texts and conversions.
2. `TextsKept` says that those are the same, and `evalLowered_lower` that the meanings then are.
-/

namespace DietPython.StringTemplates

/-! ## Objects -/

/-- A `str`: code points, which need not be characters. -/
abbrev PyStr := List ℕ

def ofString (text : String) : PyStr := text.toList.map Char.toNat

structure Interpolation (V : Type) where
  value : V
  expression : PyStr
  conversion : Option PyStr
  formatSpec : PyStr

/-- An argument of `Template`. -/
inductive TemplateItem (V : Type)
  | text (text : PyStr)
  | interpolation (interpolation : Interpolation V)

/-- A `Template`: the first string, and each interpolation with the string behind it. -/
abbrev Template (V : Type) := PyStr × List (Interpolation V × PyStr)

/-- Strings that stand next to each other become one. -/
def Template.ofItems {V : Type} : List (TemplateItem V) → Template V
  | [] => ([], [])
  | .text text :: rest => (text ++ (ofItems rest).1, (ofItems rest).2)
  | .interpolation i :: rest => ([], (i, (ofItems rest).1) :: (ofItems rest).2)

/-- What the meaning of an expression depends on. -/
structure World (O V : Type) (M : Type → Type) where
  /-- Another form of expression, which may evaluate its children in any way. -/
  other : O → List (M V) → M V
  ofStr : PyStr → V
  /-- `str`, `ascii` or `repr` of an object -/
  convert : ConversionFlag → V → M V
  /-- `format` of an object -/
  format : V → PyStr → M PyStr
  template : Template V → M V

/-! ## Python -/

/-- The text of a replacement field without its comments. `inString` is the quote of a string that
the scanner is in. -/
def stripCommentsFrom (inString : Option Char) (inComment : Bool) : List Char → List Char
  | [] => []
  | '\\' :: c :: rest =>
    if inComment then stripCommentsFrom inString true (c :: rest)
    else '\\' :: c :: stripCommentsFrom inString false rest
  | c :: rest =>
    if inComment then
      if c = '\n' then c :: stripCommentsFrom none false rest
      else stripCommentsFrom none true rest
    else if c = '"' ∨ c = '\'' then
      c :: stripCommentsFrom
        (match inString with
          | none => some c
          | some quote => if c = quote then none else inString) false rest
    else if c = '#' ∧ inString = none then stripCommentsFrom none true rest
    else c :: stripCommentsFrom inString false rest

/-- The text that a form with `=` puts before the value. -/
def debugSource (source : String) (debugText : Option DebugText) : String :=
  match debugText with
  | some debug =>
    String.ofList
      (stripCommentsFrom none false (debug.leading ++ source ++ debug.trailing).toList)
  | none => ""

/-- The conversion of an interpolation: a form with `=` has `repr` if nothing else is said. -/
def conversionOf (debugText : Option DebugText) (conversion : ConversionFlag)
    (hasFormatSpec : Bool) : ConversionFlag :=
  if debugText.isSome ∧ conversion = .none ∧ hasFormatSpec = false then .repr else conversion

/-- The string that a form with `=` puts before an interpolation of a template. -/
def debugItems {V : Type} (source : String) (debugText : Option DebugText) :
    List (TemplateItem V) :=
  if debugSource source debugText = "" then []
  else [.text (ofString (debugSource source debugText))]

namespace World

variable {O V : Type} {M : Type → Type} [Monad M] (w : World O V M)

def converted (conversion : ConversionFlag) (value : V) : M V :=
  if conversion = .none then pure value else w.convert conversion value

mutual

def eval : Expr O → M V
  | .other op children => w.other op (evalChildren children)
  | .fString parts => do return w.ofStr (← evalParts parts)
  | .tString pieces => do w.template (Template.ofItems (← evalPieces pieces))

def evalChildren : Exprs O → List (M V)
  | .nil => []
  | .cons head tail => eval head :: evalChildren tail

def evalParts : FStringParts O → M PyStr
  | .nil => pure []
  | .literal value rest => do return ofString value ++ (← evalParts rest)
  | .fString elements rest => do
    let text ← evalElements elements
    return text ++ (← evalParts rest)

def evalElements : Elements O → M PyStr
  | .nil => pure []
  | .literal value rest => do return ofString value ++ (← evalElements rest)
  | .interpolation expression source debugText conversion formatSpec rest => do
    let value ← eval expression
    let value ← w.converted (conversionOf debugText conversion formatSpec.isSome) value
    let spec ← evalFormatSpec formatSpec
    let text ← w.format value spec
    return ofString (debugSource source debugText) ++ (text ++ (← evalElements rest))

def evalFormatSpec : FormatSpec O → M PyStr
  | .none => pure []
  | .some elements => evalElements elements

def evalPieces : TStrings O → M (List (TemplateItem V))
  | .nil => pure []
  | .cons elements rest => do
    let items ← evalTemplateElements elements
    return items ++ (← evalPieces rest)

def evalTemplateElements : Elements O → M (List (TemplateItem V))
  | .nil => pure []
  | .literal value rest => do return .text (ofString value) :: (← evalTemplateElements rest)
  | .interpolation expression source debugText conversion formatSpec rest => do
    let value ← eval expression
    let spec ← evalFormatSpec formatSpec
    let items ← evalTemplateElements rest
    return debugItems source debugText ++
      .interpolation ⟨value, ofString source,
        (conversionExpr (conversionOf debugText conversion formatSpec.isSome)).map ofString,
        spec⟩ :: items

end

/-! ## Lowered expressions -/

mutual

def evalLowered : Lowered O → M V
  | .other op children => w.other op (evalLowereds children)
  | .convert conversion value => do w.convert conversion (← evalLowered value)
  | .text text => do return w.ofStr (← evalText text)
  | .template parts => do w.template (Template.ofItems (← evalTemplateParts parts))

def evalLowereds : Lowereds O → List (M V)
  | .nil => []
  | .cons head tail => evalLowered head :: evalLowereds tail

def evalText : LoweredText O → M PyStr
  | .literal value => pure (ofString value)
  | .format value => do w.format (← evalLowered value) []
  | .formatSpec value spec => do
    let value ← evalLowered value
    let spec ← evalText spec
    w.format value spec
  | .join parts => evalTexts parts

/-- The parts of a `join`, put together. -/
def evalTexts : LoweredTexts O → M PyStr
  | .nil => pure []
  | .cons head tail => do
    let text ← evalText head
    return text ++ (← evalTexts tail)

def evalTemplateParts : TemplateParts O → M (List (TemplateItem V))
  | .nil => pure []
  | .literal value rest => do return .text (ofString value) :: (← evalTemplateParts rest)
  | .interpolation value exprText conversion spec rest => do
    let value ← evalLowered value
    let spec ← evalText spec
    let items ← evalTemplateParts rest
    return .interpolation ⟨value, ofString exprText, conversion.map ofString, spec⟩ :: items

end

end World

/-! ## Templates whose texts are kept -/

section Kept

variable {O : Type} (printer : Expr O → String)

mutual

/-- Every text that is made from a printed expression is the one in the source, and no conversion
is dropped or missed. -/
def TextsKept : Expr O → Prop
  | .other _ children => ChildrenKept children
  | .fString parts => PartsKept parts
  | .tString pieces => PiecesKept pieces

def ChildrenKept : Exprs O → Prop
  | .nil => True
  | .cons head tail => TextsKept head ∧ ChildrenKept tail

def PartsKept : FStringParts O → Prop
  | .nil => True
  | .literal _ rest => PartsKept rest
  | .fString elements rest => ElementsKept elements ∧ PartsKept rest

/-- In an f-string: the text of a form with `=` is right, and there is no `:` in a comment behind
a form with `=` that has both `!r` and a format specification. -/
def ElementsKept : Elements O → Prop
  | .nil => True
  | .literal _ rest => ElementsKept rest
  | .interpolation expression source debugText conversion formatSpec rest =>
    debugLiteral printer expression debugText = debugSource source debugText ∧
      (∀ debug, debugText = some debug → conversion = .repr → formatSpec.isSome = true →
        ':' ∉ debug.trailing.toList) ∧
      TextsKept expression ∧ FormatSpecKept formatSpec ∧ ElementsKept rest

def FormatSpecKept : FormatSpec O → Prop
  | .none => True
  | .some elements => ElementsKept elements

def PiecesKept : TStrings O → Prop
  | .nil => True
  | .cons elements rest => TemplateElementsKept elements ∧ PiecesKept rest

/-- In a t-string: there is no form with `=`, as far as it has a text or a conversion, and the
printed expression is the one in the source. -/
def TemplateElementsKept : Elements O → Prop
  | .nil => True
  | .literal _ rest => TemplateElementsKept rest
  | .interpolation expression source debugText conversion formatSpec rest =>
    debugSource source debugText = "" ∧
      (debugText.isSome = true → conversion = .none → formatSpec.isSome = true) ∧
      trimEnd (printer expression) = source ∧
      TextsKept expression ∧ FormatSpecKept formatSpec ∧ TemplateElementsKept rest

end

end Kept

/-- The conversion in an f-string is the right one, unless `!r` is dropped. -/
theorem fStringConversion_eq_iff {debugText : Option DebugText} {conversion : ConversionFlag}
    {hasFormatSpec : Bool} :
    fStringConversion debugText conversion hasFormatSpec =
        conversionOf debugText conversion hasFormatSpec ↔
      ∀ debug, debugText = some debug → conversion = .repr → hasFormatSpec = true →
        ':' ∉ debug.trailing.toList := by
  cases debugText with
  | none => simp [fStringConversion, conversionOf]
  | some debug =>
    cases conversion <;> cases hasFormatSpec <;> simp [fStringConversion, conversionOf]

theorem conversionOf_eq_iff {debugText : Option DebugText} {conversion : ConversionFlag}
    {hasFormatSpec : Bool} :
    conversionOf debugText conversion hasFormatSpec = conversion ↔
      (debugText.isSome = true → conversion = .none → hasFormatSpec = true) := by
  cases debugText <;> cases conversion <;> cases hasFormatSpec <;> simp [conversionOf]

/-! ## The lowering keeps the meaning -/

section Keeps

variable {O V : Type} {M : Type → Type} [Monad M] (w : World O V M)

@[simp] theorem ofString_empty : ofString "" = [] := rfl

theorem evalTexts_append [LawfulMonad M] :
    ∀ first second : LoweredTexts O,
      w.evalTexts (first.append second) = do
        let text ← w.evalTexts first
        return text ++ (← w.evalTexts second)
  | .nil, second => by simp [LoweredTexts.append, World.evalTexts]
  | .cons head tail, second => by
    simp only [LoweredTexts.append, World.evalTexts, evalTexts_append tail second, bind_assoc,
      pure_bind, List.append_assoc]

theorem evalTemplateParts_append [LawfulMonad M] :
    ∀ first second : TemplateParts O,
      w.evalTemplateParts (first.append second) = do
        let items ← w.evalTemplateParts first
        return items ++ (← w.evalTemplateParts second)
  | .nil, second => by simp [TemplateParts.append, World.evalTemplateParts]
  | .literal value tail, second => by
    simp only [TemplateParts.append, World.evalTemplateParts, evalTemplateParts_append tail second,
      bind_assoc, pure_bind, List.cons_append]
  | .interpolation value exprText conversion spec tail, second => by
    simp only [TemplateParts.append, World.evalTemplateParts, evalTemplateParts_append tail second,
      bind_assoc, pure_bind, List.cons_append]

/-- However the parts are joined, the text is theirs. -/
theorem evalText_joinParts [LawfulMonad M] (parts : LoweredTexts O) (forceJoin : Bool) :
    w.evalText (joinParts parts forceJoin) = w.evalTexts parts := by
  cases parts with
  | nil => rfl
  | cons part rest =>
    cases rest with
    | nil =>
      unfold joinParts
      split_ifs
      · rfl
      · simp [World.evalTexts]
    | cons second rest => rfl

theorem evalTexts_debugParts [LawfulMonad M] (printer : Expr O → String)
    (expression : Expr O) (debugText : Option DebugText) (rest : LoweredTexts O) :
    w.evalTexts (debugParts printer expression debugText rest) = do
      return ofString (debugLiteral printer expression debugText) ++ (← w.evalTexts rest) := by
  unfold debugParts
  split_ifs with hempty
  · simp [hempty]
  · simp [World.evalTexts, World.evalText]

theorem evalLowered_convertValue [LawfulMonad M] (conversion : ConversionFlag) (value : Lowered O) :
    w.evalLowered (convertValue conversion value) =
      w.evalLowered value >>= w.converted conversion := by
  unfold convertValue World.converted
  split_ifs
  · rw [bind_pure]
  · rfl

variable (printer : Expr O → String)

/-- The text of a lowered format specification. -/
def evalLoweredSpec : FormatSpec O → M PyStr
  | .none => pure []
  | .some elements => w.evalTexts (rewriteElements printer elements)

theorem evalTexts_rewriteInterpolation [LawfulMonad M] (expression : Expr O) (source : String)
    (debugText : Option DebugText) (conversion : ConversionFlag) (formatSpec : FormatSpec O)
    (rest : Elements O) :
    w.evalTexts (rewriteElements printer
        (.interpolation expression source debugText conversion formatSpec rest)) = do
      let value ← w.evalLowered (lowerStringTemplates printer expression)
      let value ← w.converted (fStringConversion debugText conversion formatSpec.isSome) value
      let spec ← evalLoweredSpec w printer formatSpec
      let text ← w.format value spec
      return ofString (debugLiteral printer expression debugText) ++
        (text ++ (← w.evalTexts (rewriteElements printer rest))) := by
  cases formatSpec with
  | none =>
    rw [rewriteElements, evalTexts_debugParts, World.evalTexts, World.evalText,
      evalLowered_convertValue, evalLoweredSpec, FormatSpec.isSome]
    simp only [bind_assoc, pure_bind]
  | some elements =>
    rw [rewriteElements, evalTexts_debugParts, World.evalTexts, World.evalText,
      evalLowered_convertValue, evalText_joinParts, evalLoweredSpec, FormatSpec.isSome]
    simp only [bind_assoc, pure_bind]

theorem evalTemplateParts_rewriteInterpolation [LawfulMonad M] (expression : Expr O)
    (source : String) (debugText : Option DebugText) (conversion : ConversionFlag)
    (formatSpec : FormatSpec O) (rest : Elements O) :
    w.evalTemplateParts (rewriteTStringElements printer
        (.interpolation expression source debugText conversion formatSpec rest)) = do
      let value ← w.evalLowered (lowerStringTemplates printer expression)
      let spec ← evalLoweredSpec w printer formatSpec
      let items ← w.evalTemplateParts (rewriteTStringElements printer rest)
      return .interpolation ⟨value, ofString (trimEnd (printer expression)),
        (conversionExpr conversion).map ofString, spec⟩ :: items := by
  cases formatSpec with
  | none => rfl
  | some elements =>
    rw [rewriteTStringElements, World.evalTemplateParts, evalText_joinParts]
    rfl

variable {printer}

mutual

/-- A lowered expression means what the expression means. -/
theorem evalLowered_lower [LawfulMonad M] :
    ∀ e : Expr O, TextsKept printer e → w.evalLowered (lowerStringTemplates printer e) = w.eval e
  | .other op children, h => congrArg (w.other op) (evalLowereds_lower children h)
  | .fString parts, h => by
    rw [lowerStringTemplates, World.evalLowered, evalText_joinParts,
      evalTexts_rewriteFString parts h]
    rfl
  | .tString pieces, h => by
    rw [lowerStringTemplates, World.evalLowered, evalTemplateParts_rewriteTString pieces h]
    rfl

theorem evalLowereds_lower [LawfulMonad M] :
    ∀ es : Exprs O, ChildrenKept printer es →
      w.evalLowereds (lowerChildren printer es) = w.evalChildren es
  | .nil, _ => rfl
  | .cons head tail, h =>
    congrArg₂ List.cons (evalLowered_lower head h.1) (evalLowereds_lower tail h.2)

theorem evalTexts_rewriteFString [LawfulMonad M] :
    ∀ parts : FStringParts O, PartsKept printer parts →
      w.evalTexts (rewriteFString printer parts) = w.evalParts parts
  | .nil, _ => rfl
  | .literal value rest, h => by
    rw [rewriteFString, World.evalTexts, evalTexts_rewriteFString rest h, World.evalText,
      pure_bind]
    rfl
  | .fString elements rest, h => by
    rw [rewriteFString, evalTexts_append, evalTexts_rewriteElements elements h.1,
      evalTexts_rewriteFString rest h.2]
    rfl

theorem evalTexts_rewriteElements [LawfulMonad M] :
    ∀ elements : Elements O, ElementsKept printer elements →
      w.evalTexts (rewriteElements printer elements) = w.evalElements elements
  | .nil, _ => rfl
  | .literal value rest, h => by
    rw [rewriteElements, World.evalTexts, evalTexts_rewriteElements rest h, World.evalText,
      pure_bind]
    rfl
  | .interpolation expression source debugText conversion formatSpec rest, h => by
    obtain ⟨hdebug, hconversion, hexpression, hspec, hrest⟩ := h
    rw [evalTexts_rewriteInterpolation, hdebug, fStringConversion_eq_iff.mpr hconversion,
      evalLowered_lower expression hexpression, evalLoweredSpec_eq formatSpec hspec,
      evalTexts_rewriteElements rest hrest]
    rfl

theorem evalLoweredSpec_eq [LawfulMonad M] :
    ∀ formatSpec : FormatSpec O, FormatSpecKept printer formatSpec →
      evalLoweredSpec w printer formatSpec = w.evalFormatSpec formatSpec
  | .none, _ => rfl
  | .some elements, h => evalTexts_rewriteElements elements h

theorem evalTemplateParts_rewriteTString [LawfulMonad M] :
    ∀ pieces : TStrings O, PiecesKept printer pieces →
      w.evalTemplateParts (rewriteTString printer pieces) = w.evalPieces pieces
  | .nil, _ => rfl
  | .cons elements rest, h => by
    rw [rewriteTString, evalTemplateParts_append, evalTemplateParts_rewriteElements elements h.1,
      evalTemplateParts_rewriteTString rest h.2]
    rfl

theorem evalTemplateParts_rewriteElements [LawfulMonad M] :
    ∀ elements : Elements O, TemplateElementsKept printer elements →
      w.evalTemplateParts (rewriteTStringElements printer elements) =
        w.evalTemplateElements elements
  | .nil, _ => rfl
  | .literal value rest, h => by
    rw [rewriteTStringElements, World.evalTemplateParts, evalTemplateParts_rewriteElements rest h]
    rfl
  | .interpolation expression source debugText conversion formatSpec rest, h => by
    obtain ⟨hdebug, hconversion, hsource, hexpression, hspec, hrest⟩ := h
    rw [evalTemplateParts_rewriteInterpolation, evalLowered_lower expression hexpression,
      evalLoweredSpec_eq formatSpec hspec, evalTemplateParts_rewriteElements rest hrest,
      World.evalTemplateElements, debugItems, if_pos hdebug, conversionOf_eq_iff.mpr hconversion,
      hsource]
    rfl

end

end Keeps

end DietPython.StringTemplates
