import Mathlib.Data.List.Basic
import Mathlib.Data.Nat.Notation

/-!
# Lowering of f-strings and t-strings

An f-string becomes a `"".join` of literals and calls of `format`, a t-string a call of `Template`
on literals and calls of `Interpolation`. The text of an expression is needed for debug forms and
for t-strings. The syntax tree does not keep it: it is printed from the tree by a printer that is a
parameter here.
-/

namespace DietPython.StringTemplates

/-! ## Syntax -/

inductive ConversionFlag
  | none
  | str
  | ascii
  | repr
  deriving DecidableEq

/-- The text before and behind the expression of a form with `=`. -/
structure DebugText where
  leading : String
  trailing : String

mutual

/-- An expression. An operation `O` stands for any other form. -/
inductive Expr (O : Type)
  | other (op : O) (children : Exprs O)
  | fString (parts : FStringParts O)
  | tString (pieces : TStrings O)

inductive Exprs (O : Type)
  | nil
  | cons (head : Expr O) (tail : Exprs O)

/-- The pieces of an f-string that are written one behind the other. -/
inductive FStringParts (O : Type)
  | nil
  | literal (value : String) (rest : FStringParts O)
  | fString (elements : Elements O) (rest : FStringParts O)

inductive TStrings (O : Type)
  | nil
  | cons (elements : Elements O) (rest : TStrings O)

/-- `InterpolatedStringElements`. The values of literals are decoded. `source` is the text of the
expression in the source, which is not part of the tree. -/
inductive Elements (O : Type)
  | nil
  | literal (value : String) (rest : Elements O)
  | interpolation (expression : Expr O) (source : String) (debugText : Option DebugText)
    (conversion : ConversionFlag) (formatSpec : FormatSpec O) (rest : Elements O)

inductive FormatSpec (O : Type)
  | none
  | some (elements : Elements O)

end

def FormatSpec.isSome {O : Type} : FormatSpec O → Bool
  | .none => false
  | .some _ => true

mutual

/-- A lowered expression. -/
inductive Lowered (O : Type)
  | other (op : O) (children : Lowereds O)
  /-- `__soac__.str`, `__soac__.ascii` or `__soac__.repr` -/
  | convert (conversion : ConversionFlag) (value : Lowered O)
  | text (text : LoweredText O)
  /-- `__soac__.templatelib_Template(*(..))` -/
  | template (parts : TemplateParts O)

inductive Lowereds (O : Type)
  | nil
  | cons (head : Lowered O) (tail : Lowereds O)

/-- A lowered expression whose value is a text. -/
inductive LoweredText (O : Type)
  | literal (value : String)
  /-- `__soac__.format(value)` -/
  | format (value : Lowered O)
  /-- `__soac__.format(value, spec)` -/
  | formatSpec (value : Lowered O) (spec : LoweredText O)
  /-- `"".join((..))` -/
  | join (parts : LoweredTexts O)

inductive LoweredTexts (O : Type)
  | nil
  | cons (head : LoweredText O) (tail : LoweredTexts O)

inductive TemplateParts (O : Type)
  | nil
  | literal (value : String) (rest : TemplateParts O)
  /-- `__soac__.templatelib_Interpolation(value, text, conversion, spec)` -/
  | interpolation (value : Lowered O) (exprText : String) (conversion : Option String)
    (spec : LoweredText O) (rest : TemplateParts O)

end

section Parts

variable {O : Type}

def LoweredTexts.append : LoweredTexts O → LoweredTexts O → LoweredTexts O
  | .nil, rest => rest
  | .cons head tail, rest => .cons head (tail.append rest)

def TemplateParts.append : TemplateParts O → TemplateParts O → TemplateParts O
  | .nil, rest => rest
  | .literal value tail, rest => .literal value (tail.append rest)
  | .interpolation value exprText conversion spec tail, rest =>
    .interpolation value exprText conversion spec (tail.append rest)

def joinParts (parts : LoweredTexts O) (forceJoin : Bool) : LoweredText O :=
  match parts with
  | .nil => .literal ""
  | .cons part .nil => if forceJoin then .join parts else part
  | parts => .join parts

end Parts

/-! ## Texts -/

/-- The scanner of `strip_debug_comment`. -/
def stripDebugCommentFrom (inComment : Bool) : List Char → List Char
  | [] => []
  | c :: rest =>
    if inComment then
      if c = '\n' then c :: stripDebugCommentFrom false rest else stripDebugCommentFrom true rest
    else if c = '#' then stripDebugCommentFrom true rest
    else c :: stripDebugCommentFrom false rest

def stripDebugComment (trailing : String) : String :=
  String.ofList (stripDebugCommentFrom false trailing.toList)

/-- `char::is_whitespace` -/
def isWhitespace (c : Char) : Bool :=
  (9 ≤ c.toNat && c.toNat ≤ 13) || (8192 ≤ c.toNat && c.toNat ≤ 8202) ||
    [32, 133, 160, 5760, 8232, 8233, 8239, 8287, 12288].contains c.toNat

def trimEnd (text : String) : String :=
  String.ofList (text.toList.reverse.dropWhile isWhitespace).reverse

/-! ## Lowering -/

/-- The conversion of an interpolation in an f-string. -/
def fStringConversion (debugText : Option DebugText) (conversion : ConversionFlag)
    (hasFormatSpec : Bool) : ConversionFlag :=
  match debugText with
  | some debug =>
    if conversion = .none ∧ hasFormatSpec = false then .repr
    else if conversion = .repr ∧ hasFormatSpec = true ∧ ':' ∈ debug.trailing.toList then .none
    else conversion
  | none => conversion

/-- A call of the conversion, if there is one. -/
def convertValue {O : Type} (conversion : ConversionFlag) (value : Lowered O) : Lowered O :=
  if conversion = .none then value else .convert conversion value

/-- The third argument of `Interpolation`. -/
def conversionExpr : ConversionFlag → Option String
  | .none => none
  | .repr => some "r"
  | .str => some "s"
  | .ascii => some "a"

/-- `has_interpolation` of some elements. -/
def elementsHaveInterpolation {O : Type} : Elements O → Bool
  | .nil => false
  | .literal _ rest => elementsHaveInterpolation rest
  | .interpolation _ _ _ _ _ _ => true

/-- `has_interpolation` of an f-string. -/
def partsHaveInterpolation {O : Type} : FStringParts O → Bool
  | .nil => false
  | .literal _ rest => partsHaveInterpolation rest
  | .fString elements rest => elementsHaveInterpolation elements || partsHaveInterpolation rest

section Lower

variable {O : Type} (printer : Expr O → String)

/-- The text that stands for a debug form. -/
def debugLiteral (expression : Expr O) (debugText : Option DebugText) : String :=
  match debugText with
  | some debug =>
    debug.leading ++ trimEnd (printer expression) ++ stripDebugComment debug.trailing
  | none => ""

/-- The part for the text of a debug form, unless that is empty. -/
def debugParts (expression : Expr O) (debugText : Option DebugText)
    (rest : LoweredTexts O) : LoweredTexts O :=
  if debugLiteral printer expression debugText = "" then rest
  else .cons (.literal (debugLiteral printer expression debugText)) rest

mutual

/-- `lower_string_templates_in_expr` -/
def lowerStringTemplates : Expr O → Lowered O
  | .other op children => .other op (lowerChildren children)
  | .fString parts => .text (joinParts (rewriteFString parts) (!partsHaveInterpolation parts))
  | .tString pieces => .template (rewriteTString pieces)

def lowerChildren : Exprs O → Lowereds O
  | .nil => .nil
  | .cons head tail => .cons (lowerStringTemplates head) (lowerChildren tail)

/-- `rewrite_fstring`: the parts. -/
def rewriteFString : FStringParts O → LoweredTexts O
  | .nil => .nil
  | .literal value rest => .cons (.literal value) (rewriteFString rest)
  | .fString elements rest => (rewriteElements elements).append (rewriteFString rest)

/-- `rewrite_elements`, with `rewrite_interpolation`. -/
def rewriteElements : Elements O → LoweredTexts O
  | .nil => .nil
  | .literal value rest => .cons (.literal value) (rewriteElements rest)
  | .interpolation expression _ debugText conversion .none rest =>
    debugParts printer expression debugText (.cons
      (.format (convertValue (fStringConversion debugText conversion false)
        (lowerStringTemplates expression)))
      (rewriteElements rest))
  | .interpolation expression _ debugText conversion (.some elements) rest =>
    debugParts printer expression debugText (.cons
      (.formatSpec (convertValue (fStringConversion debugText conversion true)
        (lowerStringTemplates expression)) (joinParts (rewriteElements elements) false))
      (rewriteElements rest))

/-- `rewrite_tstring`: the parts. -/
def rewriteTString : TStrings O → TemplateParts O
  | .nil => .nil
  | .cons elements rest => (rewriteTStringElements elements).append (rewriteTString rest)

/-- The elements of one piece, with `rewrite_tstring_interpolation`. -/
def rewriteTStringElements : Elements O → TemplateParts O
  | .nil => .nil
  | .literal value rest => .literal value (rewriteTStringElements rest)
  | .interpolation expression _ _ conversion .none rest =>
    .interpolation (lowerStringTemplates expression) (trimEnd (printer expression))
      (conversionExpr conversion) (.literal "") (rewriteTStringElements rest)
  | .interpolation expression _ _ conversion (.some elements) rest =>
    .interpolation (lowerStringTemplates expression) (trimEnd (printer expression))
      (conversionExpr conversion) (joinParts (rewriteElements elements) false)
      (rewriteTStringElements rest)

end

end Lower

end DietPython.StringTemplates
