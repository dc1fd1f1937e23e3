import DietPython.StringTemplates.Meaning
import Mathlib.Algebra.FreeMonoid.Basic
import Mathlib.Control.Monad.Writer

/-!
# When the lowering of string templates is right

`evalLowered_lower` says that the lowering keeps the meaning where every text is kept. This file
has the other direction: a world that records what is done with each value tells the two meanings
apart wherever a text or a conversion differs.

1. `tracer` is that world. Its `format` gives a mark that is no character, so that a text can be
   cut at its interpolations.
2. The lowered expression never does more than the expression (`events_lowered_le`), so equal
   records are equal piece by piece.
3. `lowersTemplates_iff` is both directions.
-/

namespace DietPython.StringTemplates

/-! ## A world that records -/

inductive Event
  | child (value : PyStr)
  | convert (conversion : ConversionFlag) (value : PyStr)
  | format (value spec : PyStr)
  | template (template : Template PyStr)

abbrev Traced := WriterT (FreeMonoid Event) Id

namespace Traced

variable {α β : Type}

def value (x : Traced α) : α := x.run.1

def events (x : Traced α) : List Event := x.run.2.toList

def record (event : Event) (value : α) : Traced α := WriterT.mk (value, FreeMonoid.of event)

@[simp] theorem value_pure (a : α) : (pure a : Traced α).value = a := rfl

@[simp] theorem events_pure (a : α) : (pure a : Traced α).events = [] := rfl

@[simp] theorem value_bind (x : Traced α) (f : α → Traced β) :
    (x >>= f).value = (f x.value).value := rfl

@[simp] theorem events_bind (x : Traced α) (f : α → Traced β) :
    (x >>= f).events = x.events ++ (f x.value).events := rfl

@[simp] theorem value_map (f : α → β) (x : Traced α) : (f <$> x).value = f x.value := rfl

@[simp] theorem events_map (f : α → β) (x : Traced α) : (f <$> x).events = x.events := rfl

@[simp] theorem value_record (event : Event) (a : α) : (record event a).value = a := rfl

@[simp] theorem events_record (event : Event) (a : α) : (record event a).events = [event] := rfl

/-- Evaluate all children and record their values. -/
def runAll : List (Traced PyStr) → Traced PyStr
  | [] => pure []
  | x :: xs => do record (.child (← x)) (); runAll xs

@[simp] theorem value_runAll (xs : List (Traced PyStr)) : (runAll xs).value = [] := by
  induction xs with
  | nil => rfl
  | cons x xs ih => exact ih

end Traced

/-- A code point that is no character. -/
def mark : ℕ := 0xD800

def tracer (O : Type) : World O PyStr Traced where
  other _ children := Traced.runAll children
  ofStr text := text
  convert conversion value := Traced.record (.convert conversion value) value
  format value spec := Traced.record (.format value spec) [mark]
  template template := Traced.record (.template template) []

@[simp] theorem tracer_ofStr (O : Type) (text : PyStr) : (tracer O).ofStr text = text := rfl

@[simp] theorem tracer_format (O : Type) (value spec : PyStr) :
    (tracer O).format value spec = Traced.record (.format value spec) [mark] := rfl

@[simp] theorem tracer_template (O : Type) (template : Template PyStr) :
    (tracer O).template template = Traced.record (.template template) [] := rfl

theorem mark_notMem_ofString (text : String) : mark ∉ ofString text := by
  intro hmem
  obtain ⟨c, -, hc⟩ := List.mem_map.mp hmem
  have hvalid := c.valid
  unfold mark at hc
  unfold Char.toNat at hc
  unfold UInt32.isValidChar Nat.isValidChar at hvalid
  omega

theorem ofString_injective : Function.Injective ofString := by
  intro first second heq
  have hinj : Function.Injective Char.toNat := fun a b h => Char.toNat_inj.mp h
  exact String.toList_inj.mp (List.map_injective_iff.mpr hinj heq)

theorem append_cons_inj_left {m : ℕ} {first second rest rest' : PyStr} (hfirst : m ∉ first)
    (hsecond : m ∉ second) (heq : first ++ m :: rest = second ++ m :: rest') :
    first = second ∧ rest = rest' := by
  induction first generalizing second with
  | nil =>
    cases second with
    | nil => exact ⟨rfl, (List.cons.inj heq).2⟩
    | cons c second => exact absurd (List.mem_cons.mpr (.inl (List.cons.inj heq).1)) hsecond
  | cons c first ih =>
    cases second with
    | nil => exact absurd (List.mem_cons.mpr (.inl (List.cons.inj heq).1.symm)) hfirst
    | cons d second =>
      obtain ⟨rfl, htail⟩ := List.cons.inj heq
      have ⟨hsame, hrest⟩ := ih (fun h => hfirst (List.mem_cons_of_mem _ h))
        (fun h => hsecond (List.mem_cons_of_mem _ h)) htail
      exact ⟨by rw [hsame], hrest⟩

theorem conversionExpr_inj {conversion conversion' : ConversionFlag}
    (heq : (conversionExpr conversion).map ofString = (conversionExpr conversion').map ofString) :
    conversion = conversion' := by
  have hsame := Option.map_injective ofString_injective heq
  cases conversion <;> cases conversion' <;> first | rfl | simp [conversionExpr] at hsame

theorem ofItems_debugItems {V : Type} (source : String) (debugText : Option DebugText)
    (rest : List (TemplateItem V)) :
    Template.ofItems (debugItems source debugText ++ rest) =
      (ofString (debugSource source debugText) ++ (Template.ofItems rest).1,
        (Template.ofItems rest).2) := by
  unfold debugItems
  split_ifs with hempty
  · rw [hempty]
    rfl
  · rfl

/-- Two texts are cut at the first mark. -/
theorem append_mark_inj {first second : String} {rest rest' : PyStr}
    (heq : ofString first ++ mark :: rest = ofString second ++ mark :: rest') :
    first = second ∧ rest = rest' := by
  have ⟨htext, hrest⟩ := append_cons_inj_left (mark_notMem_ofString first)
    (mark_notMem_ofString second) heq
  exact ⟨ofString_injective htext, hrest⟩

/-- Two lists that are put together are equal piece by piece if no piece is longer. -/
theorem append_inj_of_le {α : Type} {a b a' b' : List α} (heq : a ++ b = a' ++ b')
    (ha : a.length ≤ a'.length) (hb : b.length ≤ b'.length) : a = a' ∧ b = b' := by
  have hlength := congrArg List.length heq
  rw [List.length_append, List.length_append] at hlength
  exact List.append_inj heq (by omega)

/-! ## The lowered expression does not do more -/

section Tracer

variable {O : Type} (printer : Expr O → String)

/-- The events of a conversion do not depend on the value. -/
theorem events_converted (conversion : ConversionFlag) (value : PyStr) :
    ((tracer O).converted conversion value).events =
      if conversion = .none then [] else [.convert conversion value] := by
  unfold World.converted
  split_ifs <;> rfl

@[simp] theorem value_converted (conversion : ConversionFlag) (value : PyStr) :
    ((tracer O).converted conversion value).value = value := by
  unfold World.converted
  split_ifs <;> rfl

/-- The events tell which conversion was made. -/
theorem conversion_eq_of_events {conversion conversion' : ConversionFlag} {value value' : PyStr}
    (hevents : ((tracer O).converted conversion value).events =
      ((tracer O).converted conversion' value').events) : conversion = conversion' := by
  rw [events_converted, events_converted] at hevents
  split_ifs at hevents with hnone hnone' hnone'
  · rw [hnone, hnone']
  · exact (Event.convert.inj (List.cons.inj hevents).1).1

/-- No conversion is added that Python does not have. -/
theorem length_converted_le (debugText : Option DebugText) (conversion : ConversionFlag)
    (hasFormatSpec : Bool) (value value' : PyStr) :
    ((tracer O).converted (fStringConversion debugText conversion hasFormatSpec)
        value).events.length ≤
      ((tracer O).converted (conversionOf debugText conversion hasFormatSpec)
        value').events.length := by
  rw [events_converted, events_converted]
  cases debugText with
  | none => cases conversion <;> simp [fStringConversion, conversionOf]
  | some debug =>
    cases conversion <;> cases hasFormatSpec <;> simp [fStringConversion, conversionOf]
    split_ifs <;> simp

mutual

theorem events_lowered_le :
    ∀ e : Expr O, ((tracer O).evalLowered (lowerStringTemplates printer e)).events.length ≤
      ((tracer O).eval e).events.length
  | .other _ children => events_lowereds_le children
  | .fString parts => by
    rw [lowerStringTemplates, World.evalLowered, evalText_joinParts, World.eval]
    simpa using events_parts_le parts
  | .tString pieces => by
    rw [lowerStringTemplates, World.evalLowered, World.eval]
    simpa [tracer] using events_pieces_le pieces

theorem events_lowereds_le :
    ∀ es : Exprs O,
      (Traced.runAll ((tracer O).evalLowereds (lowerChildren printer es))).events.length ≤
        (Traced.runAll ((tracer O).evalChildren es)).events.length
  | .nil => Nat.le_refl _
  | .cons head tail => by
    have hhead := events_lowered_le head
    have htail := events_lowereds_le tail
    simp only [lowerChildren, World.evalLowereds, World.evalChildren, Traced.runAll,
      Traced.events_bind, Traced.events_record, List.length_append, List.length_cons]
    omega

theorem events_parts_le :
    ∀ parts : FStringParts O,
      ((tracer O).evalTexts (rewriteFString printer parts)).events.length ≤
        ((tracer O).evalParts parts).events.length
  | .nil => Nat.le_refl _
  | .literal value rest => by
    have hrest := events_parts_le rest
    simpa [rewriteFString, World.evalTexts, World.evalText, World.evalParts] using hrest
  | .fString elements rest => by
    have helements := events_elements_le elements
    have hrest := events_parts_le rest
    rw [rewriteFString, evalTexts_append, World.evalParts]
    simp only [Traced.events_bind, Traced.events_pure, List.append_nil, List.length_append]
    omega

theorem events_elements_le :
    ∀ elements : Elements O,
      ((tracer O).evalTexts (rewriteElements printer elements)).events.length ≤
        ((tracer O).evalElements elements).events.length
  | .nil => Nat.le_refl _
  | .literal value rest => by
    have hrest := events_elements_le rest
    simpa [rewriteElements, World.evalTexts, World.evalText, World.evalElements] using hrest
  | .interpolation expression source debugText conversion formatSpec rest => by
    have hexpression := events_lowered_le expression
    have hconversion := length_converted_le (O := O) debugText conversion formatSpec.isSome
      ((tracer O).evalLowered (lowerStringTemplates printer expression)).value
      ((tracer O).eval expression).value
    have hspec := events_spec_le formatSpec
    have hrest := events_elements_le rest
    rw [evalTexts_rewriteInterpolation, World.evalElements]
    simp only [Traced.events_bind, Traced.events_pure, tracer_format, Traced.events_record,
      List.append_nil, List.length_append, List.length_cons, List.length_nil]
    omega

theorem events_spec_le :
    ∀ formatSpec : FormatSpec O,
      (evalLoweredSpec (tracer O) printer formatSpec).events.length ≤
        ((tracer O).evalFormatSpec formatSpec).events.length
  | .none => Nat.le_refl _
  | .some elements => events_elements_le elements

theorem events_pieces_le :
    ∀ pieces : TStrings O,
      ((tracer O).evalTemplateParts (rewriteTString printer pieces)).events.length ≤
        ((tracer O).evalPieces pieces).events.length
  | .nil => Nat.le_refl _
  | .cons elements rest => by
    have helements := events_templateElements_le elements
    have hrest := events_pieces_le rest
    rw [rewriteTString, evalTemplateParts_append, World.evalPieces]
    simp only [Traced.events_bind, Traced.events_pure, List.append_nil, List.length_append]
    omega

theorem events_templateElements_le :
    ∀ elements : Elements O,
      ((tracer O).evalTemplateParts (rewriteTStringElements printer elements)).events.length ≤
        ((tracer O).evalTemplateElements elements).events.length
  | .nil => Nat.le_refl _
  | .literal value rest => by
    have hrest := events_templateElements_le rest
    simpa [rewriteTStringElements, World.evalTemplateParts, World.evalTemplateElements]
      using hrest
  | .interpolation expression source debugText conversion formatSpec rest => by
    have hexpression := events_lowered_le expression
    have hspec := events_spec_le formatSpec
    have hrest := events_templateElements_le rest
    rw [evalTemplateParts_rewriteInterpolation, World.evalTemplateElements]
    simp only [Traced.events_bind, Traced.events_pure, List.append_nil, List.length_append]
    omega

end

/-! ## Equal meanings have equal texts -/

variable {printer}

mutual

theorem textsKept_of_eq :
    ∀ e : Expr O,
      ((tracer O).evalLowered (lowerStringTemplates printer e)).value = ((tracer O).eval e).value →
      ((tracer O).evalLowered (lowerStringTemplates printer e)).events =
        ((tracer O).eval e).events →
      TextsKept printer e
  | .other _ children, _, hevents => childrenKept_of_eq children hevents
  | .fString parts, hvalue, hevents => by
    rw [lowerStringTemplates, World.evalLowered, evalText_joinParts, World.eval] at hvalue hevents
    have hkept := partsKept_of_eq parts [] [] (by simpa [tracer] using hvalue)
      (by simpa using hevents)
    exact hkept.1
  | .tString pieces, _, hevents => by
    rw [lowerStringTemplates, World.evalLowered, World.eval] at hevents
    simp only [Traced.events_bind] at hevents
    have hlast := List.append_inj' hevents rfl
    have htemplate := Event.template.inj (List.cons.inj hlast.2).1
    have hkept := piecesKept_of_eq pieces [] [] (by simpa using htemplate) hlast.1
    exact hkept.1

theorem childrenKept_of_eq :
    ∀ es : Exprs O,
      (Traced.runAll ((tracer O).evalLowereds (lowerChildren printer es))).events =
        (Traced.runAll ((tracer O).evalChildren es)).events →
      ChildrenKept printer es
  | .nil, _ => trivial
  | .cons head tail, hevents => by
    simp only [lowerChildren, World.evalLowereds, World.evalChildren, Traced.runAll,
      Traced.events_bind, Traced.events_record] at hevents
    obtain ⟨hhead, hrest⟩ := append_inj_of_le hevents (events_lowered_le printer head)
      (by simpa using events_lowereds_le printer tail)
    obtain ⟨hvalue, htail⟩ := List.cons.inj hrest
    exact ⟨textsKept_of_eq head (Event.child.inj hvalue) hhead, childrenKept_of_eq tail htail⟩

/-- The text behind the parts is arbitrary, so that parts can follow each other. -/
theorem partsKept_of_eq :
    ∀ (parts : FStringParts O) (behind behind' : PyStr),
      ((tracer O).evalTexts (rewriteFString printer parts)).value ++ behind =
        ((tracer O).evalParts parts).value ++ behind' →
      ((tracer O).evalTexts (rewriteFString printer parts)).events =
        ((tracer O).evalParts parts).events →
      PartsKept printer parts ∧ behind = behind'
  | .nil, _, _, hvalue, _ => ⟨trivial, hvalue⟩
  | .literal value rest, behind, behind', hvalue, hevents => by
    rw [rewriteFString, World.evalTexts, World.evalText, World.evalParts] at hvalue hevents
    simp only [Traced.value_bind, Traced.value_pure, List.append_assoc] at hvalue
    exact partsKept_of_eq rest behind behind' (List.append_cancel_left hvalue) (by
      simpa using hevents)
  | .fString elements rest, behind, behind', hvalue, hevents => by
    rw [rewriteFString, evalTexts_append, World.evalParts] at hvalue hevents
    simp only [Traced.value_bind, Traced.value_pure, List.append_assoc] at hvalue
    simp only [Traced.events_bind, Traced.events_pure, List.append_nil] at hevents
    obtain ⟨helements, hrest⟩ := append_inj_of_le hevents (events_elements_le printer elements)
      (events_parts_le printer rest)
    have hkept := elementsKept_of_eq elements _ _ hvalue helements
    have hkeptRest := partsKept_of_eq rest behind behind' hkept.2 hrest
    exact ⟨⟨hkept.1, hkeptRest.1⟩, hkeptRest.2⟩

theorem elementsKept_of_eq :
    ∀ (elements : Elements O) (behind behind' : PyStr),
      ((tracer O).evalTexts (rewriteElements printer elements)).value ++ behind =
        ((tracer O).evalElements elements).value ++ behind' →
      ((tracer O).evalTexts (rewriteElements printer elements)).events =
        ((tracer O).evalElements elements).events →
      ElementsKept printer elements ∧ behind = behind'
  | .nil, _, _, hvalue, _ => ⟨trivial, hvalue⟩
  | .literal value rest, behind, behind', hvalue, hevents => by
    rw [rewriteElements, World.evalTexts, World.evalText, World.evalElements] at hvalue hevents
    simp only [Traced.value_bind, Traced.value_pure, List.append_assoc] at hvalue
    exact elementsKept_of_eq rest behind behind' (List.append_cancel_left hvalue) (by
      simpa using hevents)
  | .interpolation expression source debugText conversion formatSpec rest, behind, behind',
      hvalue, hevents => by
    rw [evalTexts_rewriteInterpolation, World.evalElements] at hvalue hevents
    simp only [Traced.value_bind, Traced.value_pure, tracer_format, Traced.value_record,
      List.append_assoc] at hvalue
    obtain ⟨hdebug, hvalue⟩ := append_mark_inj hvalue
    simp only [Traced.events_bind, Traced.events_pure, tracer_format, Traced.events_record,
      value_converted, List.append_nil] at hevents
    have hconversionLe := length_converted_le (O := O) debugText conversion formatSpec.isSome
      ((tracer O).evalLowered (lowerStringTemplates printer expression)).value
      ((tracer O).eval expression).value
    have hspecLe := events_spec_le printer formatSpec
    have hrestLe := events_elements_le printer rest
    obtain ⟨hexpression, hevents⟩ := append_inj_of_le hevents
      (events_lowered_le printer expression) (by
        simp only [List.length_append, List.length_cons]
        omega)
    obtain ⟨hconversion, hevents⟩ := append_inj_of_le hevents hconversionLe (by
      simp only [List.length_append, List.length_cons]
      omega)
    obtain ⟨hspec, hevents⟩ := append_inj_of_le hevents hspecLe (by
      simp only [List.length_append, List.length_cons]
      omega)
    obtain ⟨hformat, hrest⟩ := List.cons.inj hevents
    obtain ⟨hsame, hsameSpec⟩ := Event.format.inj hformat
    have hkept := elementsKept_of_eq rest behind behind' hvalue hrest
    exact ⟨⟨hdebug, fStringConversion_eq_iff.mp (conversion_eq_of_events hconversion),
      textsKept_of_eq expression hsame hexpression,
      formatSpecKept_of_eq formatSpec hsameSpec hspec, hkept.1⟩, hkept.2⟩

theorem formatSpecKept_of_eq :
    ∀ formatSpec : FormatSpec O,
      (evalLoweredSpec (tracer O) printer formatSpec).value =
        ((tracer O).evalFormatSpec formatSpec).value →
      (evalLoweredSpec (tracer O) printer formatSpec).events =
        ((tracer O).evalFormatSpec formatSpec).events →
      FormatSpecKept printer formatSpec
  | .none, _, _ => trivial
  | .some elements, hvalue, hevents =>
    (elementsKept_of_eq elements [] [] (congrArg (· ++ []) hvalue) hevents).1

theorem piecesKept_of_eq :
    ∀ (pieces : TStrings O) (behind behind' : List (TemplateItem PyStr)),
      Template.ofItems (((tracer O).evalTemplateParts (rewriteTString printer pieces)).value ++
          behind) =
        Template.ofItems (((tracer O).evalPieces pieces).value ++ behind') →
      ((tracer O).evalTemplateParts (rewriteTString printer pieces)).events =
        ((tracer O).evalPieces pieces).events →
      PiecesKept printer pieces ∧ Template.ofItems behind = Template.ofItems behind'
  | .nil, _, _, hvalue, _ => ⟨trivial, hvalue⟩
  | .cons elements rest, behind, behind', hvalue, hevents => by
    rw [rewriteTString, evalTemplateParts_append, World.evalPieces] at hvalue hevents
    simp only [Traced.value_bind, Traced.value_pure, List.append_assoc] at hvalue
    simp only [Traced.events_bind, Traced.events_pure, List.append_nil] at hevents
    obtain ⟨helements, hrest⟩ := append_inj_of_le hevents
      (events_templateElements_le printer elements) (events_pieces_le printer rest)
    have hkept := templateElementsKept_of_eq elements _ _ hvalue helements
    have hkeptRest := piecesKept_of_eq rest behind behind' hkept.2 hrest
    exact ⟨⟨hkept.1, hkeptRest.1⟩, hkeptRest.2⟩

theorem templateElementsKept_of_eq :
    ∀ (elements : Elements O) (behind behind' : List (TemplateItem PyStr)),
      Template.ofItems
          (((tracer O).evalTemplateParts (rewriteTStringElements printer elements)).value ++
            behind) =
        Template.ofItems (((tracer O).evalTemplateElements elements).value ++ behind') →
      ((tracer O).evalTemplateParts (rewriteTStringElements printer elements)).events =
        ((tracer O).evalTemplateElements elements).events →
      TemplateElementsKept printer elements ∧ Template.ofItems behind = Template.ofItems behind'
  | .nil, _, _, hvalue, _ => ⟨trivial, hvalue⟩
  | .literal value rest, behind, behind', hvalue, hevents => by
    rw [rewriteTStringElements, World.evalTemplateParts, World.evalTemplateElements]
      at hvalue hevents
    simp only [Traced.value_bind, Traced.value_pure, List.cons_append, Template.ofItems] at hvalue
    obtain ⟨htext, hrest⟩ := Prod.mk.inj hvalue
    exact templateElementsKept_of_eq rest behind behind'
      (Prod.ext (List.append_cancel_left htext) hrest) (by simpa using hevents)
  | .interpolation expression source debugText conversion formatSpec rest, behind, behind',
      hvalue, hevents => by
    rw [evalTemplateParts_rewriteInterpolation, World.evalTemplateElements] at hvalue hevents
    simp only [Traced.events_bind, Traced.events_pure, List.append_nil] at hevents
    have hspecLe := events_spec_le printer formatSpec
    have hrestLe := events_templateElements_le printer rest
    obtain ⟨hexpression, hevents⟩ := append_inj_of_le hevents
      (events_lowered_le printer expression) (by
        simp only [List.length_append]
        omega)
    obtain ⟨hspec, hrest⟩ := append_inj_of_le hevents hspecLe hrestLe
    simp only [Traced.value_bind, Traced.value_pure, List.append_assoc, List.cons_append,
      ofItems_debugItems, Template.ofItems, List.append_nil] at hvalue
    obtain ⟨hdebug, hitems⟩ := Prod.mk.inj hvalue
    obtain ⟨hpair, htail⟩ := List.cons.inj hitems
    obtain ⟨hinterpolation, htext⟩ := Prod.mk.inj hpair
    obtain ⟨hsame, hsource, hconversion, hsameSpec⟩ := Interpolation.mk.inj hinterpolation
    have hkept := templateElementsKept_of_eq rest behind behind' (Prod.ext htext htail) hrest
    exact ⟨⟨ofString_injective (hdebug.symm.trans ofString_empty.symm),
      conversionOf_eq_iff.mp (conversionExpr_inj hconversion).symm, ofString_injective hsource,
      textsKept_of_eq expression hsame hexpression,
      formatSpecKept_of_eq formatSpec hsameSpec hspec, hkept.1⟩, hkept.2⟩

end

end Tracer

/-- The lowered expression means what the expression means, in every world, exactly if the
printed texts are the ones in the source and no conversion is dropped. -/
theorem lowersTemplates_iff {O : Type} (printer : Expr O → String) (e : Expr O) :
    (∀ (V : Type) (M : Type → Type) [Monad M] [LawfulMonad M] (w : World O V M),
      w.evalLowered (lowerStringTemplates printer e) = w.eval e) ↔ TextsKept printer e := by
  constructor
  · intro hsame
    have htraced := hsame PyStr Traced (tracer O)
    exact textsKept_of_eq e (congrArg Traced.value htraced) (congrArg Traced.events htraced)
  · intro hkept V M _ _ w
    exact evalLowered_lower w e hkept

/-- `f"{x+1=}"` -/
def spacedSum : Expr Unit :=
  .fString (.fString (.interpolation (.other () .nil) "x+1" (some ⟨"", "="⟩) .none .none .nil) .nil)

/-- A world in which `x+1` is 2 and a value is its text. -/
def twoWorld : World Unit PyStr Id where
  other _ _ := ofString "2"
  ofStr text := text
  convert _ value := value
  format value _ := value
  template _ := []

/-- The printer puts blanks around the operator. -/
theorem spacedSum_is_printed :
    (show PyStr from twoWorld.evalLowered (lowerStringTemplates (fun _ => "x + 1") spacedSum)) =
        ofString "x + 1=2" ∧
      (show PyStr from twoWorld.eval spacedSum) = ofString "x+1=2" ∧
      ofString "x + 1=2" ≠ ofString "x+1=2" := by
  decide +kernel

end DietPython.StringTemplates
