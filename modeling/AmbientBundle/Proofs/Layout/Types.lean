import AmbientBundle.Proofs.Layout.Readers
import AmbientBundle.Source.Grammar.Functions

/-!
# Names, patterns, types and functions keep references in order

One lemma for each reader, in the order of the grammar.

* `Grammar.Laying`: a grammar all of whose readers lay out references.
* `Moves` for the readers of names and modifiers.
* `Lays` for the readers of patterns, types and functions. A reader that is given a part which has
  been read before has an `After` instead.
-/

namespace AmbientBundle.Source

open Laid Reading

/-- **A grammar whose readers lay out references.** -/
class Grammar.Laying (text : List Char) (g : Grammar) : Prop where
  type : Lays text g.type
  plainType : Lays text g.plainType
  assignment : Lays text g.assignment
  operation : Lays text g.operation
  unary : Lays text g.unary
  callee : Lays text g.callee
  pattern : Lays text g.pattern
  object : Lays text g.object
  classExpression : Lays text g.classExpression
  statement : Lays text g.statement
  item : Lays text g.item

attribute [instance] Grammar.Laying.type Grammar.Laying.plainType Grammar.Laying.assignment
  Grammar.Laying.operation Grammar.Laying.unary Grammar.Laying.callee Grammar.Laying.pattern
  Grammar.Laying.object Grammar.Laying.classExpression Grammar.Laying.statement
  Grammar.Laying.item

variable {text : List Char} {acc : List Span}

/-! ### Names and modifiers -/

namespace Moves

instance anyWord : Moves text anyWord := by
  unfold Reading.anyWord
  refine bind (k := fun t => ?_)
  split <;> infer_instance

instance bindingName : Moves text bindingName := by
  unfold Reading.bindingName
  refine bind (k := fun t => ?_)
  split <;> infer_instance

instance moduleExportName : Moves text moduleExportName := by
  unfold Reading.moduleExportName
  refine bind (k := fun t => ?_)
  split <;> infer_instance

instance privateName : Moves text privateName := by
  unfold Reading.privateName
  infer_instance

instance memberName : Moves text memberName := by
  unfold Reading.memberName
  infer_instance

instance dottedName (reserved : Bool) : Moves text (dottedName reserved) := by
  unfold Reading.dottedName
  refine bind (k := fun _ => bind (h := collect (h := bind (k := fun _ => ite (h := ?_)))))
  refine bind (k := fun t => ?_)
  split <;> infer_instance

instance followsModifier : Moves text followsModifier := by
  unfold Reading.followsModifier
  refine bind (k := fun _ => bind (k := fun _ => ite (k := bind (k := fun t => ?_))))
  split <;> infer_instance

instance modifier (allowed : List String) (exceptStaticBlock : Bool) :
    Moves text (modifier allowed exceptStaticBlock) := by
  unfold Reading.modifier
  refine bind (k := fun t => ?_)
  split <;> infer_instance

instance eatParameterModifier : Moves text eatParameterModifier := by
  unfold Reading.eatParameterModifier
  refine bind (k := fun t => ?_)
  split <;> infer_instance

end Moves

/-! ### Patterns and parameters -/

namespace Lays

variable (g : Grammar) [g.Laying text]

instance typeHere : Lays text (typeHere g) := inType

instance typeAnnotation : Lays text ( typeAnnotation g) where
  after := .inType (.step fun _ => .tail)

instance typeAnnotation? : Lays text ( typeAnnotation? g) where
  after := .step fun _ => .ite (.take fun _ _ => .pure (by simp)) (.pure (by simp))

instance typeAfter? (t : Token) : Lays text (typeAfter? g t) where
  after := .inType (.step fun _ => .ite (.take fun _ _ => .pure (by simp)) (.pure (by simp)))

instance assignmentIn : Lays text (assignmentIn g) where
  after := .take fun _ _ => .pure (by simp)

instance propertyName : Lays text (propertyName g) where
  after := by
    unfold Reading.propertyName
    refine .step fun t => ?_
    split
    · exact .step fun _ => .pure (by simp) ⟨trivial, trivial⟩
    · exact .step fun _ => .pure (by simp) ⟨trivial, trivial⟩
    · exact .step fun _ => .pure (by simp) ⟨trivial, trivial⟩
    · exact .step fun _ => .pure (by simp) ⟨trivial, trivial⟩
    · refine .step fun _ => .take fun first _ => ?_
      refine .take (h := .collect (h := ⟨?_⟩)) fun more _ => ?_
      · exact .step fun _ => .ite (.take fun _ _ => .pure (by simp)) (.pure (by simp))
      · exact .step fun _ => .pure (by simp) ⟨trivial, trivial⟩
    · exact .step fun _ => .pure (by simp) ⟨trivial, trivial⟩
    · exact .unexpected

instance bindingElement : Lays text (bindingElement g) where
  after := .take fun left _ => .step fun _ =>
    .ite (.take fun _ _ => .pure (by simp)) (.pure (by simp))

instance arrayPattern : Lays text (arrayPattern g) where
  after := by
    unfold Reading.arrayPattern
    refine .step fun _ => ?_
    refine .take (h := .collect (h := ⟨?_⟩)) fun elements _ => ?_
    · refine .step fun _ => .step fun _ => ?_
      refine .ite (.pure (by simp)) (.step fun _ => .ite (.pure (by simp)) (.step fun _ => ?_))
      extract_lets rest
      have hrest : ∀ tree, After text (spans text tree) (rest tree) :=
        fun tree => .step fun _ => .stepUnless (.pure (by simp))
      exact .ite (.take fun p _ => hrest p.tree) (.take fun p _ => hrest p.tree)
    · exact .step fun _ => .step fun _ => .pure (by simp)

instance patternProperty : Lays text (patternProperty g) where
  after := by
    unfold Reading.patternProperty
    refine .step fun _ => .ite (.take fun p _ => .pure (by simp)) (.take fun key _ => ?_)
    refine .step fun _ => .ite (.take fun p _ => .pure (by simp)) (.ite ?_ ?_)
    · exact .step fun _ => .step fun _ => .ite (.take fun _ _ => .pure (by simp)) (.pure (by simp))
    · exact .step fun _ => .ite (.take fun _ _ => .pure (by simp)) (.pure (by simp))

instance objectPattern : Lays text (objectPattern g) where
  after := .step fun _ => .take fun _ _ => .step fun _ => .step fun _ => .pure (by simp)

instance bindingPattern : Lays text (bindingPattern g) where
  after := by
    unfold Reading.bindingPattern
    refine .step fun _ => .step fun t => ?_
    split
    · exact .step fun _ => .pure (by simp)
    · exact .take fun _ _ => .pure (by simp)
    · exact .take fun _ _ => .pure (by simp)
    · exact .unexpected

instance restParameter (start : Nat) : Lays text (restParameter g start) where
  after := by
    unfold Reading.restParameter
    refine .take fun p _ => .take (h := .treesIf (k := ⟨?_⟩)) fun value _ => ?_
    · exact .take fun _ _ => .pure (by simp)
    · exact .take fun _ _ => .step fun _ => .pure (by simp)

instance plainParameter : Lays text (plainParameter g) where
  after := by
    unfold Reading.plainParameter
    refine .step fun _ => .take fun p _ => .step fun _ => .take fun type _ => .step fun _ => ?_
    exact .ite (.take fun _ _ => .pure (by simp)) (.pure (by simp))

instance parameter : Lays text (parameter g) where
  after := .step fun _ => .step fun _ => .ite .tail .tail

end Lays

instance Moves.endsParameters : Moves text endsParameters := by
  unfold Reading.endsParameters
  infer_instance

namespace Lays

variable (g : Grammar) [g.Laying text]

instance parameters : Lays text (parameters g) := by
  refine collect (h := ⟨?_⟩)
  refine .step fun _ => .ite (.pure (by simp)) (.take fun p _ => .step fun _ => ?_)
  exact .stepUnless (.pure (by simp))

instance constructorParameter : Lays text (constructorParameter g) where
  after := by
    unfold Reading.constructorParameter
    refine .step fun _ => .step fun _ => .ite .tail ?_
    refine .step fun _ => .step fun _ => .step fun _ => .take fun p _ => ?_
    exact .stepIf (.pure (by simp))

instance constructorParameters : Lays text (constructorParameters g) := by
  refine collect (h := ⟨?_⟩)
  refine .step fun _ => .ite (.pure (by simp)) (.take fun p _ => .step fun _ => ?_)
  exact .stepUnless (.pure (by simp))

end Lays

/-! ### Signatures and members -/

namespace Moves

instance memberEnd : Moves text memberEnd := by unfold Reading.memberEnd; infer_instance

instance startsIndexSignature : Moves text startsIndexSignature := by
  unfold Reading.startsIndexSignature
  infer_instance

instance startsConstructSignature : Moves text startsConstructSignature := by
  unfold Reading.startsConstructSignature
  infer_instance

end Moves

namespace Lays

variable (g : Grammar) [g.Laying text]

instance listUntil {α : Type} [Laid text α] (close : Mark) {p : Reading α} [Lays text p] :
    Lays text (listUntil close p) :=
  commaList

instance typeArguments : Lays text (typeArguments g) where
  after := by
    unfold Reading.typeArguments
    refine .take (h := .inType (h := ⟨.step fun _ => .tail⟩)) fun types _ => ?_
    exact .step fun _ => .pure (by simp)

instance typeParameter : Lays text (typeParameter g) where
  after := by
    unfold Reading.typeParameter
    exact .step fun _ => .step fun _ => .take fun _ _ => .take fun _ _ => .pure (by simp)

instance typeParameters : Lays text (typeParameters g) where
  after := .inType (.step fun _ => .take fun _ _ => .step fun _ => .pure (by simp))

instance typeParameters? : Lays text (typeParameters? g) := treesIf

instance returnType (opening : Mark) : Lays text (returnType g opening) where
  after := by
    refine .inType (.step fun _ => .step fun _ => .step fun _ => ?_)
    refine .stepIf (.step fun _ => .step fun _ => ?_)
    exact .ite (.step fun _ => .ite (.step fun _ => .tail) (.pure (by simp))) .tail

instance signatureParameters : Lays text (signatureParameters g) where
  after := .take fun _ _ => .stepIf (.step fun _ => .pure (by simp [List.flatMap_map]))

end Lays

theorem After.signatureFrom (g : Grammar) [g.Laying text] (key : Tree) :
    After text (spans text key) (signatureFrom g key) := by
  unfold Reading.signatureFrom
  refine .take fun _ _ => .step fun _ => .take fun _ _ => .take fun _ _ => ?_
  exact .step fun _ => .pure (by simp)

namespace Lays

variable (g : Grammar) [g.Laying text]

instance indexSignature? : Lays text (indexSignature? g) where
  after := by
    unfold Reading.indexSignature?
    refine .step fun _ => .ite ?_ (.pure (by simp))
    refine .step fun _ => .step fun _ => .step fun _ => .stepUnless ?_
    refine .take fun _ _ => .step fun _ => .take fun _ _ => .step fun _ => .pure (by simp)

instance memberKey : Lays text (memberKey g) where
  after := by
    unfold Reading.memberKey
    refine .step fun _ => .ite (.take fun _ _ => .step fun _ => .pure (by simp)) (.step fun t => ?_)
    split <;> exact .step fun _ => .pure (by simp)

instance accessorSignature? : Lays text (accessorSignature? g) where
  after := by
    refine .attempt (.step fun getter => .stepUnless (.take fun key _ => .step fun _ => .ite ?_ ?_))
    · exact .step fun _ => .take fun _ _ => .step fun _ => .pure (by simp)
    · refine .take fun params _ => .stepIf (.step fun _ => ?_)
      split
      · exact .fault
      · exact .step fun _ => .pure (by simp)

instance namedMember (readonly : Bool) : Lays text (namedMember g readonly) where
  after := by
    refine .take fun key _ => .step fun _ => .step fun _ => .step fun _ => .ite ?_ ?_
    · exact .stepIf (.signatureFrom g key)
    · exact .take fun _ _ => .step fun _ => .pure (by simp)

instance typeMember : Lays text (typeMember g) where
  after := by
    have hsignature : After text [] (signatureFrom g .none) := .signatureFrom g .none
    unfold Reading.typeMember
    refine .step fun _ => .step fun _ => .ite hsignature ?_
    refine .step fun _ => .ite (.step fun _ => hsignature) ?_
    refine .step fun readonly => .take fun index _ => ?_
    split
    · exact .pure (by simp)
    · refine .ite .tail (.take fun accessor _ => ?_)
      split
      · exact .pure (by simp)
      · exact .tail

instance typeMembers : Lays text (typeMembers g) where
  after := .step fun _ => .take fun _ _ => .step fun _ => .pure (by simp)

end Lays

/-! ### Simple types -/

namespace Moves

instance tupleLabel : Moves text tupleLabel := by unfold Reading.tupleLabel; infer_instance

instance startsMappedType : Moves text startsMappedType := by
  unfold Reading.startsMappedType
  infer_instance

end Moves

namespace Lays

variable (g : Grammar) [g.Laying text]

instance importOptions : Lays text (importOptions g) where
  after := by
    refine .step fun _ => .step fun _ => .step fun _ => .take fun _ _ => ?_
    exact .step fun _ => .step fun _ => .pure (by simp)

instance importType : Lays text (importType g) where
  after := by
    unfold Reading.importType
    refine .step fun _ => .step fun _ => .step fun t => ?_
    extract_lets rest
    have hrest : ∀ target, After text (spans text target) (rest target) := by
      intro target
      refine .take (h := .treesIf (k := ⟨.take fun _ _ => .pure (by simp)⟩)) fun options _ => ?_
      refine .step fun _ => .step fun _ => .stepIf (.take fun arguments _ => .pure ?_)
      simp
    -- At the end of the text, the closing parenthesis is missing.
    have hend : ∀ target, AfterAt text .eof [] (rest target) := by
      intro target mode s lo hs htoken _
      obtain ⟨⟨token, span, line⟩, after, stop, arrow⟩ := s
      obtain rfl : token = .eof := htoken
      exact ⟨hs, .refl _⟩
    split
    · exact .take fun target _ => hrest target
    · exact .targetToken hrest hend

instance typeReference : Lays text (typeReference g) where
  after := by
    refine .step fun _ => .step fun _ => .step fun _ => .step fun _ => ?_
    exact .take fun _ _ => .pure (by simp)

instance typeQuery : Lays text (typeQuery g) where
  after := by
    refine .step fun _ => .step fun _ => .ite ?_ ?_
    · exact .take fun _ _ => .take fun _ _ => .pure (by simp)
    · exact .step fun _ => .pureBind (.take fun _ _ => .pure (by simp))

instance templateRest {element : Reading Tree} [Lays text element] :
    Lays text (templateRest element) := by
  refine collect (h := ⟨?_⟩)
  refine .step fun t => ?_
  split
  · refine .step fun _ => .take fun tree _ => .isToken ?_ fun _ _ => After.at ?_ _
    · exact .rescan rfl (fun _ _ _ => scanned_readTemplate) readTemplate_ne_word (.pure (by simp))
    · exact .ofFaultThen unexpected_stops
  · exact .step fun _ => .pure (by simp)
  · exact .unexpected

instance template {element : Reading Tree} [k : Lays text element] : Lays text (template element) where
  after := .take fun _ _ => .pure (by simp)

instance tupleElement : Lays text (tupleElement g) where
  after := .step fun _ => .step fun _ => .ite .tail (.take fun _ _ => .step fun _ => .pure (by simp))

instance mappedType : Lays text (mappedType g) where
  after := by
    unfold Reading.mappedType
    refine .step fun _ => .step fun _ => ?_
    extract_lets rest
    have hrest : After text [] (rest ()) := by
      refine .step fun _ => .step fun _ => .step fun _ => .take fun keys _ => ?_
      refine .take (h := .treesIf (k := ⟨.take fun _ _ => .pure (by simp)⟩)) fun renamed _ => ?_
      refine .step fun _ => .step fun _ => ?_
      extract_lets last
      have hlast : After text (spans text keys ++ spans text renamed) (last ()) := by
        refine .take (h := .treesIf (k := ⟨.take fun _ _ => .pure (by simp)⟩)) fun type _ => ?_
        exact .step fun _ => .step fun _ => .pure (by simp)
      exact .ite (.step fun _ => hlast) (.step fun _ => hlast)
    exact .ite (.step fun _ => hrest) (.step fun _ => hrest)

instance thisPredicate : Lays text (thisPredicate g) where
  after := .step fun _ => .step fun _ => .ite (.step fun _ => .tail) (.pure (by simp))

instance wordType (name : String) : Lays text (wordType g name) where
  after := by
    unfold Reading.wordType
    split
    · exact .tail
    · exact .tail
    · exact .step fun _ => .tail
    · exact .step fun _ => .pure (by simp)
    · exact .step fun _ => .pure (by simp)
    · refine .stepIf (.step fun _ => .ite (.step fun _ => .step fun _ => .tail) ?_)
      exact .step fun _ => .ite (.step fun _ => .pure (by simp)) .tail

instance simpleType : Lays text (simpleType g) where
  after := by
    unfold Reading.simpleType
    refine .step fun t => ?_
    split
    · exact .tail
    · exact .step fun _ => .pure (by simp)
    · exact .step fun _ => .pure (by simp)
    · exact .step fun _ => .pure (by simp)
    · exact .tail
    · exact .tail
    · refine .step fun _ => .step fun t => ?_
      split
      · exact .step fun _ => .pure (by simp)
      · exact .step fun _ => .pure (by simp)
      · exact .unexpected
    · exact .step fun _ => .ite .tail (.take fun _ _ => .pure (by simp))
    · exact .step fun _ => .take fun _ _ => .step fun _ => .pure (by simp)
    · exact .step fun _ => .take fun _ _ => .step fun _ => .pure (by simp)
    · exact .unexpected

end Lays

/-! ### Operators on types -/

namespace Lays

variable (g : Grammar) [g.Laying text]

instance arrayType : Lays text (arrayType g) where
  after := by
    unfold Reading.arrayType
    refine .take fun base _ => .take (h := .collect (h := ⟨?_⟩)) fun indices _ => .pure (by simp)
    refine .step fun _ => .ite (.pure (by simp)) (.step fun _ => .ite ?_ (.pure (by simp)))
    refine .step fun _ => .ite (.pure (by simp)) (.take fun index _ => ?_)
    exact .step fun _ => .pure (by simp)

instance inferBound : Lays text (inferBound g) where
  after := by
    unfold Reading.inferBound
    refine .take (h := .attempt (h := ⟨?_⟩)) fun bound _ => .pure (by simp)
    refine .step fun _ => .take fun tree _ => .step fun _ => .step fun _ => ?_
    exact .ite (.pure (by simp)) (.pure (by simp))

instance operatorType : Lays text (operatorType g) where
  after := by
    unfold Reading.operatorType
    refine .step (h := .collect (h := .bind (k := fun t => ?_))) fun _ => ?_
    · split <;> infer_instance
    · refine .step fun _ => .ite ?_ .tail
      exact .step fun _ => .take fun _ _ => .pure (by simp)

instance chain (separator : Mark) {p : Reading Tree} [Lays text p] :
    Lays text (chain separator p) where
  after := .step fun _ => .take fun _ _ => .take fun _ _ => .pure (by simp)

instance unionType : Lays text (unionType g) := chain _

end Lays

section FunctionTypes

variable (g : Grammar) [g.Laying text]

instance Moves.startsFunctionType : Moves text (startsFunctionType g) := by
  unfold Reading.startsFunctionType
  infer_instance

namespace Lays

instance functionType : Lays text (functionType g) where
  after := by
    refine .take fun _ _ => .step fun _ => .take fun _ _ => .take fun _ _ => .pure ?_
    simp

instance plainType : Lays text (Reading.plainType g) where
  after := by
    unfold Reading.plainType
    refine .step fun _ => .ite .tail (.step fun _ => .step fun _ => .step fun _ => ?_)
    exact .ite (.step fun _ => .step fun _ => .tail) .tail

instance fullType : Lays text (fullType g) where
  after := by
    refine .within _ (.take fun checked _ => .step fun _ => .ite (.pure (by simp)) ?_)
    refine .step fun _ => .ite (.take fun tested _ => .step fun _ => ?_) (.pure (by simp))
    exact .take fun _ _ => .step fun _ => .take fun _ _ => .pure (by simp)

end Lays

end FunctionTypes

/-! ### Functions -/

namespace Lays

variable (g : Grammar) [g.Laying text]

instance statementsToBrace : Lays text (statementsToBrace g) := by
  refine collect (h := ⟨?_⟩)
  refine .step fun _ => .ite (.pure (by simp)) (.step fun _ => .ite (.pure (by simp)) ?_)
  exact .take fun _ _ => .pure (by simp)

instance block : Lays text (block g) where
  after := .step fun _ => .take fun _ _ => .pure (by simp)

instance functionBody (generator : Bool) : Lays text (functionBody g generator) where
  after := .step fun _ => .step fun _ => .ite (.pure (by simp)) .tail

instance functionFrom (generator : Bool) : Lays text (functionFrom g generator) where
  after := by
    unfold Reading.functionFrom
    refine .take fun _ _ => .step fun _ => .take fun _ _ => .step fun _ => ?_
    exact .take fun _ _ => .take fun _ _ => .pure (by simp [List.flatMap_map])

instance namedFunction (required : Bool) : Lays text (namedFunction g required) where
  after := by
    refine .step fun _ => .step fun _ => .step fun _ => ?_
    exact .ite (.step fun _ => .tail) .tail

instance arrowBody : Lays text (arrowBody g) where
  after := .step fun _ => .ite .tail (.take fun _ _ => .pure (by simp))

end Lays

end AmbientBundle.Source
