import AmbientBundle.Proofs.Layout.Expressions
import AmbientBundle.Proofs.Layout.Modifiers
import AmbientBundle.Source.Grammar.Levels

/-!
# Declarations, statements and items keep references in order

One lemma for each reader, in the order of the grammar.

* `Lays.statementItem`, `Lays.importItem`, `Lays.exportItem`: the items of a file.
* `Grammar.level_laying`: a grammar with any number of levels lays out references.
-/

namespace AmbientBundle.Source

open Laid Reading

variable {text : List Char} {acc : List Span} (g : Grammar) [g.Laying text]

/-! ### Declarations -/

namespace Lays

instance declarator (inLoop : Bool) : Lays text (declarator g inLoop) where
  after := by
    unfold Reading.declarator
    refine .take fun p _ => .stepIf (.take fun type _ => ?_)
    refine .take (h := .treesIf (k := ⟨.take fun _ _ => .pure (by simp)⟩)) fun value _ => ?_
    exact .pure (by simp)

instance variableList (inLoop : Bool) : Lays text (variableList g inLoop) where
  after := by
    unfold Reading.variableList
    refine .step fun _ => .ite (.pure (by simp)) (.take fun first _ => ?_)
    refine .take (h := .collect (h := ⟨?_⟩)) fun more _ => .pure (by simp)
    refine .step fun _ => .ite (.step fun _ => .ite (.pure (by simp)) ?_) (.pure (by simp))
    exact .take fun _ _ => .pure (by simp)

end Lays

instance Moves.skipStatement : Moves text (skipStatement g) := by
  unfold Reading.skipStatement
  refine bind (k := fun _ => ite (k := bind (k := fun _ => bind (h := collect (h := ?_)))))
  refine bind (k := fun _ => ite (k := bind (k := fun _ => bind (k := fun t => ?_))))
  split <;> infer_instance

namespace Lays

instance variableStatement : Lays text (variableStatement g) where
  after := .step fun _ => .take fun _ _ => .step fun _ => .pure (by simp)

instance interfaceFrom : Lays text (interfaceFrom g) where
  after := by
    unfold Reading.interfaceFrom
    refine .step fun _ => .take fun typeParams _ => .take fun bases _ => .step fun _ => ?_
    exact .stepIf (.take fun _ _ => .pure (by simp) ⟨trivial, trivial⟩)

instance aliasFrom : Lays text (aliasFrom g) where
  after := by
    unfold Reading.aliasFrom
    refine .step fun _ => .take fun typeParams _ => ?_
    refine .take (h := .inType (h := ⟨.step fun _ => .tail⟩)) fun type _ => ?_
    exact .step fun _ => .pure (by simp) ⟨trivial, trivial⟩

instance enumMember : Lays text (enumMember g) where
  after := by
    unfold Reading.enumMember
    refine .step fun t => ?_
    extract_lets last rest
    have hrest : After text [] (rest ()) := by
      refine .step fun _ => .ite (.take fun _ _ => .pure (by simp)) ?_
      exact .step fun _ => .step fun _ => .stepUnless (.pure (by simp))
    split
    · exact .step fun _ => hrest
    · exact .step fun _ => hrest
    · exact .step fun _ => .step fun _ => .step fun _ => hrest
    · exact .step fun _ => hrest

instance enumFrom : Lays text (enumFrom g) where
  after := by
    unfold Reading.enumFrom
    refine .step fun _ => .step fun _ => .take (h := .collect (h := ⟨?_⟩)) fun members _ => ?_
    · refine .step fun _ => .ite (.pure (by simp)) (.take fun _ _ => .step fun _ => ?_)
      exact .pure (by simp)
    · exact .step fun _ => .pure (by simp) ⟨trivial, trivial⟩

instance moduleBody : Lays text (moduleBody g) where
  after := by
    refine .step fun _ => After.tail (h := .collect (h := ⟨?_⟩))
    refine .step fun _ => .ite (.pure (by simp)) (.step fun _ => .ite (.pure (by simp)) ?_)
    exact .take fun _ _ => .pure (by simp)

instance namedModuleFrom (start : Nat) : Lays text (namedModuleFrom g start) where
  after := by
    unfold Reading.namedModuleFrom
    refine .step fun name => .step fun _ => .take fun body _ => .step fun _ => ?_
    exact .pure (by simp) ⟨trivial, trivial⟩

instance ambientModule (start : Nat) : Lays text (ambientModule g start) where
  after := by
    unfold Reading.ambientModule
    refine .step fun _ => ?_
    extract_lets rest
    have hrest : ∀ name, After text [] (rest name) := by
      refine fun name => .step fun _ => .ite ?_ ?_
      · exact .take fun _ _ => .step fun _ => .pure (by simp) ⟨trivial, trivial⟩
      · exact .step fun _ => .step fun _ => .pure (by simp) ⟨trivial, trivial⟩
    exact .ite (.step fun _ => .pureBind (hrest _)) (.step fun _ => .pureBind (hrest _))

instance declarationAfter (start : Nat) (name : String) (ahead : Bool) :
    Lays text (declarationAfter g start name ahead) where
  after := by
    unfold Reading.declarationAfter
    split
    · refine .step fun _ => .step fun _ => .ite (.stepIf ?_) (.pure (by simp))
      exact .take fun _ _ => .pure (by simp) ⟨trivial, trivial⟩
    · refine .step fun _ => .ite (.stepIf ?_) (.pure (by simp))
      exact .take fun _ h => .pure (by simp) h
    · refine .step fun _ => .ite (.stepIf ?_) (.pure (by simp))
      exact .take fun _ h => .pure (by simp) h
    · refine .step fun _ => .ite (.pure (by simp)) (.stepIf (.step fun t => ?_))
      split
      · exact .take fun _ h => .pure (by simp) h
      · exact .ite (.take fun _ h => .pure (by simp) h) (.pure (by simp))
    · refine .step fun _ => .ite (.stepIf ?_) (.pure (by simp))
      exact .take fun _ h => .pure (by simp) h
    · refine .step fun _ => .step fun _ => .ite (.stepIf ?_) (.pure (by simp))
      exact .take fun _ h => .pure (by simp) h
    · exact .pure (by simp)

instance declared (start : Nat) : Lays text (declared g start) where
  after := by
    unfold Reading.declared
    refine .step fun t => ?_
    split
    · exact .take fun _ _ => .pure (by simp) ⟨trivial, trivial⟩
    · exact .take fun _ _ => .pure (by simp) ⟨trivial, trivial⟩
    · refine .step fun _ => .ite (.step fun _ => .step fun _ => ?_) ?_
      · exact .take fun _ h => .pure (by simp) h
      · exact .take fun _ _ => .pure (by simp) ⟨trivial, trivial⟩
    · exact .take fun _ _ => .pure (by simp) ⟨trivial, trivial⟩
    · exact .take fun _ _ => .pure (by simp) ⟨trivial, trivial⟩
    · exact .take fun _ h => .pure (by simp) h
    · exact .tail
    · exact .pure (by simp)

end Lays

/-! ### Statements -/

instance Lays.condition : Lays text (condition g) where
  after := .step fun _ => .take fun _ _ => .step fun _ => .pure (by simp)

theorem After.loopHeadFrom (first : List Tree) :
    After text (spans text first) (loopHeadFrom g first) := by
  unfold Reading.loopHeadFrom
  refine .step fun _ => .ite (.take fun _ _ => .pure (by simp)) ?_
  refine .step fun _ => .ite (.take fun _ _ => .pure (by simp)) (.step fun _ => .step fun _ => ?_)
  extract_lets rest
  have hrest : ∀ test, After text (spans text first ++ spans text test) (rest test) := by
    refine fun test => .step fun _ => .ite (.pureBind (.pure (by simp))) ?_
    exact .take fun _ _ => .pureBind (.pure (by simp))
  refine .ite (.pureBind ((hrest []).weaken (by simp))) (.take fun e _ => .step fun _ => ?_)
  exact .pureBind ((hrest _).weaken (by simp))

namespace Lays

instance loopHead : Lays text (loopHead g) where
  after := by
    unfold Reading.loopHead
    refine .step fun _ => .step fun _ => .step fun _ => .step fun _ => .ite ?_ ?_
    · exact .step fun _ => .step fun _ => .take fun trees _ => .loopHeadFrom g trees
    · refine .step fun _ => .ite (.loopHeadFrom g []) (.take fun first _ => ?_)
      refine .take (h := .collect (h := ⟨?_⟩)) fun more _ => ?_
      · exact .step fun _ => .ite (.take fun _ _ => .pure (by simp)) (.pure (by simp))
      · exact (After.loopHeadFrom g _).weaken (by simp)

instance forLoop : Lays text (forLoop g) where
  after := by
    refine .step fun _ => .step fun _ => .step fun _ => .take fun _ _ => .step fun _ => ?_
    exact .take fun _ _ => .pure (by simp)

instance caseBody : Lays text (caseBody g) := by
  refine collect (h := ⟨?_⟩)
  refine .step fun _ => .step fun _ => .step fun _ => .step fun _ => ?_
  exact .ite (.pure (by simp)) (.take fun _ _ => .pure (by simp))

instance caseTest? : Lays text (caseTest? g) where
  after := by
    refine .step fun _ => .ite (.take fun _ _ => .pure (by simp)) ?_
    exact .step fun _ => .ite (.pure (by simp)) (.pure (by simp))

instance switchStatement : Lays text (switchStatement g) where
  after := by
    unfold Reading.switchStatement
    refine .step fun _ => .take fun subject _ => .step fun _ => ?_
    refine .take (h := .collect (h := ⟨?_⟩)) fun cases _ => .step fun _ => .pure (by simp)
    refine .take fun test _ => ?_
    split
    · exact .step fun _ => .take fun _ _ => .pure (by simp)
    · exact .pure (by simp)

instance catchClause : Lays text (catchClause g) := by
  refine treesIf (k := ⟨.step fun _ => ?_⟩)
  extract_lets rest
  have hrest : ∀ param, After text (spans text param) (rest param) :=
    fun param => .take fun _ _ => .pure (by simp)
  refine .ite (.take fun _ _ => .take fun _ _ => .step fun _ => ?_) (.pureBind (hrest []))
  exact .pureBind ((hrest _).weaken (by simp))

instance finallyClause : Lays text (finallyClause g) :=
  treesIf (k := ⟨.take fun _ _ => .pure (by simp)⟩)

instance tryStatement : Lays text (tryStatement g) where
  after := by
    refine .step fun _ => .take fun _ _ => .step fun _ => .take fun _ _ => .take fun _ _ => ?_
    exact .stepIf (.pure (by simp))

instance ifStatement : Lays text (ifStatement g) where
  after := by
    refine .step fun _ => .take fun _ _ => .take fun _ _ => ?_
    refine .take (h := .treesIf (k := ⟨.take fun _ _ => .pure (by simp)⟩)) fun _ _ => ?_
    exact .pure (by simp)

instance doLoop : Lays text (doLoop g) where
  after := by
    refine .step fun _ => .take fun _ _ => .step fun _ => .take fun _ _ => .step fun _ => ?_
    exact .pure (by simp)

instance keywordStatement? (name : String) : Lays text (keywordStatement? g name) where
  after := by
    unfold Reading.keywordStatement?
    split
    · exact .step fun _ => .step fun _ => .ite (.pure (by simp))
        (.step fun _ => .step fun _ => .pure (by simp))
    · exact .step fun _ => .step fun _ => .ite (.pure (by simp))
        (.step fun _ => .step fun _ => .pure (by simp))
    · exact .step fun _ => .step fun _ => .pure (by simp)
    · exact .take fun _ _ => .pure (by simp)
    · exact .take fun _ _ => .pure (by simp)
    · exact .take fun _ _ => .pure (by simp)
    · refine .step fun _ => .step fun _ => .ite (.pure (by simp)) ?_
      exact .take fun _ _ => .step fun _ => .pure (by simp)
    · exact .take fun _ _ => .pure (by simp)
    · refine .step fun _ => .step fun _ => .stepIf ?_
      exact .take fun _ _ => .step fun _ => .pure (by simp)
    · exact .take fun _ _ => .pure (by simp)
    · exact .step fun _ => .take fun _ _ => .take fun _ _ => .pure (by simp)
    · exact .step fun _ => .take fun _ _ => .take fun _ _ => .pure (by simp)
    · exact .step fun _ => .step fun _ => .pure (by simp)
    · exact .step fun _ => .step fun _ => .pure (by simp)
    · exact .pure (by simp)

instance keywordDeclaration? (name : String) : Lays text (keywordDeclaration? g name) where
  after := by
    unfold Reading.keywordDeclaration?
    split
    · refine .step fun _ => .ite (.step fun _ => .step fun _ => ?_) ?_
      · exact .take fun _ h => .pure (by simp) h
      · exact .take fun _ _ => .pure (by simp) ⟨trivial, trivial⟩
    · exact .take fun _ _ => .pure (by simp) ⟨trivial, trivial⟩
    · refine .step fun _ => .ite ?_ (.pure (by simp))
      exact .take fun _ _ => .pure (by simp) ⟨trivial, trivial⟩
    · exact .take fun _ _ => .pure (by simp) ⟨trivial, trivial⟩
    · exact .take fun _ _ => .pure (by simp) ⟨trivial, trivial⟩
    · refine .step fun _ => .ite (.step fun _ => ?_) (.pure (by simp))
      exact .take fun _ _ => .pure (by simp) ⟨trivial, trivial⟩
    · exact .pure (by simp)

end Lays

/-! ### Items without a modifier -/

/-- A modifier is dropped from nothing else than a declaration that loses it. -/
theorem declareSpan?_kept {item : Item}
    (h : ∀ head, item.kind.head? = some head → head.losesDeclare = false) :
    declareSpan? text item = none := by
  unfold declareSpan?
  cases hkind : item.kind.head? with
  | none => rfl
  | some head =>
    have hguard : (guard (head.losesDeclare = true) : Option Unit) = none :=
      if_neg (Bool.eq_false_iff.1 (h head hkind))
    show Option.bind (guard (head.losesDeclare = true)) _ = none
    rw [hguard]
    rfl

/-- Only a declaration can have a modifier. -/
@[simp]
theorem declareSpan?_undeclared (start : Nat) {kind : ItemKind} (tree : Tree)
    (h : ∀ head, kind = .declaration head → head.declared = false)
    (h' : ∀ head, kind = .exportDeclaration head → head.declared = false) :
    declareSpan? text ⟨start, kind, tree⟩ = none := by
  refine declareSpan?_kept fun head hhead => ?_
  have hdeclared : head.declared = false := by
    cases kind <;> cases hhead
    · exact h head rfl
    · exact h' head rfl
  rw [Head.losesDeclare, hdeclared, Bool.false_and]

@[simp]
theorem declareSpan?_declarationItem (start : Nat) (d : Declared) :
    declareSpan? text (declarationItem start false d) = none := by
  simp [declarationItem]

@[simp]
theorem declareSpan?_exportedItem (start inner : Nat) (d : Declared) :
    declareSpan? text (exportedItem start inner false d) = none := by
  simp [exportedItem]

@[simp]
theorem tree_declarationItem (start : Nat) (isDeclared : Bool) (d : Declared) :
    (declarationItem start isDeclared d).tree = d.2 := rfl

@[simp]
theorem tree_exportedItem (start inner : Nat) (isDeclared : Bool) (d : Declared) :
    (exportedItem start inner isDeclared d).tree = d.2 := rfl

theorem Lays.declarationFromName? (start : Nat) {name : String} (hname : name ≠ "declare") :
    Lays text (declarationFromName? g start name) where
  after := by
    unfold Reading.declarationFromName?
    split
    · exact absurd rfl hname
    · refine .step fun _ => .ite ?_ (.pure (by simp))
      exact .take fun _ _ => .step fun _ => .pure (by simp)
    · exact .take fun d _ => .pure (by cases d <;> simp) (by cases d <;> trivial)

/-! ### Declared items -/

/-- No declaration follows a word that is none of those which start one. -/
theorem Reading.declared_none {s : Place} {start : Nat} {mode : Mode}
    (h : s.Ended ∨ s.current.token = .word "declare") : declared g start mode s = .ok none s := by
  obtain ⟨⟨token, span, line⟩, after, stop, arrow⟩ := s
  rcases h with ⟨-, h | ⟨offset, h⟩⟩ | h
  · obtain rfl : token = .eof := h
    rfl
  · obtain rfl : token = .bad offset := h
    rfl
  · obtain rfl : token = .word "declare" := h
    rfl

/-- **The declaration after `declare`**, where that has been read as an expression. -/
theorem Ends.declared {s t : Place} {mode : Mode} (hs : s.Valid text)
    (hexport : s.current.token ≠ .word "export") (ht : t.Valid text) (hst : s.Reaches t) :
    Ends text t (fun d u => ∀ d', d = some d' →
        Fits text s.front (spans text (declarationItem s.front true d')) u.front)
      (Reading.declared g s.front mode t) := by
  -- at the end of the text there is neither a modifier nor a declaration
  by_cases hended : s.Ended
  · rw [declared_none g (.inl (hst.ended hended))]
    exact ⟨ht, .refl t, fun _ h => nomatch h⟩
  have hends := Lays.ends (p := Reading.declared g s.front) mode ht
  cases hrun : Reading.declared g s.front mode t with
  | error fault u =>
    rw [hrun] at hends
    exact hends
  | ok d u =>
    rw [hrun] at hends
    refine ⟨hends.1, hends.2.1, ?_⟩
    rintro d rfl
    have htree : Fits text t.front (spans text d.2) u.front := by simpa using hends.2.2.1
    cases hspan : declareSpan? text (declarationItem s.front true d) with
    | none =>
      have := htree.mono_left hst.front_le
      simpa [hspan] using this
    | some span =>
      obtain ⟨hword, hfits⟩ := fits_declareSpan?_declaration hs hended hexport d hspan
      -- The reader has moved on from `declare`: that word itself starts no declaration.
      rcases hst.word (by rw [hword]; rfl) with ⟨hcurrent, -⟩ | hnext
      · rw [declared_none g (.inr (by rw [hcurrent, hword]))] at hrun
        cases hrun
      · have := (hfits.mono hnext).append htree
        simpa [hspan] using this

theorem After.expressionEnd (start : Nat) (e : Expression) (he : Sound text e) :
    After text (spans text e) (expressionEnd g start e) := by
  refine .step fun _ => .ite (.pure (by simp)) (.step fun _ => .ite ?_ .fault)
  exact .pass (.operationFrom g e he) fun _ _ => .pure (by simp)

theorem After.nameItem (start : Nat) (e : Expression) (he : Sound text e) {name : String}
    (hname : name ≠ "declare") : After text (spans text e) (nameItem g start e name) := by
  unfold Reading.nameItem
  refine .step fun _ => .ite (.take fun _ _ => .pure (by simp)) (.step fun _ => .ite ?_ ?_)
  · exact .step fun _ => .pure (by simp)
  · refine .take (h := Lays.declarationFromName? g start hname) fun item _ => ?_
    split
    · exact .pure (by simp)
    · refine .step fun _ => .ite (.take fun _ _ => .pure (by simp)) ?_
      exact (expressionEnd g start e he).weaken (by simp)

/-- **The item of a name that has been read as `declare`.** -/
theorem Ends.nameItem_declare {s t : Place} {mode : Mode} (hs : s.Valid text)
    (hexport : s.current.token ≠ .word "export") (ht : t.Valid text) (hst : s.Reaches t)
    {e : Expression} (he : Sound text e) {lo : Nat} (hlo : lo ≤ s.front)
    (hfits : Fits text lo (spans text e) t.front) :
    Ends text t (fun item u => Fits text lo (spans text item) u.front ∧ Sound text item)
      (nameItem g s.front e "declare" mode t) := by
  have hlabel : After text [] (g.statement >>= fun tree =>
      (pure ⟨s.front, .statement, tree⟩ : Reading Item)) := .take fun _ _ => .pure (by simp)
  have hrest : ∀ name, After text (spans text e)
      ((pure (["public", "static", "abstract"].contains name) <&&> eatWord "interface") >>=
        fun b => if b then Reading.interfaceFrom g >>= fun d => pure (declarationItem s.front false d)
          else Reading.expressionEnd g s.front e) := fun name =>
    .step fun _ => .ite (.take fun _ _ => .pure (by simp)) (.expressionEnd g s.front e he)
  unfold Reading.nameItem
  refine ((Moves.eat .colon).moves mode t ht).bind fun colon u hu htu _ => ?_
  have hsu := hst.trans htu
  split
  · exact hlabel mode u lo hu (Nat.le_trans hlo hsu.front_le)
  refine (Moves.afterLine.moves mode u hu).bind fun line v hv huv _ => ?_
  have hdeclared : Ends text v (fun item w => ∀ item', item = some item' →
      Fits text s.front (spans text item') w.front)
      (Reading.declarationFromName? g s.front "declare" mode v) := by
    refine (Ends.declared g hs hexport hv (hsu.trans huv)).bind fun d w hw _ hd => ⟨hw, .refl w, ?_⟩
    intro item hitem
    obtain ⟨d', rfl, rfl⟩ := Option.map_eq_some_iff.1 hitem
    exact hd d' rfl
  rw [if_neg (by simp)]
  refine hdeclared.bind fun item w hw hvw hitem => ?_
  cases item with
  | some item => exact ⟨hw, .refl w, (hitem item rfl).mono_left hlo, trivial⟩
  | none => exact hrest "declare" mode w lo hw (hfits.mono (htu.trans (huv.trans hvw)).front_le)

/-- **A statement that starts with an expression**, where no export starts. -/
theorem AfterAt.expressionItem {t : Token} (ht : t ≠ .word "export") :
    AfterAt text t [] (expressionItem g) := by
  intro mode s lo hs htoken hlo
  unfold Reading.expressionItem
  refine .ran (start_run mode s) (.refl s) ?_
  refine (Lays.ends mode hs).bind fun e u hu hsu he => ?_
  have hfits := he.1.mono_left hlo
  -- of all expressions only the name `declare` may turn out to be a modifier
  cases e.shape with
  | name name =>
    by_cases hdeclare : name = "declare"
    · subst hdeclare
      exact Ends.nameItem_declare g hs (htoken ▸ ht) hu hsu he.2 hlo hfits
    · exact After.nameItem g _ e he.2 hdeclare mode u lo hu hfits
  | _ => exact After.expressionEnd g _ e he.2 mode u lo hu hfits

theorem Stays.keywordStatement? (name : String) : Stays (keywordStatement? g name) := by
  unfold Reading.keywordStatement?
  split
  case h_15 => exact .none
  all_goals exact .ofYields

theorem Stays.keywordDeclaration? (name : String) : Stays (keywordDeclaration? g name) := by
  unfold Reading.keywordDeclaration?
  split
  · exact .ofYields
  · exact .ofYields
  · exact .look (fun _ _ => ⟨_, rfl⟩) fun _ => .ite .ofYields .none
  · exact .ofYields
  · exact .ofYields
  · exact .look (fun _ _ => ⟨_, rfl⟩) fun _ => .ite .ofYields .none
  · exact .none

/-- **A statement or a declaration**, where no export starts. -/
theorem AfterAt.statementItem {t : Token} (ht : t ≠ .word "export") :
    AfterAt text t [] (statementItem g) := by
  unfold Reading.statementItem
  refine .look (fun _ s => ⟨s.front, rfl⟩) fun start => .token ?_
  split
  · exact After.at (.take fun _ _ => .pure (by simp)) _
  · exact After.at (.step fun _ => .pure (by simp)) _
  · exact After.at (.faultAt _) _
  · next name =>
    refine .takeOption (Stays.keywordStatement? g name) (fun _ _ => .pure (by simp)) ?_
    refine .takeOption (Stays.keywordDeclaration? g name) (fun _ _ => .pure (by simp)) ?_
    exact .expressionItem g ht
  · exact .expressionItem g ht

namespace Lays

instance importStatement : Lays text (importStatement g) where
  after := by
    unfold Reading.importStatement
    refine .step fun _ => .step fun _ => .stepUnless ?_
    exact .take fun _ _ => .step fun _ => .pure (by simp)

instance nestedStatement : Lays text (nestedStatement g) where
  after := by
    unfold Reading.nestedStatement
    refine .step fun _ => .ite .tail (.isToken (After.at (.ofFaultThen fault_stops) _) fun t ht => ?_)
    exact .pass (.statementItem g ht) fun _ _ => .pure (by simp)

end Lays

/-! ### Imports -/

namespace Moves

instance skipAttributes : Moves text (skipAttributes g) := by
  unfold Reading.skipAttributes
  infer_instance

instance importSpecifierNamed (start : Nat) (name : String) :
    Moves text (importSpecifier.named start name) := by
  unfold Reading.importSpecifier.named
  infer_instance

instance importSpecifier : Moves text importSpecifier := by
  unfold Reading.importSpecifier
  refine bind (k := fun start => bind (k := fun name => ?_))
  refine ite (h := ?_) (k := bind (k := fun t => ite (h := ?_) (k := ?_)))
  · infer_instance
  · infer_instance
  · infer_instance

instance importNames : Moves text importNames := by
  unfold Reading.importNames
  infer_instance

instance modifiesName : Moves text modifiesName := by
  unfold Reading.modifiesName
  infer_instance

instance importAfterType : Moves text importAfterType := by
  unfold Reading.importAfterType
  infer_instance

instance importAfterPhase : Moves text importAfterPhase := by
  unfold Reading.importAfterPhase
  infer_instance

end Moves

/-- A mark that must be there has been read when the next token comes. -/
theorem Ends.expect {s : Place} {mode : Mode} (hs : s.Valid text) (m : Mark) :
    Ends text s (fun _ t => s.front ≤ t.lastStop) (expect m mode s) := by
  obtain ⟨hvalid, hreaches⟩ := hs.advanced mode.inType
  have hstop : s.front ≤ (s.advanced mode.inType).lastStop :=
    Nat.le_trans hs.start_le (Nat.le_of_eq hs.stop_eq.symm)
  have hrun := expectToken_run (.mark m) mode s
  change Reading.expect m mode s = _ at hrun
  rw [hrun]
  split
  · exact ⟨hvalid, hreaches, hstop⟩
  · exact ⟨hs, .refl s⟩

/-- **A reference by `require`** covers its argument. -/
theorem After.external {α : Type} [Laid text α] {q : Tree → Reading α}
    (hq : ∀ tree, After text (acc ++ spans text tree) (q tree)) :
    After text acc (start >>= fun start => advance >>= fun _ => advance >>= fun _ =>
      literal >>= fun target => expect .rparen >>= fun _ => spanFrom start >>= fun span =>
        Pure.pure (Tree.external span target) >>= q) := by
  intro mode s lo hs hfits
  refine .ran (start_run mode s) (.refl s) ?_
  refine (Moves.advance.moves mode _ hs).bind fun _ t ht hst _ => ?_
  refine (Moves.advance.moves mode t ht).bind fun _ u hu htu _ => ?_
  refine (Lays.ends mode hu).bind fun target v hv huv htarget => ?_
  refine (Ends.expect hv .rparen).bind fun _ w hw hvw hstop => ?_
  -- The closing parenthesis ends after the argument, which is not empty.
  refine hq (.external ⟨_, w.lastStop⟩ target) mode w lo hw (hfits.append ?_)
  obtain ⟨⟨htstart, htlt, -, -, htend⟩, -⟩ := htarget
  have h1 := hst.front_le
  have h2 := htu.front_le
  have h3 : target.span.stop ≤ v.front := htend
  exact ⟨Nat.le_refl _, by dsimp only; omega, hs.front_boundary, hw.lastStop_boundary,
    hw.lastStop_le⟩

namespace Lays

instance fromClause : Lays text (fromClause g) where
  after := by
    refine .step fun _ => .take fun _ _ => .step fun _ => .step fun _ => .pure (by simp)

instance importAssignmentFrom : Lays text importAssignmentFrom where
  after := by
    unfold Reading.importAssignmentFrom
    refine .step fun _ => .step fun _ => .step fun _ => ?_
    extract_lets rest
    have hrest : ∀ tree, After text (spans text tree) (rest tree) :=
      fun tree => .step fun _ => .pure (by simp)
    exact .ite (.external hrest) (.step fun _ => .pureBind (hrest .none))

instance importWithName : Lays text importWithName where
  after := by
    unfold Reading.importWithName
    refine .step fun first => ?_
    extract_lets last comma rest
    have hcomma : After text [] (comma ()) := .step fun _ => .stepUnless (.pure (by simp))
    have hrest : ∀ x, After text [] (rest x) := by
      rintro ⟨bare, name⟩
      refine .ite (.pure (by simp)) (.step fun _ => .ite ?_ (.ite ?_ hcomma))
      · exact .take fun _ _ => .pure (by simp)
      · exact .step fun _ => .ite (.pure (by simp)) hcomma
    exact .ite (.step hrest) (.pureBind (hrest (false, first)))

instance importItem : Lays text (importItem g) where
  after := by
    unfold Reading.importItem
    refine .step fun start => .step fun _ => .step fun _ => .ite ?_ (.step fun _ => .step fun t => ?_)
    · exact .take fun _ _ => .step fun _ => .pure (by simp)
    · split
      · exact .take fun _ _ => .step fun _ => .step fun _ => .pure (by simp)
      · refine .step fun _ => ?_
        extract_lets rest
        have hrest : After text [] (rest ()) := .step fun _ => .take fun _ _ => .pure (by simp)
        refine .ite (.take fun tree _ => ?_) hrest
        split
        · exact .pure (by simp)
        · exact hrest.weaken (List.nil_sublist _)

end Lays

/-! ### Exports -/

namespace Moves

instance exportSpecifierExported (name : Option String) :
    Moves text (exportSpecifier.exported name) := by
  unfold Reading.exportSpecifier.exported
  infer_instance

instance exportSpecifier : Moves text exportSpecifier := by
  unfold Reading.exportSpecifier
  refine bind (k := fun name => bind (k := fun t => ite (h := ?_) (k := ?_)))
  · infer_instance
  · infer_instance

end Moves

namespace Lays

instance exportDefault : Lays text (exportDefault g) where
  after := by
    unfold Reading.exportDefault
    refine .step fun _ => .step fun _ => .ite (.step fun _ => .tail) ?_
    refine .step fun _ => .step fun _ => .stepIf (.step fun _ => .ite ?_ ?_)
    · exact .take fun _ _ => .pure (by simp)
    · refine .step fun _ => .ite .tail (.step fun _ => .step fun _ => .ite ?_ ?_)
      · exact .step fun _ => .tail
      · refine .step fun _ => .ite .tail ?_
        exact .take fun _ _ => .step fun _ => .pure (by simp)

instance exportNames (start : Nat) : Lays text (exportNames g start) where
  after := by
    unfold Reading.exportNames
    refine .step fun _ => .step fun names => .step fun _ => .step fun _ => .ite ?_ ?_
    · exact .take fun _ _ => .pure (by simp)
    · exact .step fun _ => .pure (by simp)

instance exportStar (start : Nat) : Lays text (exportStar g start) where
  after := by
    unfold Reading.exportStar
    refine .step fun _ => .step fun _ => .ite ?_ ?_
    · exact .step fun _ => .take fun _ _ => .pure (by simp)
    · exact .take fun _ _ => .pure (by simp)

instance exportedKeyword? : Lays text (exportedKeyword? g) where
  after := by
    unfold Reading.exportedKeyword?
    refine .step fun t => ?_
    split
    · exact .tail
    · exact .pure (by simp)

instance exportedContextual? (start : Nat) : Lays text (exportedContextual? g start) where
  after := by
    unfold Reading.exportedContextual?
    refine .step fun t => ?_
    split
    · exact .tail
    · exact .pure (by simp)

instance exportFrom (start : Nat) : Lays text (exportFrom g start) where
  after := by
    have hnames : ∀ acc, After text acc (is .star >>= fun star =>
        if star then Reading.exportStar g start else Reading.exportNames g start) :=
      fun _ => .step fun _ => .ite .tail .tail
    unfold Reading.exportFrom
    refine .step fun inner => .take fun d _ => ?_
    split
    · exact .pure (by simp)
    refine .step fun _ => .ite ?_ (.step fun _ => .ite ?_ (.step fun _ => .ite ?_ ?_))
    · refine .step fun _ => .step fun _ => .stepIf (.step fun _ => ?_)
      exact .take fun _ _ => .pure (by simp)
    · exact .take fun _ _ => .step fun _ => .pure (by simp)
    · exact .step fun _ => .step fun _ => .step fun _ => .pure (by simp)
    · refine .step fun _ => .ite (hnames _) (.step fun _ => .ite ?_ (.take fun d _ => ?_))
      · exact .take fun _ _ => .pure (by simp)
      · split
        · exact .pure (by simp)
        · exact hnames _

end Lays

/-- **An export.** The modifier `declare` may come after the word. -/
theorem AfterAt.exportItem : AfterAt text (.word "export") [] (exportItem g) := by
  intro mode s lo hs htoken hlo
  obtain ⟨hs', hreaches⟩ := hs.advanced mode.inType
  have hfrom : ∀ t : Place, t.Valid text → s.Reaches t → Ends text t
      (fun item u => Fits text lo (spans text item) u.front ∧ Sound text item)
      (Reading.exportFrom g s.front mode t) := fun t ht hst =>
    (Lays.exportFrom g s.front).after mode t lo ht (Nat.le_trans hlo hst.front_le)
  have hexport := expectToken_run (.word "export") mode s
  have heat := eatToken_run (.word "declare") mode (s.advanced mode.inType)
  rw [if_pos htoken] at hexport
  unfold Reading.exportItem
  refine .ran (start_run mode s) (.refl s) ?_
  refine .ran hexport hreaches ?_
  refine .ran (start_run mode (s.advanced mode.inType)) (.refl _) ?_
  by_cases hdeclare : (s.advanced mode.inType).current.token = .word "declare"
  · obtain ⟨hs'', hreaches'⟩ := hs'.advanced mode.inType
    rw [if_pos hdeclare] at heat
    refine .ran heat hreaches' ?_
    refine (Lays.ends mode hs'').bind fun d t ht hst hd => ?_
    cases d with
    | none => exact hfrom t ht (hreaches.trans (hreaches'.trans hst))
    | some d =>
      refine ⟨ht, .refl t, Fits.mono_left ?_ hlo, trivial⟩
      have htree : Fits text ((s.advanced mode.inType).advanced mode.inType).front
          (spans text d.2) t.front := by simpa using hd.1
      cases hspan : declareSpan? text
        (exportedItem s.front (s.advanced mode.inType).front true d) with
      | none =>
        have := htree.mono_left (hreaches.trans hreaches').front_le
        simpa [hspan] using this
      | some span =>
        have hfits := fits_declareSpan?_exported hs htoken mode.inType hdeclare d hspan
        have := hfits.append htree
        simpa [hspan] using this
  · rw [if_neg hdeclare] at heat
    exact .ran heat (.refl _) (hfrom _ hs' hreaches)

/-- **An item** of a file or of a module block. -/
instance Lays.item : Lays text (Reading.item g) where
  after := .step fun _ => .ite .tail (.isToken (.exportItem g) fun _ ht => .statementItem g ht)

/-! ### Levels -/

/-- **A grammar with any number of levels lays out references.** -/
theorem Grammar.level_laying (text : List Char) (n : Nat) : (Grammar.level n).Laying text := by
  induction n with
  | zero =>
    constructor <;> exact ⟨.fault⟩
  | succ n ih =>
    exact
      { type := Lays.fullType (.level n)
        plainType := Lays.plainType (.level n)
        assignment := Lays.assignmentExpression (.level n)
        operation := Lays.operationExpression (.level n)
        unary := Lays.unaryExpression (.level n)
        callee := Lays.memberExpression (.level n) true
        pattern := Lays.bindingPattern (.level n)
        object := Lays.objectLiteral (.level n)
        classExpression := Lays.namedClass (.level n) false
        statement := Lays.nestedStatement (.level n)
        item := Lays.item (.level n) }

/-! ### Whole texts -/

theorem skipShebang_at (text : List Char) : (skipShebang text).At text := by
  unfold skipShebang
  split
  · next cs =>
    have hline := List.prefix_iff_eq_append.1 (List.takeWhile_prefix (fun c => !endsLine c) (l := cs))
    refine ⟨'#' :: '!' :: cs.takeWhile fun c => !endsLine c, ?_, ?_⟩
    · exact congrArg (fun rest => '#' :: '!' :: rest) hline.symm
    · rw [Text.byteLength, Text.byteLength, ← Nat.add_assoc]
      rfl
  · exact ⟨[], rfl, rfl⟩

instance Lays.items : Lays text (Reading.items g) := collect

/-- **The references and modifiers of a text** stand one after the other in it, in the order in which
the items have been read. -/
theorem fits_readItems {items : List Item} (h : readItems text = .ok items) :
    Fits text 0 (spans text items) (Text.byteLength text) := by
  -- the layout holds at every level, so it does not matter how many the text is given
  have hplace := Place.Valid.ofLexeme false true none (skipShebang_at text)
    (Text.isBoundary_zero text) (Nat.zero_le _)
  have hlevel := Grammar.level_laying text (text.length + 1)
  have hends := (Lays.items (.level (text.length + 1))).after .initial _ 0 hplace (Nat.zero_le _)
  unfold readItems at h
  dsimp only at h
  split at h
  · next items' t hrun =>
    obtain rfl := Except.ok.inj h
    rw [hrun] at hends
    obtain ⟨ht, -, hfits, -⟩ := hends
    obtain ⟨before, after, htext, hlength⟩ := ht.front_boundary
    refine hfits.mono ?_
    rw [← hlength, htext, Text.byteLength_append]
    exact Nat.le_add_right _ _
  · cases h

end AmbientBundle.Source
