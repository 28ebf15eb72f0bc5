import TreeLowering.Compile
import TreeLowering.Proofs.Emit.Congruence
import TreeLowering.Proofs.Emit.Written
import TreeLowering.Proofs.Target.Bracket

/-! # Emitted modules are well bracketed

Most emissions leave the open brackets as they find them. What a single print opens, another print of
the same shape closes. -/
namespace TreeLowering
set_option autoImplicit false

open Target

/-! ## The texts that are emitted as they are -/

mutual
def Expr.spellings : Expr → List String
  | .identifier name _ _ => [name]
  | .binary _ left right _ => left.spellings ++ right.spellings
  | .unary _ operand _ => operand.spellings
  | .number .. | .string .. => []
  | .index base indexes _ => base.spellings ++ exprsSpellings indexes
  | .call callee args _ _ _ => callee.spellings ++ exprsSpellings args
  | .closure fn _ => fn.spellings
  | .rawCall code args _ => code :: exprsSpellings args
  | .raw code _ => [code]

def exprsSpellings : List Expr → List String
  | [] => []
  | e :: rest => e.spellings ++ exprsSpellings rest

def Function.spellings : Function → List String
  | .mk params body _ => params ++ body.spellings

def functionSpellings? : Option Function → List String
  | none => []
  | some fn => fn.spellings

/-- The subject of a loop over instances is not emitted. -/
def Stmt.spellings : Stmt → List String
  | .declare declarators _ => declaratorsSpellings declarators
  | .assign left right _ => left.spellings ++ right.spellings
  | .define name fn _ => name :: fn.spellings
  | .constant name value _ => name :: value.spellings
  | .switch subject clauses _ => subject.spellings ++ clausesSpellings clauses
  | .loop init condition step body _ =>
    init.spellings ++ (condition.spellings ++ (step.spellings ++ body.spellings))
  | .when condition body _ => condition.spellings ++ body.spellings
  | .branch condition yes no _ => condition.spellings ++ (yes.spellings ++ no.spellings)
  | .repeatWhile condition body _ => condition.spellings ++ body.spellings
  | .repeatUntil body condition _ => body.spellings ++ condition.spellings
  | .breakLoop _ | .continueLoop _ | .exit _ | .nop _ => []
  | .block body _ => stmtsSpellings body
  | .withEach _ body _ _ _ _ => body.spellings
  | .returnValue value _ => value.spellings
  | .object name parent init create destroy methods _ =>
    name :: parent :: (init.spellings ++
      (functionSpellings? create ++ (functionSpellings? destroy ++ methodsSpellings methods)))
  | .call callee args _ _ _ => callee.spellings ++ exprsSpellings args
  | .rawCall code args _ => code :: exprsSpellings args

def stmtsSpellings : List Stmt → List String
  | [] => []
  | s :: rest => s.spellings ++ stmtsSpellings rest

def Declarator.spellings : Declarator → List String
  | .mk name none _ => [name]
  | .mk name (some value) _ => name :: value.spellings

def declaratorsSpellings : List Declarator → List String
  | [] => []
  | d :: rest => d.spellings ++ declaratorsSpellings rest

def Clause.spellings : Clause → List String
  | .case value body => value.spellings ++ body.spellings
  | .default body => body.spellings

def clausesSpellings : List Clause → List String
  | [] => []
  | c :: rest => c.spellings ++ clausesSpellings rest

def methodsSpellings : List Method → List String
  | [] => []
  | .mk name fn :: rest => name :: (fn.spellings ++ methodsSpellings rest)
end

/-- The identifiers of a contract; the names of its modules are emitted as literals. -/
def Contract.identifiers (r : Contract) : List String :=
  [r.globalsIdentifier, r.runtimeIdentifier, r.createObject, r.inherit, r.initPropertiesMethod,
    r.createMethod, r.destroyMethod]

def Options.spellings (o : Options) : List String :=
  o.indent :: (o.runtime.identifiers ++ o.extraGlobals)

def Document.spellings (d : Document) : List String :=
  d.scopes.flatMap ScopeDecl.spellings ++ stmtsSpellings d.program.body

/-! ## Emissions and open brackets -/

namespace Emit

/-- The text of the emission leads from the first brackets to the second ones. -/
abbrev Nests (a b : List Bracket) (m : Emit Unit) : Prop := Writes Neutral (Moves a b) m

/-- The emission closes all brackets that it opens and no others. -/
def Balanced (m : Emit Unit) : Prop := ∀ a, Nests a a m

variable {a b c : List Bracket} {m n : Emit Unit}

theorem nests_print {s : String} (h : Moves a b s) : Nests a b (print s) := .print h

theorem Nests.seq (hm : Nests a b m) (hn : Nests b c n) : Nests a c (m >>= fun _ => n) :=
  Writes.seq hm hn fun _ _ => Moves.append

theorem balanced_pure : Balanced (pure ()) := fun _ => .pure rfl

theorem balanced_print {s : String} (h : Spelled Neutral s) : Balanced (print s) :=
  fun _ => nests_print (.of_neutral h)

theorem balanced_printIndent : Balanced printIndent := fun _ => .printIndent fun _ => Moves.of_neutral

theorem balanced_indent : Balanced indent := fun _ => .indent rfl

theorem balanced_outdent : Balanced outdent := fun _ => .outdent rfl

theorem balanced_indentUnless (omitted : Bool) : Balanced (indentUnless omitted) :=
  fun _ => .indentUnless (fun _ => Moves.of_neutral) omitted

/-! ## Shapes -/

theorem Balanced.seq (hm : Balanced m) (hn : Balanced n) : Balanced (m >>= fun _ => n) :=
  fun a => (hm a).seq (hn a)

theorem Balanced.query {α : Type} {r : Result α} {f : α → Emit Unit}
    (h : ∀ x, r = .ok x → Balanced (f x)) : Balanced (Emit.query r >>= f) :=
  fun a => .query fun x hx => h x hx a

theorem Balanced.braced (hm : Balanced m) (omitIndentation : Bool) (a : List Bracket) :
    Nests (.curly :: a) a (Emit.braced m omitIndentation) := by
  refine (balanced_indent _).seq ((hm _).seq ((balanced_outdent _).seq ?_))
  exact (balanced_indentUnless _ _).seq (nests_print rfl)

theorem moves_opening (a : List Bracket) : Moves a (.round :: a) "(" := rfl

theorem moves_closing (a : List Bracket) : Moves (.round :: a) a ")" := rfl

/-- Behind the header of a block. -/
theorem moves_header (a : List Bracket) : Moves (.round :: a) (.curly :: a) ") \x7b\n" := rfl

theorem Balanced.parens (hm : Balanced m) : Balanced (Emit.parens m) := fun a =>
  (nests_print (moves_opening a)).seq ((hm _).seq (nests_print (moves_closing a)))

/-- The texts around two operands close the brackets that they open. -/
theorem frame_moves (op : BinaryOp) (a : List Bracket) : ∃ b c, Moves a b op.frame.1 ∧
    Moves b c op.frame.2.1 ∧ Moves c a op.frame.2.2 := by
  cases op <;> exact ⟨_, _, rfl, rfl, rfl⟩

theorem Balanced.binary (op : BinaryOp) (hm : Balanced m) (hn : Balanced n) :
    Balanced (Emit.binary op m n) := by
  intro a
  obtain ⟨b, c, hFirst, hMiddle, hLast⟩ := frame_moves op a
  exact (nests_print hFirst).seq ((hm b).seq ((nests_print hMiddle).seq ((hn c).seq (nests_print hLast))))

theorem Balanced.unary (op : UnaryOp) (hm : Balanced m) : Balanced (Emit.unary op m) := by
  have hSymbol : ∀ a, Moves a a op.symbol := by
    intro a
    cases op <;> rfl
  intro a
  exact (nests_print (moves_opening a)).seq ((nests_print (hSymbol _)).seq
    ((hm _).seq (nests_print (moves_closing a))))

theorem Balanced.rawCall {code : String} (hCode : Spelled Neutral code) (hm : Balanced m) :
    Balanced (Emit.rawCall code m) := by
  intro a
  have hBetween : Moves (.round :: a) (.round :: a) ")(" := rfl
  exact (nests_print (moves_opening a)).seq ((balanced_print hCode _).seq
    ((nests_print hBetween).seq ((hm _).seq (nests_print (moves_closing a)))))

theorem Balanced.statement (form : Form) (hm : Balanced m) : Balanced (Emit.statement form m) := by
  have hEnd : Balanced (if form.omitTerminator then pure () else print ";\n") := by
    split
    · exact balanced_pure
    · exact fun a => nests_print rfl
  exact (balanced_indentUnless _).seq (hm.seq hEnd)

theorem Balanced.guarded (form : Form) {keyword : String} (hKeyword : Spelled Neutral keyword)
    {condition lines : Emit Unit} (hCondition : Balanced condition) (hLines : Balanced lines) :
    Balanced (Emit.guarded form keyword condition lines) := fun a =>
  (nests_print ((Moves.of_neutral hKeyword).append (moves_opening a))).seq
    ((hCondition _).seq ((nests_print (moves_header a)).seq (hLines.braced _ a)))

theorem Balanced.branch (form : Form) {condition yes no : Emit Unit} (hCondition : Balanced condition)
    (hYes : Balanced yes) (hNo : Balanced no) : Balanced (Emit.branch form condition yes no) := by
  intro a
  have hIf : Spelled Neutral "if" := neutral_nameClass.spelled (by simp)
  have hElse : Moves a (.curly :: a) " else \x7b\n" := rfl
  exact (hCondition.guarded form hIf hYes a).seq ((nests_print hElse).seq (hNo.braced _ a))

theorem Balanced.loop (form : Form) {init condition step lines : Emit Unit} (hInit : Balanced init)
    (hCondition : Balanced condition) (hStep : Balanced step) (hLines : Balanced lines) :
    Balanced (Emit.loop form init condition step lines) := by
  intro a
  have hFor : Moves a (.round :: a) "for(" := rfl
  have hNext : Moves (.round :: a) (.round :: a) "; " := rfl
  exact (nests_print hFor).seq ((hInit _).seq ((nests_print hNext).seq ((hCondition _).seq
    ((nests_print hNext).seq ((hStep _).seq ((nests_print (moves_header a)).seq (hLines.braced _ a)))))))

theorem Balanced.repeatUntil (form : Form) {lines condition : Emit Unit} (hLines : Balanced lines)
    (hCondition : Balanced condition) : Balanced (Emit.repeatUntil form lines condition) := by
  intro a
  have hDo : Moves a (.curly :: a) "do \x7b\n" := rfl
  have hWhile : Moves a (.round :: .round :: a) " while(!(" := rfl
  have hEnd : Moves (.round :: .round :: a) a "))" := rfl
  exact (nests_print hDo).seq ((hLines.braced _ a).seq
    ((nests_print hWhile).seq ((hCondition _).seq (nests_print hEnd))))

theorem Balanced.clause {label lines : Emit Unit} (hLabel : Balanced label) (hLines : Balanced lines) :
    Balanced (Emit.clause label lines) := by
  have hColon : Balanced (print ":\n") := fun a => nests_print rfl
  exact balanced_printIndent.seq (hLabel.seq (hColon.seq (balanced_indent.seq (hLines.seq balanced_outdent))))

theorem Balanced.member (form : Form) {object name : String} (hObject : Spelled Neutral object)
    (hName : Spelled Neutral name) (hm : Balanced m) : Balanced (Emit.member form object name m) := by
  have hHead : ∀ a, Moves a a (object ++ ".prototype." ++ name ++ " = ") := fun a =>
    .append (.append (.append (.of_neutral hObject) rfl) (.of_neutral hName)) rfl
  have hEnd : Balanced (print ";\n") := fun a => nests_print rfl
  exact (balanced_indentUnless _).seq (.seq (fun a => nests_print (hHead a)) (hm.seq hEnd))

end Emit

/-- What lowering reads from the setting keeps to a class of characters. -/
structure Setting.SpelledIn (q : Char → Prop) (g : Setting) : Prop where
  tree : g.tree.SpelledIn q
  runtime : ∀ s ∈ g.runtime.identifiers, Spelled q s

namespace Setting.SpelledIn

variable {q : Char → Prop} {g : Setting}

theorem mono {r : Char → Prop} (h : g.SpelledIn q) (hqr : ∀ c, q c → r c) : g.SpelledIn r where
  tree b v hv := by
    obtain ⟨hTarget, hContainer⟩ := h.tree b v hv
    exact ⟨fun name hName => (hTarget name hName).mono hqr, fun name hName => (hContainer name hName).mono hqr⟩
  runtime s hs := (h.runtime s hs).mono hqr

variable (hg : g.SpelledIn q) (hq : NameClass q) {name : String} (hName : Spelled q name)

include hg hq hName

theorem qualified {handle : String} (hHandle : handle ∈ g.runtime.identifiers) : Spelled q (handle ++ "." ++ name) :=
  ((hg.runtime handle hHandle).append (hq.spelled (by simp))).append hName

theorem global : Spelled q (g.runtime.globalsIdentifier ++ "." ++ name) :=
  hg.qualified hq hName (by simp [Contract.identifiers])

theorem helper : Spelled q (g.runtime.runtimeIdentifier ++ "." ++ name) :=
  hg.qualified hq hName (by simp [Contract.identifiers])

end Setting.SpelledIn

namespace Emit

variable {g : Setting} (hg : g.SpelledIn Neutral)

include hg

theorem balanced_localAllocation (scope : Nat) : Balanced (g.localAllocation scope) := by
  refine .query fun names hNames => ?_
  split
  · exact balanced_pure
  · have hJoined : Spelled Neutral (Text.join ", " names) :=
      .join (by simp [Spelled, Neutral]) (Setting.spelled_localNames hg.tree hNames)
    refine balanced_printIndent.seq fun a => nests_print ?_
    exact .append (.append rfl (.of_neutral hJoined)) rfl

theorem Balanced.functionBody {params : List String} (hParams : ∀ name ∈ params, Spelled Neutral name)
    (scope : Nat) {lines : Emit Unit} (hLines : Balanced lines) :
    Balanced (Emit.functionBody g params scope lines) := by
  intro a
  refine (nests_print (moves_opening a)).seq (.query fun names hNames => ?_)
  have hJoined : Spelled Neutral (Text.join ", " names) :=
    .join (by simp [Spelled, Neutral]) (Setting.spelled_parameterNames hg.tree neutral_nameClass hParams hNames)
  exact (balanced_print hJoined _).seq ((nests_print (moves_header a)).seq
    (((balanced_localAllocation hg scope).seq hLines).braced _ a))

theorem Balanced.call (isMethod : Bool) (scope : Nat) (loc : Option Location) {callee args : Emit Unit}
    (hCallee : Balanced callee) (hArgs : Balanced args) :
    Balanced (Emit.call g callee args isMethod scope loc) := by
  have hText : ∀ {b text}, g.tree.bindingText b = .ok text → Balanced (print text) := fun h =>
    balanced_print (hg.tree.bindingText neutral_nameClass h)
  intro a
  have hEnd : Nests (.round :: a) a (do args; print ")") := (hArgs _).seq (nests_print (moves_closing a))
  refine (hCallee.parens a).seq (.query fun other _ => ?_)
  cases isMethod with
  | true =>
    exact (nests_print (moves_opening a)).seq (.query fun text hOther => (hText hOther _).seq hEnd)
  | false =>
    have hCall : Moves a (.round :: a) ".call(" := rfl
    have hNext : Moves (.round :: a) (.round :: a) ", " := rfl
    refine .query fun this _ => (nests_print hCall).seq (.query fun text hThis => ?_)
    refine (hText hThis _).seq ((nests_print hNext).seq (.query fun text hOther => ?_))
    exact (hText hOther _).seq hEnd

omit hg in
/-- The start of a pass over the instances, which sets the inner `self`. -/
theorem Balanced.pass (omitIndentation : Bool) {this objects i : String} (hSelf : Spelled Neutral this)
    (hAll : Spelled Neutral objects) (hIndex : Spelled Neutral i) {lines : Emit Unit} (hLines : Balanced lines) :
    Balanced (do
      indentUnless omitIndentation
      print (this ++ " = " ++ objects ++ "[" ++ i ++ "];\n")
      lines) := by
  refine (balanced_indentUnless _).seq (.seq (fun a => nests_print ?_) hLines)
  exact .append (.append (.append (.append (.append (.of_neutral hSelf) rfl) (.of_neutral hAll)) rfl)
    (.of_neutral hIndex)) rfl

theorem Balanced.withEach (form : Form) (scope : Nat) (index all : Reference) (loc : Option Location)
    {lines : Emit Unit} (hLines : Balanced lines) :
    Balanced (Emit.withEach g form scope index all loc lines) := by
  refine .query fun i hi => .query fun objects hObjects => .query fun this hThis => ?_
  have hIndex := Setting.spelled_referenceText hg.tree neutral_nameClass hi
  have hAll := Setting.spelled_referenceText hg.tree neutral_nameClass hObjects
  have hSelf := Setting.spelled_innerSelf hg.tree neutral_nameClass hThis
  refine .statement form fun a => ?_
  have hHeader : Moves a (.curly :: a) ("for(" ++ i ++ " = 0; " ++ i ++ " < " ++ objects ++ ".length; "
      ++ i ++ "++) \x7b\n") :=
    .append (.append (.append (.append (.append (.append (.append (.append rfl (.of_neutral hIndex)) rfl)
      (.of_neutral hIndex)) rfl) (.of_neutral hAll)) rfl) (.of_neutral hIndex)) rfl
  exact (nests_print hHeader).seq ((hLines.pass _ hSelf hAll hIndex).braced _ a)

/-- The body of a registration: the constructor, its parent and the members. -/
theorem Balanced.registration (omitIndentation : Bool) {self super : String} (hSelf : Spelled Neutral self)
    (hSuper : Spelled Neutral super) {members : Emit Unit} (hMembers : Balanced members) :
    Balanced (do
      indentUnless omitIndentation
      print (self ++ " = function() \x7b " ++ super ++ ".apply(this, arguments); \x7d;\n")
      indentUnless omitIndentation
      print (g.runtime.runtimeIdentifier ++ "." ++ g.runtime.inherit ++ "(" ++ self ++ ", " ++ super ++ ");\n")
      members) := by
  have hInherit : Spelled Neutral (g.runtime.runtimeIdentifier ++ "." ++ g.runtime.inherit) :=
    hg.helper neutral_nameClass (hg.runtime _ (by simp [Contract.identifiers]))
  refine (balanced_indentUnless _).seq (.seq (fun a => nests_print ?_) ((balanced_indentUnless _).seq
    (.seq (fun a => nests_print ?_) hMembers)))
  · exact .append (.append (.append (.of_neutral hSelf) rfl) (.of_neutral hSuper)) rfl
  · exact .append (.append (.append (.append (.append (.of_neutral hInherit) rfl) (.of_neutral hSelf)) rfl)
      (.of_neutral hSuper)) rfl

theorem Balanced.members (form : Form) {self : String} (hSelf : Spelled Neutral self)
    {init methods : Emit Unit} {create destroy : String → Emit Unit} (hInit : Balanced init)
    (hCreate : ∀ name, Spelled Neutral name → Balanced (create name))
    (hDestroy : ∀ name, Spelled Neutral name → Balanced (destroy name)) (hMethods : Balanced methods) :
    Balanced (do
      Emit.member form self g.runtime.initPropertiesMethod init
      create g.runtime.createMethod
      destroy g.runtime.destroyMethod
      methods) := by
  have hRuntime := hg.runtime
  simp only [Contract.identifiers, List.forall_mem_cons] at hRuntime
  obtain ⟨_, _, _, _, hInitName, hCreateName, hDestroyName, _⟩ := hRuntime
  exact (hInit.member form hSelf hInitName).seq
    ((hCreate _ hCreateName).seq ((hDestroy _ hDestroyName).seq hMethods))

theorem Balanced.object (form : Form) {name parent : String} (hName : Spelled Neutral name)
    (hParent : Spelled Neutral parent) {members : String → Emit Unit}
    (hMembers : ∀ self, Spelled Neutral self → Balanced (members self)) :
    Balanced (Emit.object g form name parent members) := by
  have hCreate : Spelled Neutral (g.runtime.runtimeIdentifier ++ "." ++ g.runtime.createObject) :=
    hg.helper neutral_nameClass (hg.runtime _ (by simp [Contract.identifiers]))
  intro a
  have hHeader : Moves a (.curly :: .round :: a) (g.runtime.runtimeIdentifier ++ "." ++ g.runtime.createObject ++
      "(" ++ Quoted.quote name ++ ", " ++ Quoted.quote parent ++ ", function() \x7b\n") :=
    .append (.append (.append (.append (.append (.of_neutral hCreate) rfl) (.quote _ name)) rfl)
      (.quote _ parent)) rfl
  have hBody := Balanced.registration hg form.omitIndentation (hg.global neutral_nameClass hName)
    (hg.global neutral_nameClass hParent) (hMembers _ (hg.global neutral_nameClass hName))
  exact (nests_print hHeader).seq ((hBody.braced _ _).seq (nests_print (moves_closing a)))

end Emit

/-! ## Every node -/

section

open Emit

variable {g : Setting}

mutual
theorem Expr.lower_balanced (hg : g.SpelledIn Neutral) (e : Expr) (h : ∀ s ∈ e.spellings, Spelled Neutral s) :
    Balanced (e.lower g) := by
  match e with
  | .identifier name ref _ =>
    refine .query fun text hText => balanced_print ?_
    exact Setting.spelled_identifierText hg.tree neutral_nameClass (h name List.mem_cons_self) hText
  | .binary op left right _ =>
    rw [Expr.spellings, List.forall_mem_append] at h
    exact (left.lower_balanced hg h.1).binary op (right.lower_balanced hg h.2)
  | .unary op operand _ => exact (operand.lower_balanced hg h).unary op
  | .number value _ => exact (balanced_print (neutral_literal value)).parens
  | .string value _ => exact fun a => nests_print (.quote a value)
  | .index base indexes _ =>
    rw [Expr.spellings, List.forall_mem_append] at h
    exact (base.lower_balanced hg h.1).parens.seq (lowerIndexes_balanced hg indexes h.2)
  | .call callee args isMethod scope loc =>
    rw [Expr.spellings, List.forall_mem_append] at h
    exact .call hg isMethod scope loc (callee.lower_balanced hg h.1) (lowerFurther_balanced hg args h.2)
  | .closure fn _ => exact fn.lower_balanced hg h
  | .rawCall code args _ =>
    rw [Expr.spellings, List.forall_mem_cons] at h
    exact (lowerArgs_balanced hg args h.2).rawCall h.1
  | .raw code _ => exact balanced_print (h code List.mem_cons_self)

theorem lowerIndexes_balanced (hg : g.SpelledIn Neutral) (es : List Expr)
    (h : ∀ s ∈ exprsSpellings es, Spelled Neutral s) : Balanced (lowerIndexes g es) := by
  match es with
  | [] => exact balanced_pure
  | e :: rest =>
    rw [exprsSpellings, List.forall_mem_append] at h
    intro a
    have hOpen : Moves a (.square :: a) "[" := rfl
    have hClose : Moves (.square :: a) a "]" := rfl
    exact (nests_print hOpen).seq ((e.lower_balanced hg h.1 _).seq
      ((nests_print hClose).seq (lowerIndexes_balanced hg rest h.2 a)))

theorem lowerFurther_balanced (hg : g.SpelledIn Neutral) (es : List Expr)
    (h : ∀ s ∈ exprsSpellings es, Spelled Neutral s) : Balanced (lowerFurther g es) := by
  match es with
  | [] => exact balanced_pure
  | e :: rest =>
    rw [exprsSpellings, List.forall_mem_append] at h
    have hComma : Balanced (print ", ") := fun a => nests_print rfl
    exact hComma.seq ((e.lower_balanced hg h.1).seq (lowerFurther_balanced hg rest h.2))

theorem lowerArgs_balanced (hg : g.SpelledIn Neutral) (es : List Expr)
    (h : ∀ s ∈ exprsSpellings es, Spelled Neutral s) : Balanced (lowerArgs g es) := by
  match es with
  | [] => exact balanced_pure
  | e :: rest =>
    rw [exprsSpellings, List.forall_mem_append] at h
    exact (e.lower_balanced hg h.1).seq (lowerFurther_balanced hg rest h.2)

theorem Function.lowerBody_balanced (hg : g.SpelledIn Neutral) (fn : Function)
    (h : ∀ s ∈ fn.spellings, Spelled Neutral s) : Balanced (fn.lowerBody g) := by
  match fn with
  | .mk params body scope =>
    rw [Function.spellings, List.forall_mem_append] at h
    exact .functionBody hg h.1 scope (body.lower_balanced hg .full h.2)

theorem Function.lower_balanced (hg : g.SpelledIn Neutral) (fn : Function)
    (h : ∀ s ∈ fn.spellings, Spelled Neutral s) : Balanced (fn.lower g) := by
  match fn with
  | .mk params body scope =>
    rw [Function.spellings, List.forall_mem_append] at h
    have hKeyword : Balanced (print "function") := fun a => nests_print rfl
    exact hKeyword.seq (.functionBody hg h.1 scope (body.lower_balanced hg .full h.2))

theorem Stmt.lower_balanced (hg : g.SpelledIn Neutral) (form : Form) (s : Stmt)
    (h : ∀ text ∈ s.spellings, Spelled Neutral text) : Balanced (s.lower g form) := by
  match s with
  | .declare declarators _ =>
    have hVar : Balanced (print "var ") := fun a => nests_print rfl
    exact .statement form (hVar.seq (lowerDeclarators_balanced hg declarators h))
  | .assign left right _ =>
    rw [Stmt.spellings, List.forall_mem_append] at h
    have hEquals : Balanced (print " = ") := fun a => nests_print rfl
    exact .statement form ((left.lower_balanced hg h.1).seq (hEquals.seq (right.lower_balanced hg h.2)))
  | .define name fn _ =>
    rw [Stmt.spellings, List.forall_mem_cons] at h
    refine .statement form (.seq (fun a => nests_print ?_) (fn.lowerBody_balanced hg h.2))
    exact .append (.of_neutral (hg.global neutral_nameClass h.1)) rfl
  | .constant name value _ =>
    rw [Stmt.spellings, List.forall_mem_cons] at h
    refine .statement form (.seq (fun a => nests_print ?_) (value.lower_balanced hg h.2))
    exact .append (.of_neutral (hg.global neutral_nameClass h.1)) rfl
  | .switch subject clauses _ =>
    rw [Stmt.spellings, List.forall_mem_append] at h
    exact .statement form ((subject.lower_balanced hg h.1).guarded form (neutral_nameClass.spelled (by simp))
      (lowerClauses_balanced hg clauses h.2))
  | .loop init condition step body _ =>
    simp only [Stmt.spellings, List.forall_mem_append] at h
    obtain ⟨hInit, hCondition, hStep, hBody⟩ := h
    exact .statement form (.loop form (init.lower_balanced hg .inline hInit) (condition.lower_balanced hg hCondition)
      (step.lower_balanced hg .inline hStep) (body.lower_balanced hg .full hBody))
  | .when condition body _ =>
    rw [Stmt.spellings, List.forall_mem_append] at h
    exact .statement form (.branch form (condition.lower_balanced hg h.1) (body.lower_balanced hg .full h.2)
      balanced_pure)
  | .branch condition yes no _ =>
    simp only [Stmt.spellings, List.forall_mem_append] at h
    obtain ⟨hCondition, hYes, hNo⟩ := h
    exact .statement form (.branch form (condition.lower_balanced hg hCondition) (yes.lower_balanced hg .full hYes)
      (no.lower_balanced hg .full hNo))
  | .repeatWhile condition body _ =>
    rw [Stmt.spellings, List.forall_mem_append] at h
    exact .statement form ((condition.lower_balanced hg h.1).guarded form (neutral_nameClass.spelled (by simp))
      (body.lower_balanced hg .full h.2))
  | .repeatUntil body condition _ =>
    rw [Stmt.spellings, List.forall_mem_append] at h
    exact .statement form (.repeatUntil form (body.lower_balanced hg .full h.1) (condition.lower_balanced hg h.2))
  | .breakLoop _ | .continueLoop _ | .exit _ => exact .statement form fun a => nests_print rfl
  | .block body _ => exact lowerStmts_balanced hg body h
  | .withEach subject body scope index all loc =>
    exact .withEach hg form scope index all loc (body.lower_balanced hg .full h)
  | .returnValue value _ =>
    have hReturn : Balanced (print "return ") := fun a => nests_print rfl
    exact .statement form (hReturn.seq (value.lower_balanced hg h).parens)
  | .object name parent init create destroy methods _ =>
    simp only [Stmt.spellings, List.forall_mem_cons, List.forall_mem_append] at h
    obtain ⟨hName, hParent, hInit, hCreate, hDestroy, hMethods⟩ := h
    refine .statement form (.object hg form hName hParent fun self hSelf => ?_)
    exact .members hg form hSelf (init.lower_balanced hg hInit)
      (fun _ hHook => lowerHook_balanced hg form hSelf hHook create hCreate)
      (fun _ hHook => lowerHook_balanced hg form hSelf hHook destroy hDestroy)
      (lowerMethods_balanced hg form hSelf methods hMethods)
  | .nop _ => exact balanced_pure
  | .call callee args isMethod scope loc =>
    rw [Stmt.spellings, List.forall_mem_append] at h
    exact .statement form
      (.call hg isMethod scope loc (callee.lower_balanced hg h.1) (lowerFurther_balanced hg args h.2))
  | .rawCall code args _ =>
    rw [Stmt.spellings, List.forall_mem_cons] at h
    exact .statement form ((lowerArgs_balanced hg args h.2).rawCall h.1)

theorem lowerStmts_balanced (hg : g.SpelledIn Neutral) (ss : List Stmt)
    (h : ∀ text ∈ stmtsSpellings ss, Spelled Neutral text) : Balanced (lowerStmts g ss) := by
  match ss with
  | [] => exact balanced_pure
  | s :: rest =>
    rw [stmtsSpellings, List.forall_mem_append] at h
    exact (s.lower_balanced hg .full h.1).seq (lowerStmts_balanced hg rest h.2)

theorem Declarator.lower_balanced (hg : g.SpelledIn Neutral) (d : Declarator)
    (h : ∀ s ∈ d.spellings, Spelled Neutral s) : Balanced (d.lower g) := by
  match d with
  | .mk name none ref =>
    exact .query fun text hText =>
      balanced_print (Setting.spelled_declaredName hg.tree (h name List.mem_cons_self) hText)
  | .mk name (some value) ref =>
    rw [Declarator.spellings, List.forall_mem_cons] at h
    have hEquals : Balanced (print " = ") := fun a => nests_print rfl
    refine .query fun text hText => ?_
    exact (balanced_print (Setting.spelled_declaredName hg.tree h.1 hText)).seq
      (hEquals.seq (value.lower_balanced hg h.2))

theorem lowerDeclarators_balanced (hg : g.SpelledIn Neutral) (ds : List Declarator)
    (h : ∀ s ∈ declaratorsSpellings ds, Spelled Neutral s) : Balanced (lowerDeclarators g ds) := by
  match ds with
  | [] => exact balanced_pure
  | [d] =>
    rw [declaratorsSpellings, List.forall_mem_append] at h
    exact d.lower_balanced hg h.1
  | d :: e :: rest =>
    rw [declaratorsSpellings, List.forall_mem_append] at h
    have hComma : Balanced (print ", ") := fun a => nests_print rfl
    exact (d.lower_balanced hg h.1).seq (hComma.seq (lowerDeclarators_balanced hg (e :: rest) h.2))

theorem Clause.lower_balanced (hg : g.SpelledIn Neutral) (c : Clause) (h : ∀ s ∈ c.spellings, Spelled Neutral s) :
    Balanced (c.lower g) := by
  match c with
  | .case value body =>
    rw [Clause.spellings, List.forall_mem_append] at h
    have hCase : Balanced (print "case ") := fun a => nests_print rfl
    exact .clause (hCase.seq (value.lower_balanced hg h.1).parens) (body.lower_balanced hg .full h.2)
  | .default body => exact .clause (fun a => nests_print rfl) (body.lower_balanced hg .full h)

theorem lowerClauses_balanced (hg : g.SpelledIn Neutral) (cs : List Clause)
    (h : ∀ s ∈ clausesSpellings cs, Spelled Neutral s) : Balanced (lowerClauses g cs) := by
  match cs with
  | [] => exact balanced_pure
  | c :: rest =>
    rw [clausesSpellings, List.forall_mem_append] at h
    exact (c.lower_balanced hg h.1).seq (lowerClauses_balanced hg rest h.2)

theorem lowerHook_balanced (hg : g.SpelledIn Neutral) (form : Form) {self name : String}
    (hSelf : Spelled Neutral self) (hName : Spelled Neutral name) (fn : Option Function)
    (h : ∀ s ∈ functionSpellings? fn, Spelled Neutral s) : Balanced (lowerHook g form self name fn) := by
  match fn with
  | none => exact balanced_pure
  | some fn => exact (fn.lower_balanced hg h).member form hSelf hName

theorem lowerMethods_balanced (hg : g.SpelledIn Neutral) (form : Form) {self : String}
    (hSelf : Spelled Neutral self) (ms : List Method) (h : ∀ s ∈ methodsSpellings ms, Spelled Neutral s) :
    Balanced (lowerMethods g form self ms) := by
  match ms with
  | [] => exact balanced_pure
  | .mk name fn :: rest =>
    simp only [methodsSpellings, List.forall_mem_cons, List.forall_mem_append] at h
    exact ((fn.lower_balanced hg h.2.1).member form hSelf h.1).seq (lowerMethods_balanced hg form hSelf rest h.2.2)
end

end

namespace Program

open Emit

theorem lowerModule_balanced {p : Program} {g : Setting} (hg : g.SpelledIn Neutral)
    (h : ∀ s ∈ stmtsSpellings p.body, Spelled Neutral s) : Balanced (p.lowerModule g) := by
  have hLine {s : String} (hs : ∀ a, Moves a a s) : Balanced (line s) :=
    balanced_printIndent.seq (.seq (fun a => nests_print (hs a)) fun a => nests_print rfl)
  have hStrict (a : List Bracket) : Moves a a "\"use strict\";" := rfl
  have hImport {name path : String} (hName : name ∈ g.runtime.identifiers) (a : List Bracket) :
      Moves a a ("var " ++ name ++ " = require(" ++ Quoted.quote path ++ ");") :=
    .append (.append (.append (.append rfl (.of_neutral (hg.runtime name hName))) rfl) (.quote _ path)) rfl
  intro a
  have hHead : Moves a (.curly :: .round :: a) "define(function(require) \x7b\n" := rfl
  have hEnd : Moves (.round :: a) a ");" := rfl
  refine (nests_print hHead).seq (.seq (Balanced.braced ?_ _ _) (nests_print hEnd))
  refine (hLine hStrict).seq ((hLine (hImport ?_)).seq ((hLine (hImport ?_)).seq ?_))
  · simp [Contract.identifiers]
  · simp [Contract.identifiers]
  · exact (balanced_localAllocation hg p.scope).seq (lowerStmts_balanced hg p.body h)

end Program

namespace Document

/-- The module text of a document is well bracketed if no name and no raw code in it, in its registry or
in its options has a bracket or a quote. String literals are free. -/
theorem compile_wellBracketed {d : Document} {registry : Registry} {options : Options} {text : String}
    (h : d.compile registry options = .ok text)
    (hNames : ∀ s ∈ registry.names ++ options.spellings ++ d.spellings, Spelled Neutral s) :
    WellBracketed text := by
  obtain ⟨t, hTree, hLower⟩ := exists_of_bind_eq_ok h
  simp only [Options.spellings, Document.spellings, List.forall_mem_append, List.forall_mem_cons] at hNames
  obtain ⟨⟨hRegistry, hIndent, hRuntime, hExtra⟩, hScopes, hBody⟩ := hNames
  have hSpelled : t.SpelledIn Neutral :=
    d.scopeTree_spelled neutral_nameClass hTree (List.forall_mem_append.mpr ⟨hRegistry, hExtra⟩)
      (hRuntime _ (by simp [Contract.identifiers])) hScopes
  rw [Program.lower] at hLower
  split at hLower
  · rename_i k hRun
    cases hLower
    have hModule := d.program.lowerModule_balanced (g := ⟨t, options.runtime⟩) ⟨hSpelled, hRuntime⟩ hBody
    obtain ⟨_, text, hText, hMoves⟩ := hModule [] (Sink.empty options.indent) k hIndent hRun
    rw [hText]
    exact Moves.append rfl hMoves
  · cases hLower

/-- Calls raw code with a literal whose text has a quote, a backslash and closing brackets. -/
def closingLiteral : Document where
  scopes := [⟨0, .function, [.plainLocal "x"]⟩]
  program := ⟨[.assign (.identifier "x" (some (.named 1 "x")) none)
    (.index (.rawCall "f" [.string "\"\\)]" none] none) [.number (.zero false) none] none) none], 1⟩

def closingOptions : Options where
  runtime := { globalsModule := "\x7d", runtimeModule := "r" }
  indent := " "

def closingText : String :=
  "define(function(require) \x7b\n \"use strict\";\n var $G = require(\"\x7d\");\n" ++
    " var $R = require(\"r\");\n var x;\n x = ((f)(\"\\\"\\\\)]\"))[(0)];\n\x7d);"

theorem closingLiteral_wellBracketed :
    closingLiteral.compile .empty closingOptions = .ok closingText ∧ WellBracketed closingText := by
  have hText : closingLiteral.compile .empty closingOptions = .ok closingText := by decide +kernel
  have hNames : Registry.empty.names ++ closingOptions.spellings ++ closingLiteral.spellings =
      [" ", "$G", "$R", "createAnglObject", "inherit", "$initProperties", "$create", "$destroy", "x", "x",
        "f"] := by decide +kernel
  refine ⟨hText, compile_wellBracketed hText ?_⟩
  rw [hNames]
  simp [Spelled, Neutral]

end Document
end TreeLowering
