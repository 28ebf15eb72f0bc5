import TreeLowering.Proofs.Emit.Answers
import TreeLowering.Proofs.Emit.Congruence

/-! # Properties of emissions

A property of emissions that is kept by printing, sequencing, nesting and asking holds of the lowering
of every node, whatever the answers of the setting are. -/
namespace TreeLowering
set_option autoImplicit false

namespace Emit

/-- The property is kept by the ways emissions are built, and by every answer to a look-up. -/
structure Kept (P : Emit Unit → Prop) : Prop where
  pure : P (pure ())
  print : ∀ s, P (print s)
  printIndent : P printIndent
  seq : ∀ {m n : Emit Unit}, P m → P n → P (m >>= fun _ => n)
  block : ∀ {m : Emit Unit}, P m → P (do indent; m; outdent)
  query : ∀ {α : Type} {r : Result α} {f : α → Emit Unit}, LooksUp r → (∀ a, P (f a)) → P (query r >>= f)

namespace Kept

variable {P : Emit Unit → Prop} (hP : Kept P)

include hP

theorem congruence : Congruence fun m m' => P m ∧ m' = m where
  pure := ⟨hP.pure, rfl⟩
  print s := ⟨hP.print s, rfl⟩
  printIndent := ⟨hP.printIndent, rfl⟩
  seq := by
    rintro m _ n _ ⟨hm, rfl⟩ ⟨hn, rfl⟩
    exact ⟨hP.seq hm hn, rfl⟩
  block := by
    rintro m _ ⟨hm, rfl⟩
    exact ⟨hP.block hm, rfl⟩

theorem localAllocation (g : Setting) (s : Nat) : P (g.localAllocation s) := by
  apply hP.query (g.localNames_looksUp s)
  intro names
  split
  · exact hP.pure
  · exact hP.seq hP.printIndent (hP.print _)

theorem call (g : Setting) (isMethod : Bool) (s : Nat) (loc : Option Location) {callee args : Emit Unit}
    (hCallee : P callee) (hArgs : P args) : P (Emit.call g callee args isMethod s loc) := by
  have hEnd : P (do args; Emit.print ")") := hP.seq hArgs (hP.print _)
  have hReceiver (b : Nat) {rest : Emit Unit} (hRest : P rest) :
      P (do Emit.print (← Emit.query (g.tree.bindingText b)); rest) :=
    hP.query (g.tree.bindingText_looksUp b) fun text => hP.seq (hP.print text) hRest
  apply hP.seq (hP.seq (hP.print _) (hP.seq hCallee (hP.print _)))
  apply hP.query (g.receiver_looksUp s Setting.otherName loc)
  intro other
  cases isMethod with
  | true => exact hP.seq (hP.print _) (hReceiver other hEnd)
  | false =>
    apply hP.query (g.receiver_looksUp s Setting.selfName loc)
    intro this
    exact hP.seq (hP.print _) (hReceiver this (hP.seq (hP.print _) (hReceiver other hEnd)))

theorem withEach (g : Setting) (form : Form) (s : Nat) (index all : Reference) (loc : Option Location)
    {lines : Emit Unit} (hLines : P lines) : P (Emit.withEach g form s index all loc lines) := by
  apply hP.query (g.referenceText_looksUp index)
  intro i
  apply hP.query (g.referenceText_looksUp all)
  intro objects
  apply hP.query (g.innerSelf_looksUp s loc)
  intro this
  have hR := hP.congruence
  have hEach : P (do
      Emit.indentUnless form.omitIndentation
      Emit.print (this ++ " = " ++ objects ++ "[" ++ i ++ "];\n")
      lines) :=
    hP.seq (hR.indentUnless _).1 (hP.seq (hP.print _) hLines)
  exact (hR.statement form (hR.seq (hR.print _) (hR.braced ⟨hEach, rfl⟩ _))).1

theorem printFound {r : Result String} (h : LooksUp r) : P (printFound r) := hP.query h hP.print

theorem corresponds (g : Setting) : g.Corresponds (fun m m' => P m ∧ m' = m) (fun _ => True) g where
  runtime := rfl
  identifier name ref _ _ := ⟨hP.printFound (g.identifierText_looksUp name ref), rfl⟩
  declared name ref _ _ := ⟨hP.printFound (g.declaredName_looksUp name ref), rfl⟩
  localAllocation s := ⟨hP.localAllocation g s, rfl⟩
  parameters params s := ⟨hP.printFound ((g.parameterNames_looksUp params s).map _), rfl⟩
  call := by
    rintro isMethod s loc callee _ args _ ⟨hCallee, rfl⟩ ⟨hArgs, rfl⟩
    exact ⟨hP.call g isMethod s loc hCallee hArgs, rfl⟩
  withEach := by
    rintro form s index all loc lines _ _ _ ⟨hLines, rfl⟩
    exact ⟨hP.withEach g form s index all loc hLines, rfl⟩

omit hP in
theorem refers (m : Mention) : m.Refers fun _ => True := by
  cases m <;> trivial

theorem expr (g : Setting) (e : Expr) : P (e.lower g) :=
  (e.lower_congr hP.congruence (hP.corresponds g) fun m _ => refers m).1

theorem stmt (g : Setting) (form : Form) (s : Stmt) : P (s.lower g form) :=
  (s.lower_congr hP.congruence (hP.corresponds g) form fun m _ => refers m).1

theorem stmts (g : Setting) (ss : List Stmt) : P (lowerStmts g ss) :=
  (lowerStmts_congr hP.congruence (hP.corresponds g) ss fun m _ => refers m).1

theorem further (g : Setting) (es : List Expr) : P (lowerFurther g es) :=
  (lowerFurther_congr hP.congruence (hP.corresponds g) es fun m _ => refers m).1

theorem args (g : Setting) (es : List Expr) : P (lowerArgs g es) :=
  (lowerArgs_congr hP.congruence (hP.corresponds g) es fun m _ => refers m).1

theorem clauses (g : Setting) (cs : List Clause) : P (lowerClauses g cs) :=
  (lowerClauses_congr hP.congruence (hP.corresponds g) cs fun m _ => refers m).1

/-- The members of an object's prototype. -/
theorem members (g : Setting) (form : Form) (self : String) (init : Function) (create destroy : Option Function)
    (methods : List Method) : P (do
      member form self g.runtime.initPropertiesMethod (init.lower g)
      lowerHook g form self g.runtime.createMethod create
      lowerHook g form self g.runtime.destroyMethod destroy
      lowerMethods g form self methods) := by
  have hR := hP.congruence
  have hg := hP.corresponds g
  have hInit := init.lower_congr hR hg fun m (_ : m ∈ init.mentions none) => refers m
  have hHook name fn := lowerHook_congr hR hg form self name fn fun m (_ : m ∈ functionMentions? none fn) => refers m
  have hMethods := lowerMethods_congr hR hg form self methods fun m (_ : m ∈ methodsMentions none methods) => refers m
  exact (hR.seq (hR.member form self _ hInit) (hR.seq (hHook _ create) (hR.seq (hHook _ destroy) hMethods))).1

theorem lowerModule (g : Setting) (p : Program) : P (p.lowerModule g) :=
  (p.lowerModule_congr hP.congruence (hP.corresponds g) fun m _ => refers m).1

end Kept
end Emit
end TreeLowering
