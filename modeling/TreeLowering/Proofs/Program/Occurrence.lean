import Mathlib.Logic.Relation
import TreeLowering.Proofs.Program.Faults

/-! # What occurs in a program

Validation walks over a program with one function for each kind of node. Here the parts of a node are listed once, and a
scope id or a reference occurs in a program if some part of it carries it. -/
namespace TreeLowering
set_option autoImplicit false

open Relation

/-- A scope id or a reference of a program. -/
inductive Site where
  | scope (id : Nat)
  | reference (ref : Reference)
deriving DecidableEq

namespace Site

def ExistsIn (t : Tree) : Site → Prop
  | scope id => id < t.scopes.size
  | reference ref => ∃ b, t.resolveReference ref = .ok b

def fault : Site → Fault
  | scope id => .danglingScope id
  | reference ref => .danglingReference ref

end Site

inductive Node where
  | program (p : Program)
  | stmt (s : Stmt)
  | declarator (d : Declarator)
  | clause (c : Clause)
  | method (m : Method)
  | function (fn : Function)
  | expr (e : Expr)

namespace Node

/-- The parts of a node. -/
def children : Node → List Node
  | program ⟨body, _⟩ => body.map stmt
  | stmt (.declare declarators _) => declarators.map declarator
  | stmt (.assign left right _) => [expr left, expr right]
  | stmt (.define _ fn _) => [function fn]
  | stmt (.constant _ value _) => [expr value]
  | stmt (.switch subject clauses _) => expr subject :: clauses.map clause
  | stmt (.loop init condition step body _) => [stmt init, expr condition, stmt step, stmt body]
  | stmt (.when condition body _) => [expr condition, stmt body]
  | stmt (.branch condition yes no _) => [expr condition, stmt yes, stmt no]
  | stmt (.repeatWhile condition body _) | stmt (.repeatUntil body condition _) => [expr condition, stmt body]
  | stmt (.breakLoop _) | stmt (.continueLoop _) | stmt (.exit _) | stmt (.nop _) => []
  | stmt (.block body _) => body.map stmt
  | stmt (.withEach subject body _ _ _ _) => [expr subject, stmt body]
  | stmt (.returnValue value _) => [expr value]
  | stmt (.object _ _ init create destroy methods _) =>
    function init :: (create.toList ++ destroy.toList).map function ++ methods.map method
  | stmt (.call callee args _ _ _) => expr callee :: args.map expr
  | stmt (.rawCall _ args _) => args.map expr
  | declarator (.mk _ value _) => value.toList.map expr
  | clause (.case value body) => [expr value, stmt body]
  | clause (.default body) => [stmt body]
  | method (.mk _ fn) => [function fn]
  | function (.mk _ body _) => [stmt body]
  | expr (.binary _ left right _) => [expr left, expr right]
  | expr (.unary _ operand _) => [expr operand]
  | expr (.index base indexes _) => expr base :: indexes.map expr
  | expr (.call callee args _ _ _) => expr callee :: args.map expr
  | expr (.closure fn _) => [function fn]
  | expr (.rawCall _ args _) => args.map expr
  | expr (.identifier ..) | expr (.number ..) | expr (.string ..) | expr (.raw ..) => []

/-- What a node itself carries, apart from its parts. -/
def sites : Node → List Site
  | program ⟨_, scope⟩ => [.scope scope]
  | stmt (.withEach _ _ scope index all _) => [.scope scope, .reference index, .reference all]
  | stmt (.call _ _ _ scope _) | expr (.call _ _ _ scope _) => [.scope scope]
  | function (.mk _ _ scope) => [.scope scope]
  | declarator (.mk _ _ ref) | expr (.identifier _ ref _) => ref.toList.map .reference
  | _ => []

/-- The second node is the first one or a part of it, at any depth. -/
def Contains : Node → Node → Prop := ReflTransGen fun n m => m ∈ n.children

end Node

/-! ## Mentions are the sites of all parts -/

def Mention.site : Mention → Site
  | scope id _ => .scope id
  | reference ref _ => .reference ref

open Mention

theorem exprsMentions_eq (es : List Expr) : exprsMentions es = es.flatMap Expr.mentions := by
  induction es with
  | nil => rfl
  | cons e es ih => rw [exprsMentions, ih, List.flatMap_cons]

theorem stmtsMentions_eq (ss : List Stmt) : stmtsMentions ss = ss.flatMap Stmt.mentions := by
  induction ss with
  | nil => rfl
  | cons s ss ih => rw [stmtsMentions, ih, List.flatMap_cons]

theorem declaratorsMentions_eq (loc : Option Location) (ds : List Declarator) :
    declaratorsMentions loc ds = ds.flatMap (Declarator.mentions loc) := by
  induction ds with
  | nil => rfl
  | cons d ds ih => rw [declaratorsMentions, ih, List.flatMap_cons]

theorem clausesMentions_eq (cs : List Clause) : clausesMentions cs = cs.flatMap Clause.mentions := by
  induction cs with
  | nil => rfl
  | cons c cs ih => rw [clausesMentions, ih, List.flatMap_cons]

theorem methodsMentions_eq (loc : Option Location) (ms : List Method) :
    methodsMentions loc ms = ms.flatMap (Method.mentions loc) := by
  induction ms with
  | nil => rfl
  | cons m ms ih => rw [methodsMentions, ih, List.flatMap_cons]

theorem functionMentions?_eq (loc : Option Location) (fn : Option Function) :
    functionMentions? loc fn = fn.toList.flatMap (Function.mentions loc) := by
  cases fn with
  | none => rfl
  | some fn => rw [functionMentions?, Option.toList_some, List.flatMap_singleton]

theorem map_site_ofReference? (ref : Option Reference) (loc : Option Location) :
    (ofReference? ref loc).map site = ref.toList.map .reference := by
  cases ref <;> rfl

namespace Node

def mentions (loc : Option Location) : Node → List Mention
  | program p => p.mentions
  | stmt s => s.mentions
  | declarator d => d.mentions loc
  | clause c => c.mentions
  | method m => m.mentions loc
  | function fn => fn.mentions loc
  | expr e => e.mentions

/-- Positions make no difference to what is mentioned. -/
theorem map_site_mentions_loc (n : Node) (loc : Option Location) :
    (n.mentions loc).map site = (n.mentions none).map site := by
  cases n with
  | declarator d =>
    obtain ⟨_, value, ref⟩ := d
    cases value <;> simp [mentions, Declarator.mentions, map_site_ofReference?]
  | method m =>
    obtain ⟨_, _, _, _⟩ := m
    rfl
  | function fn =>
    obtain ⟨_, _, _⟩ := fn
    rfl
  | _ => rfl

/-- A node mentions what it carries itself and then what its parts mention. -/
theorem map_site_mentions (n : Node) : (n.mentions none).map site =
    n.sites ++ n.children.flatMap fun part => (part.mentions none).map site := by
  have hDeclarator := fun d => map_site_mentions_loc (declarator d)
  have hMethod := fun m => map_site_mentions_loc (method m)
  have hFunction := fun fn => map_site_mentions_loc (function fn)
  simp only [mentions] at hDeclarator hMethod hFunction
  cases n with
  | program p => simp [mentions, sites, children, Program.mentions, stmtsMentions_eq, site, List.map_flatMap,
    List.flatMap_map]
  | stmt s =>
    cases s <;>
      simp [mentions, sites, children, Stmt.mentions, exprsMentions_eq, stmtsMentions_eq, declaratorsMentions_eq,
        clausesMentions_eq, methodsMentions_eq, functionMentions?_eq, site, List.map_flatMap, List.flatMap_map,
        hDeclarator, hMethod, hFunction]
  | declarator d =>
    obtain ⟨_, value, ref⟩ := d
    cases value <;> simp [mentions, sites, children, Declarator.mentions, map_site_ofReference?]
  | clause c => cases c <;> simp [mentions, sites, children, Clause.mentions]
  | method m =>
    obtain ⟨_, fn⟩ := m
    simp [mentions, sites, children, Method.mentions]
  | function fn =>
    obtain ⟨_, body, scope⟩ := fn
    simp [mentions, sites, children, Function.mentions, site]
  | expr e =>
    cases e <;>
      simp [mentions, sites, children, Expr.mentions, exprsMentions_eq, site, List.map_flatMap, List.flatMap_map,
        hFunction, map_site_ofReference?]

theorem mem_mentions_step {n : Node} {x : Site} : x ∈ (n.mentions none).map site ↔
    x ∈ n.sites ∨ ∃ part ∈ n.children, x ∈ (part.mentions none).map site := by
  rw [map_site_mentions, List.mem_append, List.mem_flatMap]

theorem sizeOf_lt_of_mem_children {n part : Node} (h : part ∈ n.children) : sizeOf part < sizeOf n := by
  fun_cases children n <;> simp only [children] at h <;> simp <;>
    grind [→ List.sizeOf_lt_of_mem, stmt.sizeOf_spec, declarator.sizeOf_spec, clause.sizeOf_spec, method.sizeOf_spec,
      function.sizeOf_spec, expr.sizeOf_spec, Option.some.sizeOf_spec]

/-- Something is mentioned in a node if a part of it carries it. -/
theorem mem_mentions_iff {n : Node} {x : Site} :
    x ∈ (n.mentions none).map site ↔ ∃ part, n.Contains part ∧ x ∈ part.sites := by
  constructor
  · induction hSize : sizeOf n using Nat.strongRecOn generalizing n with
    | ind size ih =>
      intro hx
      rcases mem_mentions_step.mp hx with hOwn | ⟨child, hChild, hx⟩
      · exact ⟨n, .refl, hOwn⟩
      · obtain ⟨part, hPart, hOwn⟩ := ih _ (hSize ▸ sizeOf_lt_of_mem_children hChild) rfl hx
        exact ⟨part, .head hChild hPart, hOwn⟩
  · rintro ⟨part, hPart, hOwn⟩
    induction hPart using ReflTransGen.head_induction_on with
    | refl => exact mem_mentions_step.mpr (.inl hOwn)
    | head hChild _ ih => exact mem_mentions_step.mpr (.inr ⟨_, hChild, ih⟩)

end Node

/-! ## Validation -/

theorem Mention.existsIn_iff {t : Tree} {m : Mention} : m.existsIn t = true ↔ m.site.ExistsIn t := by
  cases m with
  | scope id loc => exact t.containsScope_iff id
  | reference ref loc =>
    rw [existsIn, Option.isSome_iff_exists, site, Site.ExistsIn]
    simp only [Tree.resolveReference_eq_ok_iff]

theorem Mention.exists_failure_eq (m : Mention) : ∃ loc, m.failure = .fault m.site.fault loc := by
  cases m with
  | scope id loc => exact ⟨loc, rfl⟩
  | reference ref loc => exact ⟨loc, rfl⟩

theorem Site.kind_fault (x : Site) : x.fault.kind = .malformedInput := by
  cases x <;> rfl

/-- Validation accepts a program if all that occurs in it exists, and else names something that does not. -/
theorem validate_eq_ok_iff_nothing_dangles (p : Program) (t : Tree) :
    (p.validate t = .ok () ↔ ∀ part, (Node.program p).Contains part → ∀ x ∈ part.sites, x.ExistsIn t) ∧
      ∀ e, p.validate t = .error e → ∃ part x loc, (Node.program p).Contains part ∧ x ∈ part.sites ∧
        ¬x.ExistsIn t ∧
        e = .fault x.fault loc ∧ x.fault.kind = .malformedInput := by
  have hOccurs := fun x => Node.mem_mentions_iff (n := .program p) (x := x)
  constructor
  · rw [Program.validate, Mention.forM_check_eq_ok_iff]
    constructor
    · intro hAll part hPart x hx
      obtain ⟨m, hm, rfl⟩ := List.mem_map.mp ((hOccurs x).mpr ⟨part, hPart, hx⟩)
      exact Mention.existsIn_iff.mp (hAll m hm)
    · intro hAll m hm
      obtain ⟨part, hPart, hx⟩ := (hOccurs m.site).mp (List.mem_map_of_mem hm)
      exact Mention.existsIn_iff.mpr (hAll part hPart m.site hx)
  · intro e hError
    obtain ⟨m, hm, hMissing, rfl⟩ := Program.validate_eq_error hError
    obtain ⟨part, hPart, hx⟩ := (hOccurs m.site).mp (List.mem_map_of_mem hm)
    obtain ⟨loc, hFailure⟩ := m.exists_failure_eq
    refine ⟨part, m.site, loc, hPart, hx, ?_, hFailure, m.site.kind_fault⟩
    rw [← Mention.existsIn_iff, hMissing]
    exact Bool.false_ne_true

/-- A loop over instances whose subject has a reference inside. -/
def loopOver (ref : Reference) : Program where
  body := [.withEach (.index (.identifier "a" ref none) [] none) (.nop none) 0 (.slot 0 0) (.named 0 "all") none]
  scope := 0

open TreeLowering.Tree in
theorem dangling_subject_is_refused :
    (∃ b, (globalTree "$G" ["all"]).resolveReference (.slot 0 0) = .ok b) ∧
      (loopOver (.slot 0 1)).validate (globalTree "$G" ["all"]) ≠ .ok () := by
  have hPath : ∀ ref, (Node.program (loopOver ref)).Contains (.expr (.identifier "a" (some ref) none)) := fun ref =>
    .head (List.mem_cons_self) (.head List.mem_cons_self (.single List.mem_cons_self))
  constructor
  · exact (validate_eq_ok_iff_nothing_dangles (loopOver (.slot 0 0)) _).1.mp (by rfl) _ (hPath _)
      (.reference (.slot 0 0))
      List.mem_cons_self
  · intro hValid
    obtain ⟨b, hb⟩ := (validate_eq_ok_iff_nothing_dangles _ _).1.mp hValid _ (hPath _) (.reference (.slot 0 1))
      List.mem_cons_self
    cases hb

end TreeLowering
