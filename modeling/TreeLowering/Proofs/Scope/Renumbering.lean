import TreeLowering.Proofs.Scope.WriteOnce

/-! # Trees over more global names

When the list of global names grows, bindings are renumbered: a global is found by its name, and a
later binding keeps its distance from the globals. Two trees that are alike up to that stay alike
under every edit that builds and names the tree of a document. -/
namespace TreeLowering
set_option autoImplicit false

open Relation

/-- The entry with its link renumbered. -/
def Entry.relink (renumber : Nat → Nat) : Entry → Entry
  | var v => var v
  | linked name link => linked name (renumber link)

@[simp] theorem Entry.identifier_relink (renumber : Nat → Nat) (e : Entry) :
    (e.relink renumber).identifier = e.identifier := by
  cases e <;> rfl

@[simp] theorem Entry.storage_relink (renumber : Nat → Nat) (e : Entry) :
    (e.relink renumber).storage = e.storage := by
  cases e <;> rfl

@[simp] theorem Entry.target?_relink (renumber : Nat → Nat) (e : Entry) :
    (e.relink renumber).target? = e.target? := by
  cases e <;> rfl

@[simp] theorem Entry.relink_assign (renumber : Nat → Nat) (name : String) (e : Entry) :
    (e.assign name).relink renumber = (e.relink renumber).assign name := by
  cases e <;> rfl

def Binding.relink (renumber : Nat → Nat) (x : Binding) : Binding := ⟨x.owner, x.entry.relink renumber⟩

/-- The number of a binding after the global names have grown from `before` to `after`. -/
def renumber (before after : List String) (b : Nat) : Nat :=
  if h : b < before.length then after.idxOf before[b] else after.length + (b - before.length)

theorem renumber_global {before after : List String} {b : Nat} {name : String} (hb : before[b]? = some name) :
    renumber before after b = after.idxOf name := by
  obtain ⟨hLt, rfl⟩ := List.getElem?_eq_some_iff.mp hb
  rw [renumber, dif_pos hLt]

@[simp] theorem renumber_declared (before after : List String) (k : Nat) :
    renumber before after (before.length + k) = after.length + k := by
  rw [renumber, dif_neg (by omega), Nat.add_sub_cancel_left]

theorem global_or_declared (names : List String) (b : Nat) :
    (∃ name, names[b]? = some name) ∨ ∃ k, b = names.length + k := by
  by_cases hb : b < names.length
  · exact .inl ⟨_, List.getElem?_eq_getElem hb⟩
  · exact .inr ⟨b - names.length, by omega⟩

/-- The reference does not count the bindings of the global scope. -/
def Reference.OffGlobalSlots : Reference → Prop
  | named .. => True
  | slot s _ => s ≠ 0

namespace Tree

open Edit

theorem SameFrame.symm {t u : Tree} (h : SameFrame t u) : SameFrame u t :=
  ⟨h.size.symm, fun s => (h.parent s).symm, fun s => (h.function s).symm⟩

theorem SameFrame.push {t u : Tree} (h : SameFrame t u) (kind : ScopeKind) (parent : Option Nat) :
    SameFrame { t with scopes := t.scopes.push ⟨kind, parent, []⟩ }
      { u with scopes := u.scopes.push ⟨kind, parent, []⟩ } where
  size := by simp [h.size]
  parent s := by
    have hParent := h.parent s
    simp only [parent?, Array.getElem?_push, h.size] at hParent ⊢
    split
    · rfl
    · exact hParent
  function s := by
    have hFunction := h.function s
    simp only [isFunctionScope, Array.getElem?_push, h.size] at hFunction ⊢
    by_cases hs : s = t.scopes.size
    · simp only [if_pos hs]
    · simpa only [if_neg hs] using hFunction

/-- `t` over the global names `before` and `u` over `after` are alike up to the numbers of their bindings. -/
structure Regrown (container : String) (before after : List String) (t u : Tree) : Prop where
  sub : ∀ name ∈ before, name ∈ after
  old : t.WellFormed
  new : u.WellFormed
  frame : SameFrame t u
  oldVisible : t.visible 0 = List.range before.length
  newVisible : u.visible 0 = List.range after.length
  visible : ∀ s ≠ 0, u.visible s = (t.visible s).map (renumber before after)
  oldGlobal : ∀ (b : Nat) name, before[b]? = some name →
    t.bindings[b]? = some ⟨0, .var (Variable.ofMember name container)⟩
  newGlobal : ∀ (b : Nat) name, after[b]? = some name →
    u.bindings[b]? = some ⟨0, .var (Variable.ofMember name container)⟩
  declared : ∀ k, u.bindings[after.length + k]? =
    t.bindings[before.length + k]?.map (Binding.relink (renumber before after))
  size : ∃ n, t.bindings.size = before.length + n ∧ u.bindings.size = after.length + n

namespace Regrown

variable {container : String} {before after : List String} {t u : Tree}

/-! ## Reading -/

section

variable (h : Regrown container before after t u)

include h

theorem getElem?_renumber_global {b : Nat} {name : String} (hb : before[b]? = some name) :
    after[renumber before after b]? = some name := by
  have hMem := h.sub name (List.mem_of_getElem? hb)
  rw [renumber_global hb, List.getElem?_eq_getElem (List.idxOf_lt_length_of_mem hMem), List.getElem_idxOf]

theorem binding (b : Nat) : u.bindings[renumber before after b]? =
    t.bindings[b]?.map (Binding.relink (renumber before after)) := by
  rcases global_or_declared before b with ⟨name, hb⟩ | ⟨k, rfl⟩
  · rw [h.newGlobal _ name (h.getElem?_renumber_global hb), h.oldGlobal b name hb]
    rfl
  · rw [renumber_declared, h.declared k]

theorem next : renumber before after t.bindings.size = u.bindings.size := by
  obtain ⟨n, ht, hu⟩ := h.size
  rw [ht, hu, renumber_declared]

theorem renumber_lt {b : Nat} (hb : b < t.bindings.size) : renumber before after b < u.bindings.size := by
  have hBinding := h.binding b
  rw [Array.getElem?_eq_getElem hb, Option.map_some] at hBinding
  exact (Array.getElem?_eq_some_iff.mp hBinding).1

theorem entryAt? (b : Nat) : u.entryAt? (renumber before after b) =
    (t.entryAt? b).map (Entry.relink (renumber before after)) := by
  rw [Tree.entryAt?, Tree.entryAt?, h.binding, Option.map_map, Option.map_map]
  rfl

theorem identifier? (b : Nat) : u.identifier? (renumber before after b) = t.identifier? b := by
  rw [Tree.identifier?, Tree.identifier?, h.entryAt?]
  cases t.entryAt? b <;> simp

theorem named? {s : Nat} (hs : s ≠ 0) (name : String) :
    u.named? s name = (t.named? s name).map (renumber before after) := by
  rw [Tree.named?, Tree.named?, h.visible s hs, List.find?_map]
  simp only [Function.comp_def, h.identifier?]

theorem named?_zero {b : Nat} {name : String} (hb : t.named? 0 name = some b) :
    u.named? 0 name = some (renumber before after b) := by
  obtain ⟨hMem, hName⟩ := mem_of_named? hb
  rw [h.oldVisible, List.mem_range] at hMem
  have hGlobal := h.getElem?_renumber_global (List.getElem?_eq_getElem hMem)
  refine h.new.named?_eq_some_iff.mpr ⟨?_, (h.identifier? b).trans hName⟩
  rw [h.newVisible, List.mem_range]
  exact (List.getElem?_eq_some_iff.mp hGlobal).1

theorem named?_of_eq_some {s b : Nat} {name : String} (hb : t.named? s name = some b) :
    u.named? s name = some (renumber before after b) := by
  by_cases hs : s = 0
  · subst hs
    exact h.named?_zero hb
  · rw [h.named? hs, hb, Option.map_some]

theorem nearest? {s b : Nat} {name : String} (hb : t.nearest? s name = some b) :
    u.nearest? s name = some (renumber before after b) := by
  induction s using h.old.walk with
  | stop s hParent =>
    rw [h.old.nearest?_eq, hParent, Option.bind_none, Option.or_none] at hb
    rw [h.new.nearest?_eq, h.named?_of_eq_some hb, Option.some_or]
  | step s p hParent ih =>
    -- A scope with a parent is not the global one, so it has no names but the renumbered ones.
    have hs : s ≠ 0 := by
      rintro rfl
      rw [h.old.parent?_zero] at hParent
      cases hParent
    rw [h.old.nearest?_eq, hParent, Option.bind_some] at hb
    rw [h.new.nearest?_eq, h.frame.parent, hParent, Option.bind_some, h.named? hs]
    cases hNamed : t.named? s name with
    | some c =>
      rw [hNamed, Option.some_or] at hb
      obtain rfl := Option.some.inj hb
      rfl
    | none =>
      rw [hNamed, Option.none_or] at hb
      exact ih hb

theorem link? (b : Nat) : u.link? (renumber before after b) = (t.link? b).map (renumber before after) := by
  rw [Tree.link?, Tree.link?, h.entryAt?]
  cases t.entryAt? b with
  | none => rfl
  | some e => cases e <;> rfl

theorem resolve (b : Nat) : u.resolve (renumber before after b) = renumber before after (t.resolve b) := by
  induction b using Nat.strongRecOn with
  | ind b ih =>
    rw [h.old.resolve_eq, h.new.resolve_eq, h.link?]
    cases hLink : t.link? b with
    | none => rfl
    | some link => exact ih link (h.old.link_lt hLink)

theorem variableOf (b : Nat) : u.variableOf (renumber before after b) = t.variableOf b := by
  have hBehind : u.variableBehind? (renumber before after b) = t.variableBehind? b := by
    rw [variableBehind?, variableBehind?, h.resolve, h.entryAt?]
    cases t.entryAt? (t.resolve b) with
    | none => rfl
    | some e => cases e <;> rfl
  rw [Tree.variableOf, Tree.variableOf, hBehind]

theorem targetIdentifier (b : Nat) : u.targetIdentifier (renumber before after b) = t.targetIdentifier b := by
  rw [Tree.targetIdentifier, Tree.targetIdentifier, h.variableOf, h.identifier?]

theorem bindingText (b : Nat) : u.bindingText (renumber before after b) = t.bindingText b := by
  rw [Tree.bindingText, Tree.bindingText, h.targetIdentifier, h.variableOf]

/-- A global is called by its own name. -/
theorem targetIdentifier_of_named?_zero {b : Nat} {name : String} (hb : u.named? 0 name = some b) :
    u.targetIdentifier b = .ok name := by
  obtain ⟨hMem, hName⟩ := mem_of_named? hb
  rw [h.newVisible, List.mem_range] at hMem
  have hGlobal := h.newGlobal b _ (List.getElem?_eq_getElem hMem)
  have hEntry : u.entryAt? b = some (.var (Variable.ofMember after[b] container)) := by
    rw [Tree.entryAt?, hGlobal, Option.map_some]
  have hEnd : u.resolve b = b := by
    rw [h.new.resolve_eq, Tree.link?, hEntry]
    rfl
  rw [Tree.identifier?, hEntry] at hName
  obtain rfl : after[b] = name := by simpa [Entry.identifier, Variable.ofMember] using hName
  rw [Tree.targetIdentifier, Tree.variableOf, variableBehind?, hEnd, hEntry]
  rfl

end

/-! ## Edits -/

theorem push (h : Regrown container before after t u) {kind : ScopeKind} {parent : Nat}
    (hKind : kind ≠ .global) (hParent : parent < t.scopes.size) :
    Regrown container before after { t with scopes := t.scopes.push ⟨kind, some parent, []⟩ }
      { u with scopes := u.scopes.push ⟨kind, some parent, []⟩ } where
  sub := h.sub
  old := h.old.push hKind hParent
  new := h.new.push hKind (h.frame.size ▸ hParent)
  frame := h.frame.push kind (some parent)
  oldVisible := (t.visible_push kind parent 0).trans h.oldVisible
  newVisible := (u.visible_push kind parent 0).trans h.newVisible
  visible s hs := by
    rw [visible_push, visible_push]
    exact h.visible s hs
  oldGlobal := h.oldGlobal
  newGlobal := h.newGlobal
  declared := h.declared
  size := h.size

theorem obstacle? (h : Regrown container before after t u) {s : Nat} (hs : s ≠ 0) {e : Entry}
    (hFree : t.obstacle? s e = none) : u.obstacle? s (e.relink (renumber before after)) = none := by
  obtain ⟨hScope, hName, hLink⟩ := obstacle?_eq_none_iff.mp hFree
  refine obstacle?_eq_none_iff.mpr ⟨h.frame.size ▸ hScope, ?_, ?_⟩
  · intro name hIdentifier
    rw [Entry.identifier_relink] at hIdentifier
    rw [h.named? hs, hName name hIdentifier, Option.map_none]
  · intro name link hEntry
    cases e with
    | var v => cases hEntry
    | linked n l =>
      cases hEntry
      exact h.renumber_lt (hLink _ _ rfl)

theorem insert (h : Regrown container before after t u) {s : Nat} (hs : s ≠ 0) {e : Entry}
    (hFree : t.obstacle? s e = none) :
    Regrown container before after (t.insert s e) (u.insert s (e.relink (renumber before after))) := by
  have hFree' := h.obstacle? hs hFree
  have hScope : t.containsScope s = true := (t.containsScope_iff s).mpr (obstacle?_eq_none_iff.mp hFree).1
  have hScope' : u.containsScope s = true := (u.containsScope_iff s).mpr (obstacle?_eq_none_iff.mp hFree').1
  obtain ⟨n, ht, hu⟩ := h.size
  refine ⟨h.sub, h.old.insert hFree, h.new.insert hFree', ?frame, ?oldVisible, ?newVisible, ?visible,
    ?oldGlobal, ?newGlobal, ?declared, ?size⟩
  case frame => exact ((sameFrame_insert t s e).symm.trans h.frame).trans (sameFrame_insert u s _)
  case oldVisible => rw [visible_insert_of_ne t e hs.symm, h.oldVisible]
  case newVisible => rw [visible_insert_of_ne u _ hs.symm, h.newVisible]
  case visible =>
    intro r hr
    by_cases hEq : r = s
    · subst hEq
      rw [visible_insert_self e hScope, visible_insert_self _ hScope', h.visible r hr, List.map_append,
        List.map_singleton, h.next]
    · rw [visible_insert_of_ne t e hEq, visible_insert_of_ne u _ hEq, h.visible r hr]
  case oldGlobal =>
    intro b name hb
    have hLt := (List.getElem?_eq_some_iff.mp hb).1
    rw [getElem?_insert, if_neg (by omega), h.oldGlobal b name hb]
  case newGlobal =>
    intro b name hb
    have hLt := (List.getElem?_eq_some_iff.mp hb).1
    rw [getElem?_insert, if_neg (by omega), h.newGlobal b name hb]
  case declared =>
    intro k
    rw [getElem?_insert, getElem?_insert]
    by_cases hk : k = n
    · subst hk
      rw [if_pos hu.symm, if_pos ht.symm]
      rfl
    · rw [if_neg (by omega), if_neg (by omega), h.declared k]
  case size => exact ⟨n + 1, by simp [ht, Nat.add_assoc], by simp [hu, Nat.add_assoc]⟩

theorem setTarget (h : Regrown container before after t u) (k : Nat) (name : String) :
    Regrown container before after (t.setTarget (before.length + k) name)
      (u.setTarget (after.length + k) name) where
  sub := h.sub
  old := h.old.setTarget _ name
  new := h.new.setTarget _ name
  frame := ((sameFrame_setTarget t _ name).symm.trans h.frame).trans (sameFrame_setTarget u _ name)
  oldVisible := h.oldVisible
  newVisible := h.newVisible
  visible := h.visible
  oldGlobal b n hb := by
    have hLt := (List.getElem?_eq_some_iff.mp hb).1
    rw [getElem?_setTarget, if_neg (by omega), h.oldGlobal b n hb]
  newGlobal b n hb := by
    have hLt := (List.getElem?_eq_some_iff.mp hb).1
    rw [getElem?_setTarget, if_neg (by omega), h.newGlobal b n hb]
  declared j := by
    rw [getElem?_setTarget, getElem?_setTarget, h.declared j]
    by_cases hEq : k = j
    · subst hEq
      rw [if_pos rfl, if_pos rfl]
      cases t.bindings[before.length + k]? <;> simp [Binding.relink]
    · rw [if_neg (by omega), if_neg (by omega)]
  size := by
    obtain ⟨n, ht, hu⟩ := h.size
    exact ⟨n, by simp [ht], by simp [hu]⟩

/-! ## References -/

section

variable (h : Regrown container before after t u) {ref : Reference} (hRef : ref.OffGlobalSlots)

include h hRef

theorem reference? {b : Nat} (hb : t.reference? ref = some b) :
    u.reference? ref = some (renumber before after b) := by
  cases ref with
  | named s name => exact h.named?_of_eq_some hb
  | slot s i =>
    rw [Tree.reference?, h.visible s hRef, List.getElem?_map]
    exact congrArg (Option.map _) hb

theorem resolveReference {b : Nat} (hb : t.resolveReference ref = .ok b) :
    u.resolveReference ref = .ok (renumber before after b) := by
  rw [resolveReference_eq_ok_iff] at hb ⊢
  exact h.reference? hRef hb

end

end Regrown
end Tree

namespace Tree

open Edit

/-! ## Edits that follow each other -/

/-- What one edit does to a tree, the other does to the tree over more names, and they stay alike. -/
def Follows (container : String) (before after : List String) (m m' : Edit Unit) : Prop :=
  ∀ t t' u : Tree, Regrown container before after t u → m t = .ok () t' →
    ∃ u', m' u = .ok () u' ∧ Regrown container before after t' u'

namespace Follows

variable {container : String} {before after : List String}

theorem done : Follows container before after (pure ()) (pure ()) := by
  rintro t t' u h ⟨⟩
  exact ⟨u, rfl, h⟩

theorem seq {m m' n n' : Edit Unit} (hm : Follows container before after m m')
    (hn : Follows container before after n n') :
    Follows container before after (m >>= fun _ => n) (m' >>= fun _ => n') := by
  intro t t' u h hRun
  obtain ⟨_, w, hFirst, hSecond⟩ := exists_of_run_eq_ok hRun
  obtain ⟨v, hFirst', hMiddle⟩ := hm t w u h hFirst
  obtain ⟨u', hSecond', hLast⟩ := hn w t' v hMiddle hSecond
  refine ⟨u', ?_, hLast⟩
  simp only [bind, EStateM.bind, hFirst']
  exact hSecond'

theorem forM {α : Type} {f f' : α → Edit Unit} {xs : List α}
    (hf : ∀ x ∈ xs, Follows container before after (f x) (f' x)) :
    Follows container before after (xs.forM f) (xs.forM f') := by
  induction xs with
  | nil => exact done
  | cons x xs ih =>
    rw [List.forall_mem_cons] at hf
    exact hf.1.seq (ih hf.2)

theorem flatMap {α : Type} {f f' : α → List Nat} {g : Nat → Edit Unit} {xs : List α}
    (hf : ∀ x ∈ xs, Follows container before after ((f x).forM g) ((f' x).forM g)) :
    Follows container before after ((xs.flatMap f).forM g) ((xs.flatMap f').forM g) := by
  induction xs with
  | nil => exact done
  | cons x xs ih =>
    rw [List.forall_mem_cons] at hf
    have hAppend : ∀ f : α → List Nat, ((x :: xs).flatMap f).forM g =
        ((f x).forM g >>= fun _ => (xs.flatMap f).forM g) := fun f => List.forM_append
    rw [hAppend, hAppend]
    exact hf.1.seq (ih hf.2)

end Follows
end Tree

open TreeLowering.Tree Edit

variable {container : String} {before after : List String}

/-! ## Attaching declared scopes -/

namespace BindingDecl

/-- The declaration does not refer to a global by its position. -/
def OffGlobalSlots : BindingDecl → Prop
  | linked _ link => link.OffGlobalSlots
  | var .. => True

theorem entry_regrown {t u : Tree} (h : Regrown container before after t u) {s : Nat} {d : BindingDecl}
    (hd : d.OffGlobalSlots) {e : Entry} (he : d.entry t s = .ok e) :
    d.entry u s = .ok (e.relink (renumber before after)) := by
  cases d with
  | linked identifier link =>
    rw [BindingDecl.entry, BindingDecl.entryBy] at he ⊢
    cases hLink : t.resolveReference link with
    | error failure => simp [hLink, bind, Except.bind] at he
    | ok b =>
      simp only [hLink, bind, Except.bind] at he
      cases he
      rw [h.resolveReference hd hLink]
      rfl
  | var identifier storage access fixed desired container =>
    -- The entry of a variable is made without a look at the tree.
    have hSame : (BindingDecl.var identifier storage access fixed desired container).entry u s = .ok e := he
    have hDeclares := BindingDecl.declares_of_entry he
    cases e with
    | var v => exact hSame
    | linked n l => exact hDeclares.elim

theorem attach_follows {s : Nat} (hs : s ≠ 0) {d : BindingDecl} (hd : d.OffGlobalSlots) :
    Follows container before after (d.attach s) (d.attach s) := by
  intro t t' u h hAttach
  obtain ⟨e, hEntry, hFree, rfl⟩ := attach_eq_ok_iff.mp hAttach
  exact ⟨_, attach_eq_ok_iff.mpr ⟨_, entry_regrown h hd hEntry, h.obstacle? hs hFree, rfl⟩, h.insert hs hFree⟩

end BindingDecl

namespace ScopeDecl

/-- No binding of the scope refers to a global by its position. -/
def OffGlobalSlots (d : ScopeDecl) : Prop := ∀ declared ∈ d.bindings, declared.OffGlobalSlots

theorem attach_follows (id : Nat) {d : ScopeDecl} (hd : d.OffGlobalSlots) :
    Follows container before after (d.attach id) (d.attach id) := by
  intro t t' u h hAttach
  have hKind : d.kind.scopeKind ≠ .global := by cases d.kind <;> decide
  by_cases hOrder : id ≤ d.parent
  · rw [ScopeDecl.attach, if_pos hOrder] at hAttach
    cases hAttach
  · by_cases hParent : d.parent < t.scopes.size
    · rw [attach_apply id d hOrder hParent] at hAttach
      rw [attach_apply id d hOrder (h.frame.size ▸ hParent), h.frame.size]
      refine Follows.forM (fun declared hMem => ?_) _ t' _ (h.push hKind hParent) hAttach
      exact BindingDecl.attach_follows (Nat.ne_of_gt h.old.size_pos) (hd declared hMem)
    · obtain ⟨_, w, hPush, _⟩ := exists_of_run_eq_ok (by rwa [ScopeDecl.attach, if_neg hOrder] at hAttach)
      rw [pushScope_apply, if_neg hKind, if_neg hParent] at hPush
      cases hPush

theorem attachFrom_follows (id : Nat) {ds : List ScopeDecl} (hds : ∀ d ∈ ds, d.OffGlobalSlots) :
    Follows container before after (attachFrom id ds) (attachFrom id ds) := by
  induction ds generalizing id with
  | nil => exact Follows.done
  | cons d ds ih =>
    rw [List.forall_mem_cons] at hds
    exact (attach_follows id hds.1).seq (ih (id + 1) hds.2)

theorem attachAll_follows {ds : List ScopeDecl} (hds : ∀ d ∈ ds, d.OffGlobalSlots) :
    Follows container before after (attachAll ds) (attachAll ds) := by
  intro t t' u h hAttach
  rw [attachAll, get_bind_apply] at hAttach ⊢
  rw [h.frame.size]
  split at hAttach
  · rename_i hSize
    rw [if_pos hSize]
    exact attachFrom_follows 1 hds t t' u h hAttach
  · cases hAttach

end ScopeDecl

/-! ## Naming -/

namespace Tree

namespace Regrown

variable {t u : Tree} (h : Regrown container before after t u)

include h

theorem slotOf_declared (f k : Nat) : u.SlotOf f (after.length + k) ↔ t.SlotOf f (before.length + k) := by
  have hScope : u.functionScope = t.functionScope := funext h.frame.functionScope
  rw [SlotOf, SlotOf, h.declared, hScope]
  cases t.bindings[before.length + k]? <;> simp [Binding.relink]

theorem target?_declared (k : Nat) : u.target? (after.length + k) = t.target? (before.length + k) := by
  rw [target?, target?, Tree.entryAt?, Tree.entryAt?, h.declared]
  cases t.bindings[before.length + k]? <;> simp [Binding.relink]

theorem mem_usedTargets_iff (f : Nat) (name : String) : name ∈ t.usedTargets f ↔ name ∈ u.usedTargets f := by
  rw [mem_usedTargets, mem_usedTargets]
  constructor
  · rintro ⟨b, hSlot, hTarget⟩
    rcases global_or_declared before b with ⟨n, hb⟩ | ⟨k, rfl⟩
    · obtain ⟨x, hx, hStorage, _⟩ := hSlot
      obtain rfl := Option.some.inj ((h.oldGlobal b n hb).symm.trans hx)
      cases hStorage
    · exact ⟨after.length + k, (h.slotOf_declared f k).mpr hSlot, (h.target?_declared k).trans hTarget⟩
  · rintro ⟨c, hSlot, hTarget⟩
    rcases global_or_declared after c with ⟨n, hc⟩ | ⟨k, rfl⟩
    · obtain ⟨x, hx, hStorage, _⟩ := hSlot
      obtain rfl := Option.some.inj ((h.newGlobal c n hc).symm.trans hx)
      cases hStorage
    · exact ⟨before.length + k, (h.slotOf_declared f k).mp hSlot, (h.target?_declared k).symm.trans hTarget⟩

theorem chooseTarget (x : Binding) (storage : StorageClass) (candidate : String) :
    u.chooseTarget x storage candidate = t.chooseTarget x storage candidate := by
  rw [Tree.chooseTarget, Tree.chooseTarget, h.frame.functionScope,
    uniqueName_congr (fun name => (h.mem_usedTargets_iff (t.functionScope x.owner) name).symm)]

theorem settled {b : Nat} (hb : t.Settled b) : u.Settled (renumber before after b) := by
  intro v hv
  rw [h.entryAt?] at hv
  obtain ⟨e, he, hLinked⟩ := Option.map_eq_some_iff.mp hv
  cases e with
  | var w =>
    cases hLinked
    exact hb _ he
  | linked n l => cases hLinked

end Regrown

theorem allocateOne_follows (b : Nat) :
    Follows container before after (allocateOne b) (allocateOne (renumber before after b)) := by
  intro t t' u h hRun
  obtain ⟨rfl, hSettled⟩ | ⟨owner, v, desired, candidate, hBinding, hPending, hCandidate, rfl⟩ :=
    allocateOne_eq_ok hRun
  · exact ⟨u, allocateOne_of_settled (h.settled hSettled), h⟩
  · -- A pending variable is no global, so it keeps its distance from them.
    rcases global_or_declared before b with ⟨n, hb⟩ | ⟨k, rfl⟩
    · obtain ⟨rfl, hVar⟩ := Binding.mk.inj (Option.some.inj ((h.oldGlobal b n hb).symm.trans hBinding))
      cases hVar
      cases hPending
    · have hBinding' : u.bindings[after.length + k]? = some ⟨owner, .var v⟩ := by
        rw [h.declared, hBinding]
        rfl
      refine ⟨_, ?_, h.setTarget k _⟩
      rw [renumber_declared, allocateOne_pending hBinding' hPending hCandidate, h.chooseTarget]

/-- The globals have their names already, in both trees. -/
theorem forM_globals_follows : Follows container before after
    ((List.range before.length).forM allocateOne) ((List.range after.length).forM allocateOne) := by
  have hSettled : ∀ {w : Tree} {names : List String},
      (∀ (b : Nat) name, names[b]? = some name →
        w.bindings[b]? = some ⟨0, .var (Variable.ofMember name container)⟩) →
      (List.range names.length).forM allocateOne w = .ok () w := by
    intro w names hGlobal
    refine forM_allocateOne_of_settled fun b hb v hv => ?_
    have hBinding := hGlobal b _ (List.getElem?_eq_getElem (List.mem_range.mp hb))
    rw [Tree.entryAt?, hBinding, Option.map_some] at hv
    cases hv
    exact ⟨_, rfl⟩
  intro t t' u h hRun
  obtain ⟨⟩ := (hSettled h.oldGlobal).symm.trans hRun
  exact ⟨u, hSettled h.newGlobal, h⟩

theorem forM_declared_follows (bs : List Nat) : Follows container before after
    (bs.forM allocateOne) ((bs.map (renumber before after)).forM allocateOne) := by
  have hMap : (bs.map (renumber before after)).forM allocateOne =
      bs.forM fun b => allocateOne (renumber before after b) := List.forM_map
  rw [hMap]
  exact Follows.forM fun b _ => allocateOne_follows b

theorem SameFrame.namingScopes {t u : Tree} (h : SameFrame t u) : u.namingScopes = t.namingScopes := by
  simp only [Tree.namingScopes, h.functionScopes, h.ownedBlocks]

theorem allocate_follows : Follows container before after allocate allocate := by
  intro t t' u h hRun
  rw [allocate_apply, namingOrder_eq] at hRun ⊢
  rw [h.frame.namingScopes]
  refine Follows.flatMap (fun s _ => ?_) t t' u h hRun
  by_cases hs : s = 0
  · rw [hs, h.oldVisible, h.newVisible]
    exact forM_globals_follows
  · rw [h.visible s hs]
    exact forM_declared_follows (t.visible s)

/-! ## Global names -/

theorem WellFormed.nodup_of_globalTree {container : String} {names : List String}
    (h : (globalTree container names).WellFormed) : names.Nodup := by
  rw [List.nodup_iff_injective_getElem]
  intro b c hEq
  refine Fin.ext (h.distinct 0 b (List.mem_range.mpr b.2) c (List.mem_range.mpr c.2) names[b] ?_ ?_)
  · rw [identifier?_globalTree, List.getElem?_eq_getElem b.2]
    rfl
  · rw [identifier?_globalTree, List.getElem?_eq_getElem c.2]
    exact congrArg some hEq.symm

theorem forM_addGlobal_eq_ok (container : String) (done : List String) {names : List String}
    (h : (done ++ names).Nodup) : names.forM (addGlobal container) (globalTree container done) =
      .ok () (globalTree container (done ++ names)) := by
  induction names generalizing done with
  | nil =>
    rw [List.append_nil]
    rfl
  | cons name names ih =>
    rw [List.append_cons] at h ⊢
    have hNew : name ∉ done := fun hMem =>
      List.disjoint_of_nodup_append (List.nodup_append.mp h).1 hMem (List.mem_singleton.mpr rfl)
    have hFree : (globalTree container done).obstacle? 0 (.var (Variable.ofMember name container)) = none := by
      refine obstacle?_eq_none_iff.mpr ⟨Nat.one_pos, ?_, fun _ _ hLinked => by cases hLinked⟩
      rintro _ ⟨⟩
      rw [named?, List.find?_eq_none]
      intro b _
      rw [identifier?_globalTree, beq_iff_eq]
      exact fun hName => hNew (List.mem_of_getElem? hName)
    rw [← ih (done ++ [name]) h]
    change (addGlobal container name >>= fun _ => names.forM (addGlobal container)) _ = _
    simp only [addGlobal, bind, EStateM.bind, add_apply, hFree, insert_globalTree]
    rfl

theorem ofGlobals_of_nodup (container : String) {r : Registry} {extra : List String}
    (h : (r.names ++ extra).Nodup) :
    ofGlobals r extra container = .ok (globalTree container (r.names ++ extra)) := by
  have hRun : _ = EStateM.Result.ok () _ := forM_addGlobal_eq_ok container [] h
  rw [ofGlobals, finish]
  exact hRun ▸ rfl

theorem Regrown.globals {before after : List String} (hSub : ∀ name ∈ before, name ∈ after)
    (hOld : (globalTree container before).WellFormed) (hNew : (globalTree container after).WellFormed) :
    Regrown container before after (globalTree container before) (globalTree container after) where
  sub := hSub
  old := hOld
  new := hNew
  frame := by
    refine ⟨rfl, fun s => ?_, fun s => ?_⟩ <;> cases s <;> rfl
  oldVisible := rfl
  newVisible := rfl
  visible s hs := by
    obtain ⟨r, rfl⟩ := Nat.exists_eq_succ_of_ne_zero hs
    rfl
  oldGlobal b name hb := by
    rw [globalTree, List.getElem?_toArray, List.getElem?_map, hb, Option.map_some]
  newGlobal b name hb := by
    rw [globalTree, List.getElem?_toArray, List.getElem?_map, hb, Option.map_some]
  declared k := by
    rw [Array.getElem?_eq_none (by simp [globalTree]), Array.getElem?_eq_none (by simp [globalTree])]
    rfl
  size := ⟨0, by simp [globalTree], by simp [globalTree]⟩

theorem ofGlobals_regrown {r r' : Registry} {extra : List String} {t : Tree}
    (hNames : ∀ name ∈ r.names, name ∈ r'.names) (hExtra : ∀ name ∈ extra, name ∉ r'.names)
    (h : ofGlobals r extra container = .ok t) : ∃ u, ofGlobals r' extra container = .ok u ∧
      Regrown container (r.names ++ extra) (r'.names ++ extra) t u := by
  have hWell := WellFormed.ofGlobals h
  obtain rfl := ofGlobals_eq_ok h
  have hDistinct : (r'.names ++ extra).Nodup := by
    refine List.nodup_append.mpr ⟨r'.ascending.imp String.ne_of_lt, ?_, ?_⟩
    · exact (List.nodup_append.mp hWell.nodup_of_globalTree).2.1
    · rintro name hName _ hMem rfl
      exact hExtra name hMem hName
  have hNew := ofGlobals_of_nodup container hDistinct
  refine ⟨_, hNew, Regrown.globals ?_ hWell (WellFormed.ofGlobals hNew)⟩
  intro name hMem
  rw [List.mem_append] at hMem ⊢
  exact hMem.imp_left (hNames name)

end Tree

end TreeLowering
