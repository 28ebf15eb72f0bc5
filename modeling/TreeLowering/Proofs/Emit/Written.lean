import TreeLowering.Proofs.Scope.Spelling
import TreeLowering.Proofs.Sequence

/-! # What emissions write

A sink is only ever added to. So an emission can be told by the kind of text that it adds, and a
sequence by the kinds of its parts. -/
namespace TreeLowering
set_option autoImplicit false

namespace Sink

variable {P Q R : String → Prop} {k k' k'' : Sink}

/-- The second sink has the text of the first one, and behind it a text of that kind. -/
def Adds (P : String → Prop) (k k' : Sink) : Prop := ∃ text, k'.text = k.text ++ text ∧ P text

theorem adds_nothing (h : P "") (hText : k'.text = k.text) : k.Adds P k' :=
  ⟨"", by rw [hText, String.append_empty], h⟩

theorem Adds.trans (h : k.Adds P k') (h' : k'.Adds Q k'') (hR : ∀ s t, P s → Q t → R (s ++ t)) :
    k.Adds R k'' := by
  obtain ⟨s, hs, hP⟩ := h
  obtain ⟨t, ht, hQ⟩ := h'
  exact ⟨s ++ t, by rw [ht, hs, String.append_assoc], hR s t hP hQ⟩

/-- The text of the first sink stands at the front of the second. -/
abbrev Extends : Sink → Sink → Prop := Adds fun _ => True

theorem extends_refl (k : Sink) : k.Extends k := adds_nothing trivial rfl

theorem Extends.trans (h : k.Extends k') (h' : k'.Extends k'') : k.Extends k'' :=
  Adds.trans h h' fun _ _ _ _ => trivial

theorem spelled_indentation {q : Char → Prop} (h : Spelled q k.unit) : Spelled q k.indentation := by
  intro c hc
  rw [indentation, String.toList_join, List.mem_flatMap] at hc
  obtain ⟨s, hs, hMem⟩ := hc
  rw [List.eq_of_mem_replicate hs] at hMem
  exact h c hMem

end Sink

namespace Emit

/-- Where the emission succeeds with a unit of that class, it keeps the unit and adds a text of that kind. -/
def Writes (q : Char → Prop) (P : String → Prop) (m : Emit Unit) : Prop :=
  ∀ k k', Spelled q k.unit → m k = .ok () k' → k'.unit = k.unit ∧ k.Adds P k'

namespace Writes

variable {q : Char → Prop} {P Q R : String → Prop} {m n : Emit Unit}

theorem print {s : String} (h : P s) : Writes q P (print s) := by
  rintro k _ _ ⟨⟩
  exact ⟨rfl, s, rfl, h⟩

theorem pure (h : P "") : Writes q P (pure ()) := by
  rintro k _ _ ⟨⟩
  exact ⟨rfl, Sink.adds_nothing h rfl⟩

theorem printIndent (h : ∀ s, Spelled q s → P s) : Writes q P printIndent := by
  rintro k _ hUnit ⟨⟩
  exact ⟨rfl, k.indentation, rfl, h _ (Sink.spelled_indentation hUnit)⟩

theorem indentUnless (h : ∀ s, Spelled q s → P s) (omitted : Bool) : Writes q P (indentUnless omitted) := by
  cases omitted with
  | true => exact .pure (h "" (by simp [Spelled]))
  | false => exact .printIndent h

theorem indent (h : P "") : Writes q P indent := by
  rintro k _ _ ⟨⟩
  exact ⟨rfl, Sink.adds_nothing h rfl⟩

theorem outdent (h : P "") : Writes q P outdent := by
  rintro ⟨unit, level, text⟩ k' _ hRun
  cases level with
  | zero => cases hRun
  | succ level =>
    cases hRun
    exact ⟨rfl, Sink.adds_nothing h rfl⟩

theorem seq (hm : Writes q P m) (hn : Writes q Q n) (h : ∀ s t, P s → Q t → R (s ++ t)) :
    Writes q R (m >>= fun _ => n) := by
  intro k k'' hUnit hRun
  obtain ⟨_, k', hFirst, hRest⟩ := exists_of_run_eq_ok hRun
  obtain ⟨hSame, hText⟩ := hm k k' hUnit hFirst
  obtain ⟨hSame', hText'⟩ := hn k' k'' (hSame ▸ hUnit) hRest
  exact ⟨hSame'.trans hSame, hText.trans hText' h⟩

theorem imp (hm : Writes q P m) (h : ∀ s, P s → Q s) : Writes q Q m := by
  intro k k' hUnit hRun
  obtain ⟨hSame, s, hs, hP⟩ := hm k k' hUnit hRun
  exact ⟨hSame, s, hs, h s hP⟩

theorem query {α : Type} {r : Result α} {f : α → Emit Unit} (h : ∀ x, r = .ok x → Writes q P (f x)) :
    Writes q P (Emit.query r >>= f) := by
  cases r with
  | ok x => exact h x rfl
  | error e =>
    rintro k k' _ ⟨⟩

end Writes
end Emit
end TreeLowering
