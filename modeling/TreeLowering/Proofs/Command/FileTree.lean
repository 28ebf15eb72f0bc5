import Mathlib.Logic.Relation
import TreeLowering.Command.FileTree
import TreeLowering.Proofs.Sequence

/-! # Changes of a tree of files

A build makes directories and writes files, and takes nothing away. So a path that leads somewhere
leads there for the rest of the build, and a file holds what it held before or what was written to it. -/
namespace TreeLowering.FileTree
set_option autoImplicit false

open Relation

theorem lookup_filter_of_ne {nodes : List (List String × FileNode)} {names other : List String}
    (h : names ≠ other) : (nodes.filter fun entry => entry.1 != names).lookup other = nodes.lookup other := by
  induction nodes with
  | nil => rfl
  | cons entry nodes ih =>
    obtain ⟨key, n⟩ := entry
    by_cases hKey : key = names
    · subst hKey
      rw [List.filter_cons_of_neg (by simp), ih, List.lookup_cons, beq_false_of_ne h.symm]
    · rw [List.filter_cons_of_pos (by simpa using hKey), List.lookup_cons, List.lookup_cons, ih]

theorem node?_put_of_ne (t : FileTree) {names other : List String} (n : FileNode) (h : names ≠ other) :
    (t.put names n).node? other = t.node? other := by
  rw [node?, node?, put]
  split
  · rfl
  · rw [List.lookup_cons, beq_false_of_ne h.symm, lookup_filter_of_ne h]

theorem ne_nil_of_node? {t : FileTree} {names : List String} (h : t.node? names ≠ some .directory) :
    names ≠ [] := by
  rintro rfl
  exact h rfl

/-- One change: a new directory, or a text that is written at a location where it may be. -/
inductive Change (W : List String → String → Prop) : FileTree → FileTree → Prop where
  | directory {t : FileTree} {names : List String} (hFree : t.node? names = none) :
    Change W t (t.put names .directory)
  | file {t : FileTree} {names : List String} {s : String} (hText : W names s)
    (hPlain : t.node? names ≠ some .directory) : Change W t (t.put names (.file (.text s)))

variable {W : List String → String → Prop} {t u : FileTree}

theorem Change.mono {V : List String → String → Prop} (hV : ∀ names s, V names s → W names s)
    (h : Change V t u) : Change W t u := by
  cases h with
  | directory hFree => exact .directory hFree
  | file hText hPlain => exact .file (hV _ _ hText) hPlain

theorem changes_mono {V : List String → String → Prop} (hV : ∀ names s, V names s → W names s)
    (h : ReflTransGen (Change V) t u) : ReflTransGen (Change W) t u :=
  ReflTransGen.mono (fun _ _ => Change.mono hV) t u h

/-! ## What changes keep -/

theorem Change.workingDirectory_eq (h : Change W t u) : u.workingDirectory = t.workingDirectory := by
  cases h <;> rfl

/-- At a location a change leaves things as they are, makes a directory where nothing was, or writes a
file where no directory was. -/
theorem Change.node?_cases (h : Change W t u) (names : List String) :
    u.node? names = t.node? names ∨ (t.node? names = none ∧ u.node? names = some .directory) ∨
      (t.node? names ≠ some .directory ∧ ∃ s, W names s ∧ u.node? names = some (.file (.text s))) := by
  cases h with
  | @directory made hFree =>
    by_cases hEq : made = names
    · subst hEq
      exact .inr (.inl ⟨hFree, node?_put_self _ _ (ne_nil_of_node? (t := t) (by simp [hFree]))⟩)
    · exact .inl (node?_put_of_ne _ _ hEq)
  | @file written s hText hPlain =>
    by_cases hEq : written = names
    · subst hEq
      exact .inr (.inr ⟨hPlain, s, hText, node?_put_self _ _ (ne_nil_of_node? hPlain)⟩)
    · exact .inl (node?_put_of_ne _ _ hEq)

theorem Change.directory_kept (h : Change W t u) {names : List String}
    (hBefore : t.node? names = some .directory) : u.node? names = some .directory := by
  obtain hSame | ⟨_, hMade⟩ | ⟨hPlain, _⟩ := h.node?_cases names
  · rw [hSame, hBefore]
  · exact hMade
  · exact absurd hBefore hPlain

theorem Change.file_kept (h : Change W t u) {names : List String} {content : Content}
    (hBefore : t.node? names = some (.file content)) : ∃ content', u.node? names = some (.file content') := by
  obtain hSame | ⟨hFree, _⟩ | ⟨_, s, _, hWritten⟩ := h.node?_cases names
  · exact ⟨content, hSame.trans hBefore⟩
  · rw [hBefore] at hFree
    cases hFree
  · exact ⟨.text s, hWritten⟩

/-- A file behind a change was there before, or its text has been written. -/
theorem Change.file_origin (h : Change W t u) {names : List String} {content : Content}
    (hAfter : u.node? names = some (.file content)) :
    t.node? names = some (.file content) ∨ ∃ s, W names s ∧ content = .text s := by
  obtain hSame | ⟨_, hMade⟩ | ⟨_, s, hText, hWritten⟩ := h.node?_cases names
  · exact .inl (hSame.symm.trans hAfter)
  · rw [hMade] at hAfter
    cases hAfter
  · rw [hWritten] at hAfter
    cases hAfter
    exact .inr ⟨s, hText, rfl⟩

/-! ## What runs of changes keep -/

theorem changes_workingDirectory_eq (h : ReflTransGen (Change W) t u) :
    u.workingDirectory = t.workingDirectory := by
  induction h with
  | refl => rfl
  | tail _ hStep ih => rw [hStep.workingDirectory_eq, ih]

theorem changes_directory_kept (h : ReflTransGen (Change W) t u) {names : List String}
    (hBefore : t.node? names = some .directory) : u.node? names = some .directory := by
  induction h with
  | refl => exact hBefore
  | tail _ hStep ih => exact hStep.directory_kept ih

theorem changes_file_kept (h : ReflTransGen (Change W) t u) {names : List String} {content : Content}
    (hBefore : t.node? names = some (.file content)) : ∃ content', u.node? names = some (.file content') := by
  induction h with
  | refl => exact ⟨content, hBefore⟩
  | tail _ hStep ih =>
    obtain ⟨content', hMiddle⟩ := ih
    exact hStep.file_kept hMiddle

theorem changes_file_origin (h : ReflTransGen (Change W) t u) {names : List String} {content : Content}
    (hAfter : u.node? names = some (.file content)) :
    t.node? names = some (.file content) ∨ ∃ s, W names s ∧ content = .text s := by
  induction h with
  | refl => exact .inl hAfter
  | tail _ hStep ih =>
    rcases hStep.file_origin hAfter with hMiddle | hWritten
    · exact ih hMiddle
    · exact .inr hWritten

theorem enter_eq_ok {names found : List String} (h : t.enter names = .ok found) :
    found = names ∧ t.node? names = some .directory := by
  rw [enter] at h
  split at h
  · rename_i hNode
    cases h
    exact ⟨rfl, hNode⟩
  · cases h
  · cases h

theorem enter_of_directory {names : List String} (h : t.node? names = some .directory) :
    t.enter names = .ok names := by
  rw [enter, h]
  rfl

theorem changes_follow (h : ReflTransGen (Change W) t u) {parts names found : List String}
    (hFollow : t.follow names parts = .ok found) : u.follow names parts = .ok found := by
  induction parts generalizing names with
  | nil => exact hFollow
  | cons part rest ih =>
    rw [follow] at hFollow ⊢
    obtain ⟨_, hEnter, hRest⟩ := exists_of_bind_eq_ok hFollow
    obtain ⟨rfl, hDirectory⟩ := enter_eq_ok hEnter
    rw [enter_of_directory (changes_directory_kept h hDirectory)]
    revert hRest
    dsimp only [bind, Except.bind]
    split
    · exact ih
    · exact ih
    · exact ih
    · split
      · exact id
      · exact ih

/-- What leads to a location stays, so a path keeps its location. -/
theorem changes_locate (h : ReflTransGen (Change W) t u) {p : Path} {names : List String}
    (hLocate : t.locate p = .ok names) : u.locate p = .ok names := by
  rw [locate] at hLocate ⊢
  rw [changes_workingDirectory_eq h]
  revert hLocate
  split
  · exact id
  · split
    · exact id
    · split
      · exact changes_follow h
      · exact changes_follow h

/-! ## Operations -/

theorem read_eq_ok_iff {p : Path} {s : String} :
    t.read p = .ok s ↔ ∃ names, t.locate p = .ok names ∧ t.node? names = some (.file (.text s)) := by
  constructor
  · intro h
    obtain ⟨n, hFind, hText⟩ := exists_of_bind_eq_ok h
    obtain ⟨names, hLocate, hNode⟩ := exists_of_bind_eq_ok hFind
    split at hNode
    · rename_i hAt
      cases hNode
      split at hText
      · cases hText
        exact ⟨names, hLocate, hAt⟩
      · cases hText
      · cases hText
    · cases hNode
  · rintro ⟨names, hLocate, hNode⟩
    simp [read, find, hLocate, hNode, bind, Except.bind, pure, Except.pure]

/-- A file that could be read before still can; its text is the old one or has been written. -/
theorem changes_read (h : ReflTransGen (Change W) t u) {p : Path} {s s' : String} (hBefore : t.read p = .ok s)
    (hAfter : u.read p = .ok s') : s' = s ∨ ∃ names, W names s' := by
  obtain ⟨names, hLocate, hNode⟩ := read_eq_ok_iff.mp hBefore
  obtain ⟨names', hLocate', hNode'⟩ := read_eq_ok_iff.mp hAfter
  obtain rfl : names = names' := Except.ok.inj ((changes_locate h hLocate).symm.trans hLocate')
  rcases changes_file_origin h hNode' with hSame | ⟨text, hText, hEq⟩
  · rw [hNode] at hSame
    cases hSame
    exact .inl rfl
  · cases hEq
    exact .inr ⟨names, hText⟩

theorem write_eq_ok {p : Path} {s : String} (h : t.write p s = .ok u) :
    ∃ names, t.locate p = .ok names ∧ t.node? names ≠ some .directory ∧ u = t.put names (.file (.text s)) := by
  rw [write] at h
  split at h
  · split at h
    · cases h
    · obtain ⟨_, _, hThrow⟩ := exists_of_bind_eq_ok h
      cases hThrow
  · obtain ⟨names, hLocate, hPut⟩ := exists_of_bind_eq_ok h
    split at hPut
    · cases hPut
    · rename_i hPlain
      cases hPut
      exact ⟨names, hLocate, hPlain, rfl⟩

theorem makeDirectory_change {p : Path} (h : t.makeDirectory p = .ok u) : Change (fun _ _ => False) t u := by
  obtain ⟨names, _, hPut⟩ := exists_of_bind_eq_ok h
  split at hPut
  · cases hPut
  · rename_i hFree
    cases hPut
    exact .directory hFree

theorem makeDirectoriesFrom_changes {fuel : Nat} {p : Path} (h : makeDirectoriesFrom fuel t p = .ok u) :
    ReflTransGen (Change fun _ _ => False) t u := by
  induction fuel generalizing t u p with
  | zero => exact .single (makeDirectory_change h)
  | succ fuel ih =>
    rw [makeDirectoriesFrom] at h
    split at h
    · rename_i hMade
      cases h
      exact .single (makeDirectory_change hMade)
    · split at h
      · -- The directories above come first, then this one unless they brought it along.
        have hLast {w : FileTree} (hw : (if w.isDirectory p then .ok w else w.makeDirectory p) = .ok u) :
            ReflTransGen (Change fun _ _ => False) w u := by
          split at hw
          · cases hw
            exact .refl
          · exact .single (makeDirectory_change hw)
        dsimp only at h
        split at h
        · exact hLast h
        · obtain ⟨w, hAbove, hRest⟩ := exists_of_bind_eq_ok h
          exact (ih hAbove).trans (hLast hRest)
      · cases h
    · split at h
      · cases h
        exact .refl
      · cases h

end TreeLowering.FileTree
