import Mathlib.Data.List.Nodup
import Mathlib.Data.List.Perm.Subperm
import TreeLowering.Scope.Naming

/-! # Fresh names: what the choice of a target name guarantees

A suffixed name ends in a dollar sign and digits, so it is no reserved word and tells its candidate
and its number. The choice depends on the set of used names alone. -/
namespace TreeLowering
set_option autoImplicit false

theorem dollar_not_mem_toDigits (n : Nat) : '$' ∉ Nat.toDigits 10 n := by
  intro h
  have hDigit := Nat.isDigit_of_mem_toDigits (by decide) (by decide) h
  revert hDigit
  decide

theorem toList_suffixed (candidate : String) (n : Nat) :
    (suffixed candidate n).toList = candidate.toList ++ '$' :: Nat.toDigits 10 n := by
  have hText : suffixed candidate n = candidate ++ "$" ++ n.repr := rfl
  simp [hText, String.toList_append, Nat.toList_repr]

/-- What follows the last dollar sign determines what is before it. -/
theorem append_dollar_inj {xs ys ds es : List Char} (hds : '$' ∉ ds) (hes : '$' ∉ es)
    (h : xs ++ '$' :: ds = ys ++ '$' :: es) : xs = ys ∧ ds = es := by
  rcases List.append_eq_append_iff.mp h with ⟨a, rfl, hRest⟩ | ⟨a, rfl, hRest⟩
  · cases a with
    | nil => simpa using hRest
    | cons c a =>
      obtain ⟨-, rfl⟩ := List.cons.inj hRest
      exact absurd (by simp) hds
  · cases a with
    | nil => simpa using hRest.symm
    | cons c a =>
      obtain ⟨-, rfl⟩ := List.cons.inj hRest
      exact absurd (by simp) hes

theorem suffixed_inj {c d : String} {m n : Nat} (h : suffixed c m = suffixed d n) : c = d ∧ m = n := by
  have hLists : c.toList ++ '$' :: Nat.toDigits 10 m = d.toList ++ '$' :: Nat.toDigits 10 n := by
    rw [← toList_suffixed, ← toList_suffixed, h]
  obtain ⟨hName, hDigits⟩ :=
    append_dollar_inj (dollar_not_mem_toDigits m) (dollar_not_mem_toDigits n) hLists
  refine ⟨String.toList_injective hName, ?_⟩
  simpa using congrArg (fun ds => Nat.ofDigitChars 10 ds 0) hDigits

theorem dollar_not_mem_of_reserved {name : String} (h : isReserved name = true) :
    '$' ∉ name.toList := by
  have hAll : ∀ word ∈ reservedWords, '$' ∉ word.toList := by decide
  exact hAll name (by simpa [isReserved] using h)

theorem suffixed_not_reserved (candidate : String) (n : Nat) :
    isReserved (suffixed candidate n) = false := by
  apply Bool.eq_false_iff.mpr
  intro h
  apply dollar_not_mem_of_reserved h
  simp [toList_suffixed]

theorem exists_free_suffix (candidate : String) (used : List String) :
    ∃ n ≤ used.length, suffixed candidate (n + 1) ∉ used := by
  -- Otherwise the list of used names would hold one more suffixed name than it has members.
  by_contra! hAll
  have hInj : Function.Injective fun n => suffixed candidate (n + 1) := by
    intro m n h
    have := (suffixed_inj h).2
    omega
  have hNodup : ((List.range (used.length + 1)).map fun n => suffixed candidate (n + 1)).Nodup :=
    List.Nodup.map hInj List.nodup_range
  have hSub : ((List.range (used.length + 1)).map fun n => suffixed candidate (n + 1)) ⊆ used := by
    intro name hName
    obtain ⟨n, hn, rfl⟩ := List.mem_map.mp hName
    exact hAll n (by simpa [Nat.lt_succ_iff] using hn)
  have hLength := (List.subperm_of_subset hNodup hSub).length_le
  simp only [List.length_map, List.length_range] at hLength
  omega

/-- The chosen suffix is free, and every smaller one is used. -/
theorem firstFreeSuffix_spec (candidate : String) (used : List String) :
    ∃ n ≤ used.length, firstFreeSuffix candidate used = suffixed candidate (n + 1) ∧
      suffixed candidate (n + 1) ∉ used ∧ ∀ m < n, suffixed candidate (m + 1) ∈ used := by
  have hFound : ∃ n, (List.range (used.length + 1)).find?
      (fun n => !used.contains (suffixed candidate (n + 1))) = some n := by
    obtain ⟨n, hn, hFree⟩ := exists_free_suffix candidate used
    refine Option.isSome_iff_exists.mp (List.find?_isSome.mpr ⟨n, ?_, ?_⟩)
    · simpa [Nat.lt_succ_iff] using hn
    · simpa using hFree
  obtain ⟨n, hn⟩ := hFound
  have hValue : firstFreeSuffix candidate used = suffixed candidate (n + 1) := by
    simp only [firstFreeSuffix, List.find?_map, Function.comp_def, hn, Option.map_some,
      Option.getD_some]
  obtain ⟨hFree, hn, hSmaller⟩ := List.find?_range_eq_some.mp hn
  refine ⟨n, by simpa [Nat.lt_succ_iff] using hn, hValue, by simpa using hFree, ?_⟩
  intro m hm
  simpa using hSmaller m hm

theorem uniqueName_of_free {candidate : String} {used : List String} (hUsed : candidate ∉ used)
    (hReserved : isReserved candidate = false) : uniqueName candidate used = candidate := by
  simp [uniqueName, hUsed, hReserved]

theorem uniqueName_of_taken {candidate : String} {used : List String}
    (h : candidate ∈ used ∨ isReserved candidate = true) :
    uniqueName candidate used = firstFreeSuffix candidate used := by
  rw [uniqueName, if_neg]
  rcases h with h | h <;> simp [h]

theorem uniqueName_not_mem (candidate : String) (used : List String) :
    uniqueName candidate used ∉ used := by
  by_cases h : candidate ∈ used ∨ isReserved candidate = true
  · obtain ⟨n, _, hValue, hFree, _⟩ := firstFreeSuffix_spec candidate used
    rw [uniqueName_of_taken h, hValue]
    exact hFree
  · rw [not_or, Bool.not_eq_true] at h
    rw [uniqueName_of_free h.1 h.2]
    exact h.1

theorem uniqueName_not_reserved (candidate : String) (used : List String) :
    isReserved (uniqueName candidate used) = false := by
  by_cases h : candidate ∈ used ∨ isReserved candidate = true
  · obtain ⟨n, _, hValue, _, _⟩ := firstFreeSuffix_spec candidate used
    rw [uniqueName_of_taken h, hValue]
    exact suffixed_not_reserved candidate (n + 1)
  · rw [not_or, Bool.not_eq_true] at h
    rw [uniqueName_of_free h.1 h.2]
    exact h.2

theorem firstFreeSuffix_eq {candidate : String} {used : List String} {n : Nat}
    (hFree : suffixed candidate (n + 1) ∉ used)
    (hSmaller : ∀ m < n, suffixed candidate (m + 1) ∈ used) :
    firstFreeSuffix candidate used = suffixed candidate (n + 1) := by
  obtain ⟨k, _, hValue, hkFree, hkSmaller⟩ := firstFreeSuffix_spec candidate used
  rcases Nat.lt_trichotomy k n with hk | rfl | hk
  · exact absurd (hSmaller k hk) hkFree
  · exact hValue
  · exact absurd (hkSmaller n hk) hFree

theorem uniqueName_congr {used used' : List String} (h : ∀ name, name ∈ used ↔ name ∈ used')
    (candidate : String) : uniqueName candidate used = uniqueName candidate used' := by
  by_cases hTaken : candidate ∈ used ∨ isReserved candidate = true
  · obtain ⟨n, _, hValue, hFree, hSmaller⟩ := firstFreeSuffix_spec candidate used'
    rw [uniqueName_of_taken hTaken, uniqueName_of_taken (hTaken.imp_left (h candidate).mp), hValue]
    exact firstFreeSuffix_eq (fun hMem => hFree ((h _).mp hMem)) fun m hm => (h _).mpr (hSmaller m hm)
  · rw [not_or, Bool.not_eq_true] at hTaken
    rw [uniqueName_of_free hTaken.1 hTaken.2,
      uniqueName_of_free (fun hMem => hTaken.1 ((h candidate).mpr hMem)) hTaken.2]

/-! ## Numbered names -/

/-- The name of the `k`-th slot of a function that wants a candidate, counted from zero. -/
def numbered (candidate : String) (k : Nat) : String :=
  if isReserved candidate then suffixed candidate (k + 1)
  else if k = 0 then candidate else suffixed candidate k

/-- Candidates that are told from suffixed names: those without a dollar sign, and the one of slots
that nothing names. -/
def IsPlain (candidate : String) : Prop :=
  '$' ∉ candidate.toList ∨ candidate = Tree.anonymousCandidate

theorem IsPlain.ne_suffixed {c : String} (h : IsPlain c) (d : String) (n : Nat) : c ≠ suffixed d n := by
  rintro rfl
  rcases h with h | h
  · exact h (by simp [toList_suffixed])
  · -- The last part of `$tmp` would have to be digits.
    have hLists : d.toList ++ '$' :: Nat.toDigits 10 n = [] ++ '$' :: ['t', 'm', 'p'] := by
      rw [← toList_suffixed, h]
      rfl
    have hDigits := (append_dollar_inj (dollar_not_mem_toDigits n) (by decide) hLists).2
    have hDigit : 't'.isDigit = true :=
      Nat.isDigit_of_mem_toDigits (b := 10) (n := n) (by decide) (by decide) (hDigits ▸ by simp)
    revert hDigit
    decide

theorem numbered_cases (c : String) (k : Nat) :
    (numbered c k = c ∧ isReserved c = false ∧ k = 0) ∨
      ∃ j, numbered c k = suffixed c j ∧ j = if isReserved c then k + 1 else k := by
  by_cases hReserved : isReserved c = true
  · exact .inr ⟨k + 1, by rw [numbered, if_pos hReserved], by rw [if_pos hReserved]⟩
  · rw [numbered, if_neg hReserved]
    by_cases hk : k = 0
    · exact .inl ⟨if_pos hk, by simpa using hReserved, hk⟩
    · exact .inr ⟨k, if_neg hk, by rw [if_neg hReserved]⟩

theorem numbered_inj {c d : String} (hc : IsPlain c) (hd : IsPlain d) {m n : Nat}
    (h : numbered c m = numbered d n) : c = d ∧ m = n := by
  rcases numbered_cases c m with ⟨hcm, _, hm⟩ | ⟨i, hcm, hi⟩ <;>
    rcases numbered_cases d n with ⟨hdn, _, hn⟩ | ⟨j, hdn, hj⟩ <;> rw [hcm, hdn] at h
  · exact ⟨h, hm.trans hn.symm⟩
  · exact absurd h (hc.ne_suffixed d j)
  · exact absurd h.symm (hd.ne_suffixed c i)
  · obtain ⟨rfl, rfl⟩ := suffixed_inj h
    rw [hi] at hj
    refine ⟨rfl, ?_⟩
    split at hj <;> omega

/-- If just the first `k` numbered names of a candidate are used, the next one is chosen. -/
theorem uniqueName_eq_numbered {c : String} {used : List String} {k : Nat}
    (h : ∀ m, numbered c m ∈ used ↔ m < k) : uniqueName c used = numbered c k := by
  by_cases hReserved : isReserved c = true
  · have hNumbered : ∀ m, numbered c m = suffixed c (m + 1) := fun m => by rw [numbered, if_pos hReserved]
    rw [uniqueName_of_taken (.inr hReserved), hNumbered]
    refine firstFreeSuffix_eq ?_ ?_
    · rw [← hNumbered, h]
      exact Nat.lt_irrefl k
    · intro m hm
      rwa [← hNumbered, h]
  · have hFirst : numbered c 0 = c := by rw [numbered, if_neg hReserved, if_pos rfl]
    have hNext : ∀ m, numbered c (m + 1) = suffixed c (m + 1) := fun m => by
      rw [numbered, if_neg hReserved, if_neg (Nat.succ_ne_zero m)]
    cases k with
    | zero =>
      rw [hFirst, uniqueName_of_free ?_ (by simpa using hReserved)]
      rw [← hFirst, h]
      exact Nat.lt_irrefl 0
    | succ k =>
      rw [uniqueName_of_taken (.inl ((hFirst ▸ h 0).mpr (Nat.succ_pos k))), hNext]
      refine firstFreeSuffix_eq ?_ ?_
      · rw [← hNext, h]
        exact Nat.lt_irrefl _
      · intro m hm
        rw [← hNext, h]
        omega

end TreeLowering
