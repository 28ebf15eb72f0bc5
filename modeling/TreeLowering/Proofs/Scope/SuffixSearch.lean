import Mathlib.Data.Finset.Card
import Mathlib.Data.PFun
import Mathlib.Order.Bounds.Basic
import TreeLowering.Proofs.Scope.FreshName

/-! # The search for a free suffix

`firstFreeSuffix` tries one number more than there are used names. Here numbers are tried without such a
bound: the search ends all the same, at the same name, since suffixed names are all different and the used
ones among them run out. -/
namespace TreeLowering
set_option autoImplicit false

/-- One round: the suffixed name if it is free, else the next number. -/
def searchRound (candidate : String) (used : List String) (n : Nat) : String ⊕ Nat :=
  if suffixed candidate n ∈ used then .inr (n + 1) else .inl (suffixed candidate n)

/-- Rounds without a bound, from a number on; only a search that ends has a value. -/
def searchFrom (candidate : String) (used : List String) : PFun Nat String :=
  PFun.fix fun n => Part.some (searchRound candidate used n)

/-- The choice of a name by a search without a bound. -/
def searchName (candidate : String) (used : List String) : Part String :=
  if candidate ∉ used ∧ isReserved candidate = false then Part.some candidate
  else searchFrom candidate used 1

section
variable {candidate : String} {used : List String}

theorem inl_mem_searchRound_iff {n : Nat} {name : String} :
    .inl name ∈ Part.some (searchRound candidate used n) ↔
      suffixed candidate n ∉ used ∧ suffixed candidate n = name := by
  rw [Part.mem_some_iff, searchRound]
  split <;> simp_all [eq_comm]

theorem inr_mem_searchRound_iff {n next : Nat} :
    .inr next ∈ Part.some (searchRound candidate used n) ↔ suffixed candidate n ∈ used ∧ n + 1 = next := by
  rw [Part.mem_some_iff, searchRound]
  split <;> simp_all [eq_comm]

theorem mem_searchFrom_of_free {n : Nat} (h : suffixed candidate n ∉ used) :
    suffixed candidate n ∈ searchFrom candidate used n := by
  apply PFun.fix_stop
  exact inl_mem_searchRound_iff.mpr ⟨h, rfl⟩

theorem searchFrom_of_used {n : Nat} (h : suffixed candidate n ∈ used) :
    searchFrom candidate used n = searchFrom candidate used (n + 1) := by
  apply PFun.fix_fwd_eq
  exact inr_mem_searchRound_iff.mpr ⟨h, rfl⟩

/-- Numbers whose names are used are passed over. -/
theorem searchFrom_eq_add {n k : Nat} (h : ∀ m < k, suffixed candidate (n + m) ∈ used) :
    searchFrom candidate used n = searchFrom candidate used (n + k) := by
  induction k with
  | zero => rfl
  | succ k ih =>
    rw [ih fun m hm => h m (Nat.lt_succ_of_lt hm), searchFrom_of_used (h k (Nat.lt_succ_self k)), Nat.add_assoc]

/-- A search ends just when it comes to a free name, and its value is the first one. -/
theorem mem_searchFrom_iff {n : Nat} {name : String} :
    name ∈ searchFrom candidate used n ↔
      ∃ k, (∀ m < k, suffixed candidate (n + m) ∈ used) ∧ suffixed candidate (n + k) ∉ used ∧
        suffixed candidate (n + k) = name := by
  constructor
  · intro h
    -- Induction on the rounds, from the last one back.
    refine PFun.fixInduction' h ?_ ?_
    · intro n hRound
      obtain ⟨hFree, hName⟩ := inl_mem_searchRound_iff.mp hRound
      exact ⟨0, fun m hm => absurd hm (Nat.not_lt_zero m), hFree, hName⟩
    · rintro n next - hRound ⟨k, hBefore, hFree, hName⟩
      obtain ⟨hUsed, rfl⟩ := inr_mem_searchRound_iff.mp hRound
      have hShift : ∀ m, n + 1 + m = n + (m + 1) := fun m => by omega
      simp only [hShift] at hBefore hFree hName
      refine ⟨k + 1, fun m hm => ?_, hFree, hName⟩
      cases m with
      | zero => exact hUsed
      | succ m => exact hBefore m (Nat.lt_of_succ_lt_succ hm)
  · rintro ⟨k, hBefore, hFree, rfl⟩
    rw [searchFrom_eq_add hBefore]
    exact mem_searchFrom_of_free hFree

/-- Suffixed names are all different, so no more of them are used than there are used names. -/
theorem le_card_of_suffixes_used {n : Nat} (h : ∀ m < n, suffixed candidate (m + 1) ∈ used) :
    n ≤ used.toFinset.card := by
  have hMaps : ∀ m ∈ Finset.range n, suffixed candidate (m + 1) ∈ used.toFinset := by
    intro m hm
    exact List.mem_toFinset.mpr (h m (Finset.mem_range.mp hm))
  have hInj : Set.InjOn (fun m => suffixed candidate (m + 1)) (Finset.range n) := by
    intro k _ m _ hEq
    exact Nat.succ_injective (suffixed_inj hEq).2
  simpa using Finset.card_le_card_of_injOn _ hMaps hInj

theorem searchFrom_one (candidate : String) (used : List String) :
    searchFrom candidate used 1 = Part.some (firstFreeSuffix candidate used) := by
  obtain ⟨n, -, hValue, hFree, hBefore⟩ := firstFreeSuffix_spec candidate used
  refine Part.eq_some_iff.mpr (mem_searchFrom_iff.mpr ⟨n, fun m hm => ?_, ?_, ?_⟩)
  · rw [Nat.add_comm]
    exact hBefore m hm
  · rwa [Nat.add_comm]
  · rw [hValue, Nat.add_comm]

theorem firstFreeSuffix_isLeast (candidate : String) (used : List String) :
    ∃ n, IsLeast {n | 1 ≤ n ∧ suffixed candidate n ∉ used} n ∧ n ≤ used.toFinset.card + 1 ∧
      firstFreeSuffix candidate used = suffixed candidate n := by
  obtain ⟨n, -, hValue, hFree, hBefore⟩ := firstFreeSuffix_spec candidate used
  refine ⟨n + 1, ⟨⟨Nat.le_add_left 1 n, hFree⟩, ?_⟩, ?_, hValue⟩
  · rintro m ⟨hPos, hmFree⟩
    obtain ⟨m, rfl⟩ := Nat.exists_eq_add_of_le' hPos
    by_contra hLess
    exact hmFree (hBefore m (by omega))
  · exact Nat.succ_le_succ (le_card_of_suffixes_used hBefore)

end

/-- The search without a bound ends for every candidate and all used names, at the name that is chosen. This
is the candidate if it is neither used nor reserved, else the candidate with the least number whose name is
free, and this number exceeds the number of used names by one at most. The name is free and not reserved. -/
theorem uniqueName_is_least_free (candidate : String) (used : List String) :
    searchName candidate used = Part.some (uniqueName candidate used) ∧
      (if candidate ∉ used ∧ isReserved candidate = false then uniqueName candidate used = candidate
        else ∃ n, IsLeast {n | 1 ≤ n ∧ suffixed candidate n ∉ used} n ∧ n ≤ used.toFinset.card + 1 ∧
          uniqueName candidate used = suffixed candidate n) ∧
      uniqueName candidate used ∉ used ∧ isReserved (uniqueName candidate used) = false := by
  have hFresh := uniqueName_not_mem candidate used
  have hNotReserved := uniqueName_not_reserved candidate used
  by_cases hFree : candidate ∉ used ∧ isReserved candidate = false
  · have hName := uniqueName_of_free hFree.1 hFree.2
    exact ⟨by rw [searchName, if_pos hFree, hName], by rwa [if_pos hFree], hFresh, hNotReserved⟩
  · have hTaken : candidate ∈ used ∨ isReserved candidate = true := by
      simpa [imp_iff_not_or] using hFree
    have hName := uniqueName_of_taken hTaken
    refine ⟨by rw [searchName, if_neg hFree, searchFrom_one, hName], ?_, hFresh, hNotReserved⟩
    rw [if_neg hFree, hName]
    exact firstFreeSuffix_isLeast candidate used

end TreeLowering
