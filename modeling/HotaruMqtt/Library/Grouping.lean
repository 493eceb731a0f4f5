import Mathlib.Data.List.Basic
import Mathlib.Data.List.Nodup

/-!
# Lists grouped by a table of keys

The elements of a list are collected key by key, in the order of a table of keys. Every element
keeps its place among those with the same key. Grouping only permutes the list, and it leaves a list
alone that already follows the table.
-/

namespace HotaruMqtt.Library.Grouping

variable {α κ : Type}

/-- A list in which nothing that passes a test follows something that does not. -/
theorem filter_append_filter_not {test : α → Bool} {list : List α}
    (h : list.Pairwise fun a b ↦ test b = true → test a = true) :
    list.filter test ++ list.filter (fun a ↦ !test a) = list := by
  induction list with
  | nil => rfl
  | cons a list ih =>
    obtain ⟨hfirst, hrest⟩ := List.pairwise_cons.mp h
    cases htest : test a with
    | true =>
      rw [List.filter_cons_of_pos htest, List.filter_cons_of_neg (by simp [htest]),
        List.cons_append, ih hrest]
    | false =>
      have hnone : list.filter test = [] := by
        rw [List.filter_eq_nil_iff]
        intro b hb hpasses
        rw [hfirst b hb hpasses] at htest
        cases htest
      have hall : list.filter (fun a ↦ !test a) = list := by
        have hsplit := ih hrest
        rwa [hnone, List.nil_append] at hsplit
      rw [List.filter_cons_of_neg (by simp [htest]), hnone, List.nil_append,
        List.filter_cons_of_pos (by simp [htest]), hall]

variable [DecidableEq κ] (key : α → κ) {keys : List κ}

/-- The groups of later keys do not depend on the elements of an earlier one. -/
theorem flatMap_filter_filter_not {k : κ} (hnotin : k ∉ keys) (list : List α) :
    (keys.flatMap fun k' ↦ (list.filter fun a ↦ !decide (key a = k)).filter fun a ↦ key a = k') =
      keys.flatMap fun k' ↦ list.filter fun a ↦ key a = k' := by
  apply List.flatMap_congr
  intro k' hk'
  rw [List.filter_filter]
  apply List.filter_congr
  intro a _
  by_cases hkey : key a = k'
  · have hne : ¬ k' = k := fun heq ↦ hnotin (heq ▸ hk')
    simp [hkey, hne]
  · simp [hkey]

theorem mem_filter_not_iff {k : κ} {list : List α} {a : α} :
    a ∈ list.filter (fun a ↦ !decide (key a = k)) ↔ a ∈ list ∧ key a ≠ k := by
  simp

/-- Grouping only permutes the elements whose keys are in the table. -/
theorem flatMap_filter_perm (hnodup : keys.Nodup) (list : List α) :
    (keys.flatMap fun k ↦ list.filter fun a ↦ key a = k).Perm
      (list.filter fun a ↦ key a ∈ keys) := by
  induction keys generalizing list with
  | nil => simp
  | cons k keys ih =>
    obtain ⟨hnotin, hnodup⟩ := List.nodup_cons.mp hnodup
    let rest := list.filter fun a ↦ !decide (key a = k)
    have hrest : rest.filter (fun a ↦ key a ∈ keys) =
        (list.filter fun a ↦ key a ∈ k :: keys).filter fun a ↦ !decide (key a = k) := by
      rw [List.filter_filter, List.filter_filter]
      apply List.filter_congr
      intro a _
      by_cases hkey : key a = k <;> simp [hkey]
    have hfirst : list.filter (fun a ↦ key a = k) =
        (list.filter fun a ↦ key a ∈ k :: keys).filter fun a ↦ key a = k := by
      rw [List.filter_filter]
      apply List.filter_congr
      intro a _
      by_cases hkey : key a = k <;> simp [hkey]
    have hperm := ih hnodup rest
    rw [flatMap_filter_filter_not key hnotin, hrest] at hperm
    rw [List.flatMap_cons, hfirst]
    exact (hperm.append_left _).trans
      (List.filter_append_perm _ (list.filter fun a ↦ key a ∈ k :: keys))

/-- A list that follows the table is left alone. -/
theorem flatMap_filter_of_sorted (hnodup : keys.Nodup) {list : List α}
    (hkeys : ∀ a ∈ list, key a ∈ keys)
    (hsorted : list.Pairwise fun a b ↦ keys.idxOf (key a) ≤ keys.idxOf (key b)) :
    (keys.flatMap fun k ↦ list.filter fun a ↦ key a = k) = list := by
  induction keys generalizing list with
  | nil =>
    cases list with
    | nil => rfl
    | cons a list => exact absurd (hkeys a List.mem_cons_self) List.not_mem_nil
  | cons k keys ih =>
    obtain ⟨hnotin, hnodup⟩ := List.nodup_cons.mp hnodup
    have hfirst : list.filter (fun a ↦ key a = k) ++
        list.filter (fun a ↦ !decide (key a = k)) = list := by
      apply filter_append_filter_not
      refine hsorted.imp ?_
      intro a b hle hkey
      rw [List.idxOf_cons_eq keys (of_decide_eq_true hkey).symm, Nat.le_zero] at hle
      apply decide_eq_true
      by_contra hne
      rw [List.idxOf_cons_ne keys (Ne.symm hne)] at hle
      cases hle
    have hrest : (keys.flatMap fun k' ↦
        (list.filter fun a ↦ !decide (key a = k)).filter fun a ↦ key a = k') =
          list.filter fun a ↦ !decide (key a = k) := by
      apply ih hnodup
      · intro a ha
        obtain ⟨hmem, hne⟩ := (mem_filter_not_iff key).mp ha
        exact (List.mem_cons.mp (hkeys a hmem)).resolve_left hne
      · refine (hsorted.filter _).imp_of_mem ?_
        intro a b ha hb hle
        rw [List.idxOf_cons_ne keys ((mem_filter_not_iff key).mp ha).2.symm,
          List.idxOf_cons_ne keys ((mem_filter_not_iff key).mp hb).2.symm] at hle
        exact Nat.le_of_succ_le_succ hle
    calc
      _ = list.filter (fun a ↦ key a = k) ++
          keys.flatMap fun k' ↦ list.filter fun a ↦ key a = k' := List.flatMap_cons
      _ = list.filter (fun a ↦ key a = k) ++ list.filter fun a ↦ !decide (key a = k) := by
        rw [← flatMap_filter_filter_not key hnotin, hrest]
      _ = list := hfirst

end HotaruMqtt.Library.Grouping
