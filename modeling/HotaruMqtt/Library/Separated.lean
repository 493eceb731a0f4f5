import Mathlib.Data.List.Basic

/-!
# Lists cut at a separator

`List.splitOn` cuts a list at every occurrence of a separator and `List.intercalate` joins the
pieces again. The lemmas here relate a place in the list to a place in the list of pieces: what
stands before and behind an element of a piece, and when the piece begins or ends there.
-/

namespace HotaruMqtt.Library.Separated

variable {α : Type} {separator : α}

theorem mem_intercalate_iff {a : α} (h : a ≠ separator) (pieces : List (List α)) :
    a ∈ [separator].intercalate pieces ↔ ∃ piece ∈ pieces, a ∈ piece := by
  induction pieces with
  | nil => simp
  | cons piece pieces ih =>
    cases pieces with
    | nil => simp
    | cons piece' pieces =>
      rw [List.intercalate_cons_cons, List.mem_append, List.mem_append, ih]
      simp [h]

/-- Every piece but the first has a separator in front of it. -/
theorem intercalate_cons (piece : List α) (back : List (List α)) :
    [separator].intercalate (piece :: back) = piece ++ back.flatMap (separator :: ·) := by
  induction back generalizing piece with
  | nil => simp
  | cons piece' back ih =>
    rw [List.intercalate_cons_cons, ih, List.flatMap_cons]
    simp

/-- A separator follows every piece in front of a given one and precedes every piece behind it. -/
theorem intercalate_append_cons (front : List (List α)) (piece : List α) (back : List (List α)) :
    [separator].intercalate (front ++ piece :: back) =
      front.flatMap (· ++ [separator]) ++ (piece ++ back.flatMap (separator :: ·)) := by
  induction front with
  | nil => exact intercalate_cons piece back
  | cons first front ih =>
    rw [List.cons_append, List.intercalate_cons_of_ne_nil (by simp), ih, List.flatMap_cons]
    simp

variable [DecidableEq α]

/-- No separator is left inside a piece. -/
theorem not_mem_of_mem_splitOn {list piece : List α} (h : piece ∈ list.splitOn separator) :
    separator ∉ piece := by
  induction list generalizing piece with
  | nil =>
    rw [List.splitOn_nil, List.mem_singleton] at h
    rw [h]
    exact List.not_mem_nil
  | cons a list ih =>
    rw [List.splitOn_cons_eq_if_modifyHead] at h
    split at h
    · rcases List.mem_cons.mp h with rfl | hmem
      · exact List.not_mem_nil
      · exact ih hmem
    · rename_i hne
      cases hsplit : list.splitOn separator with
      | nil => exact absurd hsplit (List.splitOn_ne_nil _ _)
      | cons first rest =>
        rw [hsplit] at h ih
        rcases List.mem_cons.mp h with rfl | hmem
        · rw [List.mem_cons, not_or]
          exact ⟨fun heq ↦ hne (by simp [heq]), ih List.mem_cons_self⟩
        · exact ih (List.mem_cons_of_mem _ hmem)

/-- The list around one of its pieces. -/
theorem eq_of_splitOn_eq {list piece : List α} {front back : List (List α)}
    (h : list.splitOn separator = front ++ piece :: back) :
    list = front.flatMap (· ++ [separator]) ++ (piece ++ back.flatMap (separator :: ·)) := by
  rw [← intercalate_append_cons, ← h, List.intercalate_splitOn]

/-- The piece around an element that is not a separator. -/
theorem splitOn_append_cons {a : α} (h : a ≠ separator) (before after : List α) :
    ∃ front first last back,
      (before ++ a :: after).splitOn separator = front ++ (first ++ a :: last) :: back ∧
      before = front.flatMap (· ++ [separator]) ++ first ∧
      after = last ++ back.flatMap (separator :: ·) := by
  obtain ⟨front, first, hbefore⟩ := (List.eq_nil_or_concat (before.splitOn separator)).resolve_left
    (List.splitOn_ne_nil _ _)
  obtain ⟨last, back, hafter⟩ := List.exists_cons_of_ne_nil (List.splitOn_ne_nil separator after)
  rw [List.concat_eq_append] at hbefore
  have hfront (piece : List α) (hmem : piece ∈ front ++ [first]) : separator ∉ piece :=
    not_mem_of_mem_splitOn (hbefore ▸ hmem)
  have hback (piece : List α) (hmem : piece ∈ last :: back) : separator ∉ piece :=
    not_mem_of_mem_splitOn (hafter ▸ hmem)
  have heqBefore : before = front.flatMap (· ++ [separator]) ++ first := by
    have hjoin := eq_of_splitOn_eq hbefore
    rwa [List.flatMap_nil, List.append_nil] at hjoin
  have heqAfter : after = last ++ back.flatMap (separator :: ·) := by
    rw [← intercalate_cons, ← hafter, List.intercalate_splitOn]
  have hjoined : before ++ a :: after =
      [separator].intercalate (front ++ (first ++ a :: last) :: back) := by
    rw [intercalate_append_cons, heqBefore, heqAfter]
    simp
  have hmiddle : separator ∉ first ++ a :: last := by
    have hfirst := hfront first (by simp)
    have hlast := hback last (by simp)
    simp [hfirst, hlast, Ne.symm h]
  refine ⟨front, first, last, back, ?_, heqBefore, heqAfter⟩
  rw [hjoined]
  apply List.splitOn_intercalate
  · intro piece hmem
    rcases List.mem_append.mp hmem with hmem | hmem
    · exact hfront piece (by simp [hmem])
    · rcases List.mem_cons.mp hmem with rfl | hmem
      · exact hmiddle
      · exact hback piece (by simp [hmem])
  · simp

omit [DecidableEq α] in
/-- What stands before a place is empty or ends with a separator exactly if a piece begins there. -/
theorem begins_iff {first : List α} (h : separator ∉ first) (front : List (List α)) :
    (front.flatMap (· ++ [separator]) ++ first = [] ∨
      ∃ rest, front.flatMap (· ++ [separator]) ++ first = rest ++ [separator]) ↔ first = [] := by
  constructor
  · intro hends
    rcases List.eq_nil_or_concat first with hfirst | ⟨init, a, hfirst⟩
    · exact hfirst
    · rw [List.concat_eq_append] at hfirst
      rcases hends with hempty | ⟨rest, hrest⟩
      · exact (List.append_eq_nil_iff.mp hempty).2
      · rw [hfirst, ← List.append_assoc] at hrest
        obtain rfl : a = separator := by simpa using (List.append_inj' hrest rfl).2
        exact absurd (by simp [hfirst]) h
  · rintro rfl
    rw [List.append_nil]
    rcases List.eq_nil_or_concat front with rfl | ⟨init, piece, rfl⟩
    · exact .inl rfl
    · refine .inr ⟨init.flatMap (· ++ [separator]) ++ piece, ?_⟩
      simp

omit [DecidableEq α] in
/-- What stands behind a place is empty or begins with a separator exactly if a piece ends there. -/
theorem ends_iff {last : List α} (h : separator ∉ last) (back : List (List α)) :
    (last ++ back.flatMap (separator :: ·) = [] ∨
      ∃ rest, last ++ back.flatMap (separator :: ·) = separator :: rest) ↔ last = [] := by
  cases last with
  | nil =>
    cases back with
    | nil => simp
    | cons piece back => simp
  | cons a last =>
    rw [List.mem_cons, not_or] at h
    simp [Ne.symm h.1]

end HotaruMqtt.Library.Separated
