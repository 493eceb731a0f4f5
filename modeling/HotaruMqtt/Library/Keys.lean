import Mathlib.Data.List.Nodup

/-!
# Lists in which no key occurs twice

Items may carry a key. If no key occurs twice in a list, an item is found by its key, and the keys
of a part of the list do not occur twice either.
-/

namespace HotaruMqtt.Library

variable {α β γ : Type} {key : α → Option β} {items : List α} {item : α} {value : β}

theorem nodup_keys_tail {first : α} (h : ((first :: items).filterMap key).Nodup) :
    (items.filterMap key).Nodup := by
  rw [← List.singleton_append, List.filterMap_append] at h
  exact h.of_append_right

theorem key_first_ne {first : α} (h : ((first :: items).filterMap key).Nodup) (hitem : item ∈ items)
    (hkey : key item = some value) : key first ≠ some value := by
  intro hfirst
  rw [List.filterMap_cons_some hfirst, List.nodup_cons] at h
  exact h.1 (List.mem_filterMap.mpr ⟨item, hitem, hkey⟩)

/-- An item is the only one with its key. -/
theorem eq_of_key_eq (hnodup : (items.filterMap key).Nodup) {other : α} (hitem : item ∈ items)
    (hother : other ∈ items) (hkey : key item = some value) (hkey' : key other = some value) :
    item = other := by
  induction items with
  | nil => cases hitem
  | cons first items ih =>
    cases hitem with
    | head =>
      cases hother with
      | head => rfl
      | tail _ hother => exact absurd hkey (key_first_ne hnodup hother hkey')
    | tail _ hitem =>
      cases hother with
      | head => exact absurd hkey' (key_first_ne hnodup hitem hkey)
      | tail _ hother => exact ih (nodup_keys_tail hnodup) hitem hother

/-- The keys of a part of the items are a part of their keys. -/
theorem filterMap_filterMap_sublist {f : α → Option γ} {g : γ → Option β}
    (h : ∀ item ∈ items, ∀ part value, f item = some part → g part = some value →
      key item = some value) :
    ((items.filterMap f).filterMap g).Sublist (items.filterMap key) := by
  induction items with
  | nil => exact List.Sublist.refl []
  | cons item items ih =>
    have ih := ih fun other hother ↦ h other (List.mem_cons_of_mem item hother)
    have hgrow : (items.filterMap key).Sublist ((item :: items).filterMap key) := by
      rw [← List.singleton_append, List.filterMap_append]
      exact List.sublist_append_right _ _
    cases hpart : f item with
    | none =>
      rw [List.filterMap_cons_none hpart]
      exact ih.trans hgrow
    | some part =>
      rw [List.filterMap_cons_some hpart]
      cases hvalue : g part with
      | none =>
        rw [List.filterMap_cons_none hvalue]
        exact ih.trans hgrow
      | some value =>
        have hkey := h item List.mem_cons_self part value hpart hvalue
        rw [List.filterMap_cons_some hvalue, List.filterMap_cons_some hkey]
        exact ih.cons_cons value

theorem nodup_of_length_le_one (h : items.length ≤ 1) : items.Nodup := by
  cases items with
  | nil => exact List.nodup_nil
  | cons item items =>
    obtain rfl : items = [] := List.eq_nil_of_length_eq_zero (by simpa using h)
    exact List.nodup_singleton item

/-- At most one item is taken if no two different ones are. -/
theorem length_filterMap_le_one {take : α → Option γ} (hnodup : items.Nodup)
    (hunique : ∀ item ∈ items, ∀ other ∈ items, take item ≠ none → take other ≠ none →
      item = other) : (items.filterMap take).length ≤ 1 := by
  induction items with
  | nil => exact Nat.zero_le 1
  | cons first items ih =>
    rw [List.nodup_cons] at hnodup
    cases hfirst : take first with
    | none =>
      rw [List.filterMap_cons_none hfirst]
      refine ih hnodup.2 fun item hitem other hother ↦ ?_
      exact hunique item (List.mem_cons_of_mem _ hitem) other (List.mem_cons_of_mem _ hother)
    | some value =>
      have hnone : items.filterMap take = [] := by
        rw [List.filterMap_eq_nil_iff]
        intro other hother
        by_contra htaken
        have hfirst : take first ≠ none := by simp [hfirst]
        have heq := hunique first List.mem_cons_self other (List.mem_cons_of_mem _ hother) hfirst
          htaken
        exact hnodup.1 (heq ▸ hother)
      rw [List.filterMap_cons_some hfirst, hnone]
      exact Nat.le_refl 1

end HotaruMqtt.Library
