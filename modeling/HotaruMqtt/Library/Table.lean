import Mathlib.Algebra.BigOperators.Group.Finset.Basic
import Mathlib.Data.Finmap
import Mathlib.Data.Multiset.Bind

/-!
# Finite maps and inverted indexes

A table is a finite map. An index is a table of tables: it finds the rows that belong to an outer
key, and `select` collects the entries of all rows whose outer key passes a test. The entries of
one inner key are spread over the rows. If a table holds them all under their outer keys, then
`select` finds for that inner key exactly the entries of the table whose key passes the test, each
as often as it occurs there.
-/

namespace HotaruMqtt.Library

abbrev Table (κ ν : Type) := Finmap fun _ : κ ↦ ν

namespace Table

variable {κ α ν μ M : Type} [DecidableEq κ] [DecidableEq α] [AddCommMonoid M]

theorem lookup_insert_eq (table : Table κ ν) (key inserted : κ) (value : ν) :
    (table.insert inserted value).lookup key =
      if key = inserted then some value else table.lookup key := by
  split
  · rename_i h
    rw [h, Finmap.lookup_insert]
  · rename_i h
    exact Finmap.lookup_insert_of_ne table h

theorem lookup_erase_eq (table : Table κ ν) (key erased : κ) :
    (table.erase erased).lookup key = if key = erased then none else table.lookup key := by
  split
  · rename_i h
    rw [h, Finmap.lookup_erase]
  · rename_i h
    exact Finmap.lookup_erase_ne h

theorem lookup_of_lookup_erase {table : Table κ ν} {key erased : κ} {value : ν}
    (h : (table.erase erased).lookup key = some value) : table.lookup key = some value := by
  rw [lookup_erase_eq] at h
  split at h
  · cases h
  · exact h

theorem keys_erase_subset (table : Table κ ν) (erased : κ) :
    (table.erase erased).keys ⊆ table.keys := by
  rw [Finmap.keys_erase]
  exact Finset.erase_subset _ _

theorem mem_keys_insert {table : Table κ ν} {key inserted : κ} {value : ν}
    (h : key ∈ (table.insert inserted value).keys) : key = inserted ∨ key ∈ table.keys := by
  rwa [Finmap.mem_keys, Finmap.mem_insert, ← Finmap.mem_keys] at h

theorem lookup_eq_none_of_notMem_keys {table : Table κ ν} {key : κ} (h : key ∉ table.keys) :
    table.lookup key = none := by
  rwa [Finmap.lookup_eq_none, ← Finmap.mem_keys]

def mapValues (f : ν → μ) (table : Table κ ν) : Table κ μ where
  entries := table.entries.map fun entry ↦ ⟨entry.1, f entry.2⟩
  nodupKeys := by
    rw [← Multiset.nodup_keys, Multiset.keys, Multiset.map_map]
    exact Multiset.nodup_keys.mpr table.nodupKeys

theorem lookup_mapValues (f : ν → μ) (table : Table κ ν) (key : κ) :
    (table.mapValues f).lookup key = (table.lookup key).map f := by
  ext value
  rw [Finmap.lookup_eq_some_iff, Option.map_eq_some_iff, mapValues, Multiset.mem_map]
  constructor
  · rintro ⟨⟨key', value'⟩, hmem, heq⟩
    cases heq
    exact ⟨value', Finmap.lookup_eq_some_iff.mpr hmem, rfl⟩
  · rintro ⟨value', hlookup, rfl⟩
    exact ⟨⟨key, value'⟩, Finmap.lookup_eq_some_iff.mp hlookup, rfl⟩

def pairs (table : Table κ ν) : Multiset (κ × ν) :=
  table.entries.map fun entry ↦ (entry.1, entry.2)

/-- The pairs of a table are its entries. -/
theorem mem_pairs_iff {table : Table κ ν} {entry : κ × ν} :
    entry ∈ table.pairs ↔ table.lookup entry.1 = some entry.2 := by
  rw [pairs, Multiset.mem_map, Finmap.lookup_eq_some_iff]
  constructor
  · rintro ⟨found, hfound, rfl⟩
    exact hfound
  · intro h
    exact ⟨_, h, rfl⟩

/-- A sum over the entries is a sum over the keys. -/
theorem sum_pairs (table : Table κ ν) (f : κ × ν → M) :
    (table.pairs.map f).sum =
      ∑ key ∈ table.keys, (table.lookup key).elim 0 fun value ↦ f (key, value) := by
  have hkeys : table.keys.val = table.entries.map Sigma.fst := rfl
  rw [Finset.sum_eq_multiset_sum, hkeys, Multiset.map_map, pairs, Multiset.map_map]
  congr 1
  refine Multiset.map_congr rfl fun entry hentry ↦ ?_
  have hlookup : table.lookup entry.1 = some entry.2 := Finmap.lookup_eq_some_iff.mpr hentry
  simp only [Function.comp_apply, hlookup, Option.elim_some]

/-- Filtering and mapping as a sum of singletons. -/
theorem map_filter_eq_sum {β γ : Type} (elements : Multiset β) (test : β → Prop)
    [DecidablePred test] (f : β → γ) :
    (elements.filter test).map f =
      (elements.map fun element ↦ if test element then {f element} else 0).sum := by
  induction elements using Multiset.induction_on with
  | empty => rfl
  | cons element elements ih =>
    rw [Multiset.map_cons, Multiset.sum_cons, ← ih]
    by_cases h : test element
    · rw [Multiset.filter_cons_of_pos _ h, if_pos h, Multiset.map_cons, Multiset.singleton_add]
    · rw [Multiset.filter_cons_of_neg _ h, if_neg h, Multiset.zero_add]

/-- The entries of one key. -/
theorem filter_pairs (table : Table κ ν) (key : κ) :
    table.pairs.filter (fun entry ↦ entry.1 = key) =
      (table.lookup key).elim 0 fun value ↦ {(key, value)} := by
  rw [← Multiset.map_id (table.pairs.filter _), map_filter_eq_sum, sum_pairs,
    Finset.sum_eq_single key]
  · simp
  · intro other _ hother
    cases table.lookup other <;> simp [hother]
  · intro hkey
    rw [lookup_eq_none_of_notMem_keys hkey]
    rfl

end Table

/-- Tables of entries, found by an outer key. -/
abbrev Index (κ α ν : Type) := Table κ (Table α ν)

namespace Index

variable {κ α ν : Type} [DecidableEq κ] [DecidableEq α]

/-- The entry of an inner key in the row of an outer key. -/
def get (index : Index κ α ν) (outer : κ) (inner : α) : Option ν :=
  (index.lookup outer).bind fun row ↦ row.lookup inner

def put (index : Index κ α ν) (outer : κ) (inner : α) (value : ν) : Index κ α ν :=
  index.insert outer (((index.lookup outer).getD ∅).insert inner value)

def remove (index : Index κ α ν) (outer : κ) (inner : α) : Index κ α ν :=
  match index.lookup outer with
  | none => index
  | some row => index.insert outer (row.erase inner)

def removeAll (index : Index κ α ν) (inner : α) : Index κ α ν :=
  index.mapValues fun row ↦ row.erase inner

/-- The entries of all rows whose outer key passes a test. -/
def select (index : Index κ α ν) (test : κ → Bool) : Multiset (α × ν) :=
  index.pairs.bind fun entry ↦ if test entry.1 then entry.2.pairs else 0

theorem get_put (index : Index κ α ν) (outer outer' : κ) (inner inner' : α) (value : ν) :
    (index.put outer inner value).get outer' inner' =
      if outer' = outer ∧ inner' = inner then some value else index.get outer' inner' := by
  unfold get put
  rw [Table.lookup_insert_eq]
  by_cases houter : outer' = outer
  · subst houter
    rw [if_pos rfl, Option.bind_some, Table.lookup_insert_eq]
    by_cases hinner : inner' = inner
    · simp [hinner]
    · cases index.lookup outer' <;> simp [hinner]
  · simp [houter]

theorem get_remove (index : Index κ α ν) (outer outer' : κ) (inner inner' : α) :
    (index.remove outer inner).get outer' inner' =
      if outer' = outer ∧ inner' = inner then none else index.get outer' inner' := by
  unfold remove
  cases hrow : index.lookup outer with
  | none =>
    by_cases houter : outer' = outer
    · subst houter
      simp [get, hrow]
    · simp [houter]
  | some row =>
    simp only [get, Table.lookup_insert_eq]
    by_cases houter : outer' = outer
    · subst houter
      rw [if_pos rfl, Option.bind_some, Table.lookup_erase_eq, hrow]
      by_cases hinner : inner' = inner <;> simp [hinner]
    · simp [houter]

/-- An inner key is removed under all outer keys. -/
theorem get_removeAll (index : Index κ α ν) (outer : κ) (inner inner' : α) :
    (index.removeAll inner).get outer inner' =
      if inner' = inner then none else index.get outer inner' := by
  unfold get removeAll
  rw [Table.lookup_mapValues]
  cases index.lookup outer with
  | none => simp
  | some row => simp [Table.lookup_erase_eq]

/-- What is selected are the entries of the outer keys that pass the test. -/
theorem mem_select_iff {index : Index κ α ν} {test : κ → Bool} {entry : α × ν} :
    entry ∈ index.select test ↔
      ∃ outer, test outer = true ∧ index.get outer entry.1 = some entry.2 := by
  simp only [select, Multiset.mem_bind, Table.mem_pairs_iff, get, Option.bind_eq_some_iff]
  constructor
  · rintro ⟨⟨outer, row⟩, hrow, hentry⟩
    split at hentry
    · rename_i htest
      exact ⟨outer, htest, row, hrow, Table.mem_pairs_iff.mp hentry⟩
    · exact absurd hentry (Multiset.notMem_zero _)
  · rintro ⟨outer, htest, row, hrow, hentry⟩
    refine ⟨(outer, row), hrow, ?_⟩
    rw [if_pos htest]
    exact Table.mem_pairs_iff.mpr hentry

omit [DecidableEq κ] [DecidableEq α] in
/-- A selection splits along any further test. -/
theorem select_add_select (index : Index κ α ν) (test extra : κ → Bool) :
    index.select test =
      index.select (fun outer ↦ test outer && extra outer) +
        index.select (fun outer ↦ test outer && !extra outer) := by
  unfold select
  rw [← Multiset.bind_add]
  refine Multiset.bind_congr fun entry _ ↦ ?_
  by_cases htest : test entry.1 = true <;> by_cases hextra : extra entry.1 = true <;>
    simp [htest, hextra]

/-- A further test drops no entry exactly if every entry that passes the first passes it. -/
theorem select_eq_select_and_iff {index : Index κ α ν} {test extra : κ → Bool} :
    index.select test = index.select (fun outer ↦ test outer && extra outer) ↔
      ∀ outer inner value, index.get outer inner = some value → test outer = true →
        extra outer = true := by
  rw [select_add_select index test extra, add_eq_left, Multiset.eq_zero_iff_forall_notMem]
  simp only [mem_select_iff, Bool.and_eq_true, Bool.not_eq_true', not_exists, not_and]
  constructor
  · intro h outer inner value hget htest
    by_contra hextra
    exact h (inner, value) outer ⟨htest, Bool.eq_false_of_not_eq_true hextra⟩ hget
  · rintro h ⟨inner, value⟩ outer ⟨htest, hextra⟩ hget
    rw [h outer inner value hget htest] at hextra
    cases hextra

/-- The entries of one inner key that `select` finds, as a sum over the outer keys. -/
theorem filter_select (index : Index κ α ν) (test : κ → Bool) (inner : α) :
    (index.select test).filter (fun entry ↦ entry.1 = inner) =
      ∑ outer ∈ index.keys, if test outer then
        (index.get outer inner).elim 0 fun value ↦ {(inner, value)} else 0 := by
  rw [select, Multiset.filter_bind, Multiset.bind, Multiset.join, Table.sum_pairs]
  refine Finset.sum_congr rfl fun outer _ ↦ ?_
  unfold get
  cases hrow : index.lookup outer with
  | none => simp
  | some row =>
    simp only [Option.elim_some, Option.bind_some]
    split
    · exact row.filter_pairs inner
    · rfl

/-- If a table holds the entries of an inner key under their outer keys, `select` finds for that
inner key the entries of the table whose key passes the test. -/
theorem filter_select_eq (index : Index κ α ν) (test : κ → Bool) (inner : α) (row : Table κ ν)
    (hrow : ∀ outer, index.get outer inner = row.lookup outer) :
    (index.select test).filter (fun entry ↦ entry.1 = inner) =
      (row.pairs.filter fun entry ↦ test entry.1).map fun entry ↦ (inner, entry.2) := by
  have hkeys : row.keys ⊆ index.keys := by
    intro outer houter
    by_contra h
    have hnone : row.lookup outer = none := by
      rw [← hrow, get, Table.lookup_eq_none_of_notMem_keys h]
      rfl
    exact Finmap.lookup_eq_none.mp hnone (Finmap.mem_keys.mp houter)
  have hright : ((row.pairs.filter fun entry ↦ test entry.1).map fun entry ↦ (inner, entry.2)) =
      ∑ outer ∈ row.keys, if test outer then
        (row.lookup outer).elim 0 fun value ↦ {(inner, value)} else 0 := by
    rw [Table.map_filter_eq_sum, Table.sum_pairs]
    refine Finset.sum_congr rfl fun outer _ ↦ ?_
    cases row.lookup outer <;> simp
  rw [filter_select, hright]
  simp only [hrow]
  symm
  apply Finset.sum_subset hkeys
  intro outer _ houter
  rw [Table.lookup_eq_none_of_notMem_keys houter]
  simp

end Index

end HotaruMqtt.Library
