/-
Tables with a primary key, over Mathlib's association lists, and the four
statements that act on them.  Keys are never repeated, so a row is looked up
rather than searched for.
-/
import Mathlib.Data.List.AList

namespace Relational

/-- The rows of a table under their primary keys. -/
structure Table (K V : Type) where
  rows : AList fun _ : K => V

namespace Table

variable {K V : Type}

instance : EmptyCollection (Table K V) := ⟨⟨∅⟩⟩

/-- The rows that satisfy a condition, in the order the table stores them. -/
def select (p : K → V → Bool) (t : Table K V) : List (K × V) :=
  (t.rows.entries.filter fun entry => p entry.1 entry.2).map fun entry => (entry.1, entry.2)

/-- Change the rows that satisfy a condition. -/
def update (p : K → V → Bool) (g : V → V) (t : Table K V) : Table K V where
  rows :=
    { entries := t.rows.entries.map fun entry =>
        ⟨entry.1, if p entry.1 entry.2 then g entry.2 else entry.2⟩
      nodupKeys := by
        simpa [List.NodupKeys, List.keys, List.map_map, Function.comp_def]
          using t.rows.nodupKeys }

/-- Remove the rows that satisfy a condition. -/
def delete (p : K → V → Bool) (t : Table K V) : Table K V where
  rows :=
    { entries := t.rows.entries.filter fun entry => !p entry.1 entry.2
      nodupKeys := t.rows.nodupKeys.sublist List.filter_sublist }

@[simp]
theorem select_empty (p : K → V → Bool) : (∅ : Table K V).select p = [] :=
  rfl

theorem update_congr {p q : K → V → Bool} {g g' : V → V}
    (h : ∀ k v, (if p k v then g v else v) = if q k v then g' v else v) (t : Table K V) :
    t.update p g = t.update q g' := by
  simp only [update, h]

/-- A query is untouched by an update of rows it does not return. -/
theorem select_update {p q : K → V → Bool} {g : V → V}
    (hout : ∀ k v, p k v = true → q k v = false ∧ q k (g v) = false) (t : Table K V) :
    (t.update p g).select q = t.select q := by
  simp only [select, update]
  induction t.rows.entries with
  | nil => rfl
  | cons entry rest ih =>
      by_cases hp : p entry.1 entry.2 = true
      · obtain ⟨hold, hnew⟩ := hout _ _ hp
        simpa [hp, hold, hnew] using ih
      · by_cases hq : q entry.1 entry.2 = true
        · simpa [hp, hq] using ih
        · simpa [hp, hq] using ih

/-- An update that keeps a query's condition keeps the keys it returns. -/
theorem keys_select_update {p q : K → V → Bool} {g : V → V}
    (hsame : ∀ k v, p k v = true → q k (g v) = q k v) (t : Table K V) :
    ((t.update p g).select q).map Prod.fst = (t.select q).map Prod.fst := by
  simp only [select, update, List.map_map]
  induction t.rows.entries with
  | nil => rfl
  | cons entry rest ih =>
      by_cases hp : p entry.1 entry.2 = true
      · by_cases hq : q entry.1 entry.2 = true
        · simpa [hp, hsame _ _ hp, hq] using ih
        · simpa [hp, hsame _ _ hp, hq] using ih
      · by_cases hq : q entry.1 entry.2 = true
        · simpa [hp, hq] using ih
        · simpa [hp, hq] using ih

theorem select_delete {p q : K → V → Bool}
    (hout : ∀ k v, p k v = true → q k v = false) (t : Table K V) :
    (t.delete p).select q = t.select q := by
  simp only [select, delete, List.filter_filter]
  congr 1
  refine List.filter_congr fun entry _ => ?_
  by_cases hp : p entry.1 entry.2 = true
  · simp [hp, hout _ _ hp]
  · simp [hp]

theorem select_delete_eq_filter (p q : K → V → Bool) (t : Table K V) :
    (t.delete p).select q = (t.select q).filter fun row => !p row.1 row.2 := by
  simp only [select, delete, List.filter_map, List.filter_filter, Function.comp_def]
  congr 1
  exact List.filter_congr fun entry _ => Bool.and_comm _ _

theorem nodup_keys_select (p : K → V → Bool) (t : Table K V) :
    ((t.select p).map Prod.fst).Nodup := by
  have hkeys : (t.select p).map Prod.fst =
      (t.rows.entries.filter fun entry => p entry.1 entry.2).keys := by
    simp [select, List.keys, List.map_map, Function.comp_def]
  rw [hkeys]
  exact t.rows.nodupKeys.sublist List.filter_sublist

/-- A query has at most as many rows as there are keys to find them under. -/
theorem length_select_le {p : K → V → Bool} {t : Table K V} {keys : List K}
    (h : ∀ entry ∈ t.select p, entry.1 ∈ keys) : (t.select p).length ≤ keys.length := by
  have hsub : (t.select p).map Prod.fst ⊆ keys := by
    intro k hk
    obtain ⟨entry, hentry, rfl⟩ := List.mem_map.mp hk
    exact h entry hentry
  have hle := (List.subperm_of_subset (nodup_keys_select p t) hsub).length_le
  rwa [List.length_map] at hle

variable [DecidableEq K]

def get (t : Table K V) (k : K) : Option V :=
  t.rows.lookup k

/-- Insert a row unless its key is taken. -/
def add (k : K) (v : V) (t : Table K V) : Table K V :=
  if (t.get k).isSome then t else ⟨t.rows.insert k v⟩

@[simp]
theorem get_empty (k : K) : (∅ : Table K V).get k = none :=
  AList.lookup_empty k

theorem get_eq_some_iff {t : Table K V} {k : K} {v : V} :
    t.get k = some v ↔ (⟨k, v⟩ : Sigma fun _ : K => V) ∈ t.rows.entries :=
  AList.mem_lookup_iff

@[simp]
theorem mem_select {t : Table K V} {p : K → V → Bool} {k : K} {v : V} :
    (k, v) ∈ t.select p ↔ t.get k = some v ∧ p k v = true := by
  rw [get_eq_some_iff]
  constructor
  · intro h
    obtain ⟨⟨k', v'⟩, hmem, heq⟩ := List.mem_map.mp h
    rw [List.mem_filter] at hmem
    simp only [Prod.mk.injEq] at heq
    obtain ⟨rfl, rfl⟩ := heq
    exact hmem
  · intro h
    exact List.mem_map.mpr ⟨⟨k, v⟩, List.mem_filter.mpr h, rfl⟩

theorem find?_select {t : Table K V} {p : K → V → Bool} {k k' : K} {v : V} :
    (t.select p).find? (fun entry => entry.1 == k) = some (k', v) ↔
      k' = k ∧ t.get k = some v ∧ p k v = true := by
  constructor
  · intro h
    have hkey : k' = k := by simpa using List.find?_some h
    have hmem := mem_select.mp (List.mem_of_find?_eq_some h)
    rw [hkey] at hmem
    exact ⟨hkey, hmem⟩
  · rintro ⟨rfl, hget, hp⟩
    have hsome : ((t.select p).find? fun entry => entry.1 == k').isSome := by
      rw [List.find?_isSome]
      exact ⟨(k', v), mem_select.mpr ⟨hget, hp⟩, by simp⟩
    obtain ⟨⟨k'', v'⟩, hfound⟩ := Option.isSome_iff_exists.mp hsome
    have hkey : k'' = k' := by simpa using List.find?_some hfound
    have hmem := (mem_select.mp (List.mem_of_find?_eq_some hfound)).1
    rw [hkey, hget, Option.some.injEq] at hmem
    rw [hfound, hkey, hmem]

theorem get_update (p : K → V → Bool) (g : V → V) (t : Table K V) (k : K) :
    (t.update p g).get k = (t.get k).map fun v => if p k v then g v else v := by
  ext v
  rw [get_eq_some_iff, Option.map_eq_some_iff]
  simp only [update, List.mem_map]
  constructor
  · rintro ⟨⟨k', w⟩, hmem, heq⟩
    simp only [Sigma.mk.injEq, heq_eq_eq] at heq
    obtain ⟨rfl, rfl⟩ := heq
    exact ⟨w, get_eq_some_iff.mpr hmem, rfl⟩
  · rintro ⟨w, hget, rfl⟩
    exact ⟨⟨k, w⟩, get_eq_some_iff.mp hget, rfl⟩

theorem get_update_eq_some {p : K → V → Bool} {g : V → V} {t : Table K V} {k : K} {v : V} :
    (t.update p g).get k = some v ↔ ∃ w, t.get k = some w ∧ (if p k w then g w else w) = v := by
  rw [get_update, Option.map_eq_some_iff]

theorem get_delete (p : K → V → Bool) (t : Table K V) (k : K) :
    (t.delete p).get k = (t.get k).filter fun v => !p k v := by
  ext v
  rw [get_eq_some_iff, Option.filter_eq_some_iff, get_eq_some_iff]
  simp only [delete, List.mem_filter]

theorem get_delete_eq_some {p : K → V → Bool} {t : Table K V} {k : K} {v : V} :
    (t.delete p).get k = some v ↔ t.get k = some v ∧ p k v = false := by
  rw [get_delete, Option.filter_eq_some_iff, Bool.not_eq_true']

theorem delete_congr {p q : K → V → Bool} {t : Table K V}
    (h : ∀ k v, t.get k = some v → p k v = q k v) : t.delete p = t.delete q := by
  simp only [delete, mk.injEq, AList.mk.injEq]
  refine List.filter_congr fun entry hentry => ?_
  rw [h entry.1 entry.2 (get_eq_some_iff.mpr hentry)]

theorem get_delete_of_out {p : K → V → Bool} {k : K} (hout : ∀ v, p k v = false)
    (t : Table K V) : (t.delete p).get k = t.get k := by
  rw [get_delete]
  cases t.get k with
  | none => rfl
  | some v => simp [Option.filter, hout]

theorem get_add (k : K) (v : V) (t : Table K V) (k' : K) :
    (t.add k v).get k' = (t.get k').or (if k' = k then some v else none) := by
  unfold add
  by_cases htaken : (t.get k).isSome
  · rw [if_pos htaken]
    by_cases hk : k' = k
    · subst hk
      obtain ⟨w, hw⟩ := Option.isSome_iff_exists.mp htaken
      simp [hw]
    · simp [hk]
  · rw [if_neg htaken]
    by_cases hk : k' = k
    · subst hk
      have hnone : t.get k' = none := by simpa using htaken
      rw [hnone]
      simp [get]
    · simp [get, hk]

theorem get_add_eq_some {k : K} {v : V} {t : Table K V} {k' : K} {w : V}
    (h : (t.add k v).get k' = some w) : t.get k' = some w ∨ k' = k ∧ w = v := by
  rw [get_add, Option.or_eq_some_iff] at h
  rcases h with hold | ⟨_, hnew⟩
  · exact Or.inl hold
  · rw [Option.ite_none_right_eq_some, Option.some.injEq] at hnew
    exact Or.inr ⟨hnew.1, hnew.2.symm⟩

/-- An insertion at a new key. -/
theorem get_add_of_new {k : K} {v : V} {t : Table K V} (hnew : t.get k = none) (k' : K) :
    (t.add k v).get k' = if k' = k then some v else t.get k' := by
  rw [get_add]
  by_cases hk : k' = k
  · subst hk
    simp [hnew]
  · simp [hk]

theorem select_add {k : K} {v : V} {q : K → V → Bool} (hout : q k v = false)
    (t : Table K V) : (t.add k v).select q = t.select q := by
  unfold add
  by_cases htaken : (t.get k).isSome
  · rw [if_pos htaken]
  · rw [if_neg htaken]
    have hnew : k ∉ t.rows := by
      simpa [get, AList.lookup_eq_none] using htaken
    simp only [select, AList.entries_insert_of_notMem hnew]
    rw [List.filter_cons_of_neg (by simpa using hout)]

/-- A new row comes first in every query that returns it. -/
theorem select_add_new {k : K} {v : V} {q : K → V → Bool} {t : Table K V}
    (hnew : t.get k = none) (hq : q k v = true) : (t.add k v).select q = (k, v) :: t.select q := by
  have hnot : k ∉ t.rows := by simpa [get, AList.lookup_eq_none] using hnew
  unfold add
  rw [hnew, if_neg (by simp)]
  simp only [select, AList.entries_insert_of_notMem hnot]
  rw [List.filter_cons_of_pos (by simpa using hq)]
  rfl

/-- An insertion adds at most its own key to what a query returns. -/
theorem keys_select_add {k : K} {v : V} {q : K → V → Bool} (t : Table K V) :
    ((t.add k v).select q).map Prod.fst = (t.select q).map Prod.fst ∨
      q k v = true ∧ ((t.add k v).select q).map Prod.fst = k :: (t.select q).map Prod.fst := by
  by_cases hq : q k v = true
  · by_cases hnew : t.get k = none
    · exact Or.inr ⟨hq, congrArg _ (select_add_new hnew hq)⟩
    · left
      unfold add
      rw [if_pos (by simpa [Option.isSome_iff_ne_none] using hnew)]
  · left
    rw [select_add (by simpa using hq)]

section Index

variable {A B : Type} [DecidableEq A] [DecidableEq B]

/-- The keys of the rows with these values in two columns. -/
def keysOf (f : V → A) (g : V → B) (a : A) (b : B) (t : Table K V) : List K :=
  (t.select fun _ r => f r == a && g r == b).map Prod.fst

variable {f : V → A} {g : V → B} {k : K} {v : V} {t : Table K V}

/-- An insertion where no row has its two values. -/
theorem keysOf_add (hfree : t.keysOf f g (f v) (g v) = []) (a : A) (b : B) :
    (t.add k v).keysOf f g a b = t.keysOf f g a b ∨
      (f v = a ∧ g v = b) ∧ (t.add k v).keysOf f g a b = [k] := by
  rcases @keys_select_add _ _ _ k v (fun _ r => f r == a && g r == b) t with hsame | ⟨hq, hmore⟩
  · exact Or.inl hsame
  · obtain ⟨rfl, rfl⟩ : f v = a ∧ g v = b := by simpa using hq
    exact Or.inr ⟨⟨rfl, rfl⟩, hmore.trans (congrArg (k :: ·) hfree)⟩

theorem keysOf_add_new (hfree : t.keysOf f g (f v) (g v) = []) (hnew : t.get k = none) :
    (t.add k v).keysOf f g (f v) (g v) = [k] := by
  have hselect := @select_add_new _ _ _ k v (fun _ r => f r == f v && g r == g v) t hnew (by simp)
  exact (congrArg (List.map Prod.fst) hselect).trans (congrArg (k :: ·) hfree)

end Index

end Table

end Relational
