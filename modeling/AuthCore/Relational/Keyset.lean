/-
Rows read a page at a time: the largest keys first, and each page begins behind
the last key of the one before.
-/
import Mathlib.Data.List.Sort

namespace Relational

variable {ρ κ : Type} [LinearOrder κ] {key : ρ → κ} {rows : List ρ}

/-- The rows with the largest key first. -/
def ranked (key : ρ → κ) (rows : List ρ) : List ρ :=
  rows.insertionSort fun r s => key s ≤ key r

theorem mem_ranked {r : ρ} : r ∈ ranked key rows ↔ r ∈ rows :=
  List.mem_insertionSort _

theorem ranked_ordered : (ranked key rows).Pairwise fun r s => key s ≤ key r := by
  have htotal : Std.Total fun r s : ρ => key s ≤ key r := ⟨fun r s => le_total (key s) (key r)⟩
  have htrans : IsTrans ρ fun r s => key s ≤ key r := ⟨fun _ _ _ h h' => h'.trans h⟩
  exact List.pairwise_insertionSort _ rows

/-- Where no key occurs twice the order is strict. -/
theorem ranked_strict (h : (rows.map key).Nodup) :
    (ranked key rows).Pairwise fun r s => key s < key r := by
  have hnodup : ((ranked key rows).map key).Nodup :=
    ((List.perm_insertionSort _ rows).map key).nodup_iff.mpr h
  rw [List.Nodup, List.pairwise_map] at hnodup
  exact (ranked_ordered.and hnodup).imp fun ⟨hle, hne⟩ => lt_of_le_of_ne hle (Ne.symm hne)

/-- What is left out of a page stands behind everything on it. -/
theorem lt_of_left_out (h : (rows.map key).Nodup) (n : Nat) {r s : ρ}
    (hr : r ∈ (ranked key rows).take n) (hs : s ∈ (ranked key rows).drop n) : key s < key r := by
  have hall := ranked_strict h
  rw [← List.take_append_drop n (ranked key rows), List.pairwise_append] at hall
  exact hall.2.2 r hr s hs

/-- A row is on the page or stands behind everything on it. -/
theorem on_page_or_behind (h : (rows.map key).Nodup) (n : Nat) {s : ρ} (hs : s ∈ rows) :
    s ∈ (ranked key rows).take n ∨ ∀ r ∈ (ranked key rows).take n, key s < key r := by
  have hmem : s ∈ (ranked key rows).take n ++ (ranked key rows).drop n := by
    rw [List.take_append_drop]
    exact mem_ranked.mpr hs
  rcases List.mem_append.mp hmem with hpage | hrest
  · exact Or.inl hpage
  · exact Or.inr fun r hr => lt_of_left_out h n hr hrest

end Relational
