/-
Rows in the order of a key.  With keys that differ the order is a matter of
which rows there are, so it can be followed through insertions and deletions.
-/
import Mathlib.Order.Basic
import AuthCore.Model.SessionRepository

namespace AuthCore

variable {α : Type} {key : α → Nat}

theorem mem_insertBy {a b : α} {l : List α} :
    b ∈ orderBy.insertBy key a l ↔ b = a ∨ b ∈ l := by
  induction l with
  | nil => simp [orderBy.insertBy]
  | cons head rest ih =>
      unfold orderBy.insertBy
      split
      · simp
      · simp only [List.mem_cons, ih]
        tauto

theorem mem_orderBy {b : α} {l : List α} : b ∈ orderBy key l ↔ b ∈ l := by
  induction l with
  | nil => simp [orderBy]
  | cons a rest ih => simp only [orderBy, mem_insertBy, ih, List.mem_cons]

theorem pairwise_insertBy {a : α} {l : List α} (h : l.Pairwise fun x y => key x ≤ key y) :
    (orderBy.insertBy key a l).Pairwise fun x y => key x ≤ key y := by
  induction l with
  | nil => simp [orderBy.insertBy]
  | cons head rest ih =>
      obtain ⟨hhead, hrest⟩ := List.pairwise_cons.mp h
      unfold orderBy.insertBy
      split
      · rename_i hle
        refine List.pairwise_cons.mpr ⟨fun y hy => ?_, h⟩
        rcases List.mem_cons.mp hy with rfl | hy'
        · exact hle
        · exact hle.trans (hhead y hy')
      · rename_i hlt
        refine List.pairwise_cons.mpr ⟨fun y hy => ?_, ih hrest⟩
        rcases mem_insertBy.mp hy with rfl | hy'
        · omega
        · exact hhead y hy'

theorem pairwise_orderBy (l : List α) :
    (orderBy key l).Pairwise fun x y => key x ≤ key y := by
  induction l with
  | nil => exact .nil
  | cons a rest ih => exact pairwise_insertBy ih

theorem perm_insertBy (a : α) (l : List α) : (orderBy.insertBy key a l).Perm (a :: l) := by
  induction l with
  | nil => exact .refl _
  | cons head rest ih =>
      unfold orderBy.insertBy
      split
      · exact .refl _
      · exact (ih.cons head).trans (.swap a head rest)

theorem perm_orderBy (l : List α) : (orderBy key l).Perm l := by
  induction l with
  | nil => exact .refl _
  | cons a rest ih => exact (perm_insertBy a _).trans (ih.cons a)

/-- No two rows have the same key. -/
def Distinct (key : α → Nat) (l : List α) : Prop :=
  ∀ a ∈ l, ∀ b ∈ l, key a = key b → a = b

/-- The order of rows whose keys differ is the only one. -/
theorem orderBy_eq_of_perm {l sorted : List α} (hdistinct : Distinct key l)
    (hperm : sorted.Perm l) (hsorted : sorted.Pairwise fun x y => key x ≤ key y) :
    orderBy key l = sorted := by
  refine List.Perm.eq_of_pairwise (fun a b ha hb hle hge => ?_) (pairwise_orderBy l) hsorted
    ((perm_orderBy l).trans hperm.symm)
  exact hdistinct a (mem_orderBy.mp ha) b (hperm.mem_iff.mp hb) (Nat.le_antisymm hle hge)

/-- The row with the greatest key comes last, wherever it stands. -/
theorem orderBy_of_last {a : α} {l l' : List α} (hdistinct : Distinct key l)
    (hlast : ∀ b ∈ l, key b < key a) (hperm : l'.Perm (a :: l)) :
    orderBy key l' = orderBy key l ++ [a] := by
  refine orderBy_eq_of_perm ?_ ?_ ?_
  · intro b hb c hc hbc
    rcases List.mem_cons.mp (hperm.mem_iff.mp hb) with rfl | hb'
    · rcases List.mem_cons.mp (hperm.mem_iff.mp hc) with rfl | hc'
      · rfl
      · exact absurd hbc (hlast c hc').ne'
    · rcases List.mem_cons.mp (hperm.mem_iff.mp hc) with rfl | hc'
      · exact absurd hbc (hlast b hb').ne
      · exact hdistinct b hb' c hc' hbc
  · exact ((List.perm_append_comm).trans ((perm_orderBy l).cons a)).trans hperm.symm
  · refine List.pairwise_append.mpr ⟨pairwise_orderBy l, List.pairwise_singleton _ _, ?_⟩
    intro b hb c hc
    rw [List.mem_singleton.mp hc]
    exact (hlast b (mem_orderBy.mp hb)).le

/-- Rows that are dropped leave the order of the others as it is. -/
theorem orderBy_filter {l : List α} (hdistinct : Distinct key l) (p : α → Bool) :
    orderBy key (l.filter p) = (orderBy key l).filter p := by
  refine orderBy_eq_of_perm ?_ ((perm_orderBy l).filter p)
    ((pairwise_orderBy l).sublist List.filter_sublist)
  intro a ha b hb
  exact hdistinct a (List.mem_of_mem_filter ha) b (List.mem_of_mem_filter hb)

/-- Dropping the rows that stand after the first `n` keeps the first `n`. -/
theorem filter_drop_keys {K V : Type} [DecidableEq K] {l : List (K × V)}
    (hnodup : (l.map Prod.fst).Nodup) (n : Nat) :
    l.filter (fun row => !((l.drop n).map Prod.fst).contains row.1) = l.take n := by
  have hparts : l.filter (fun row => !((l.drop n).map Prod.fst).contains row.1) =
      (l.take n).filter (fun row => !((l.drop n).map Prod.fst).contains row.1) ++
        (l.drop n).filter (fun row => !((l.drop n).map Prod.fst).contains row.1) := by
    rw [← List.filter_append, List.take_append_drop]
  have hkept : (l.take n).filter (fun row => !((l.drop n).map Prod.fst).contains row.1) =
      l.take n := by
    refine List.filter_eq_self.mpr fun row hrow => ?_
    rw [← List.take_append_drop n l, List.map_append] at hnodup
    have hnot := (List.nodup_append.mp hnodup).2.2 row.1 (List.mem_map_of_mem hrow)
    simp only [Bool.not_eq_true', List.contains_eq_mem, decide_eq_false_iff_not]
    exact fun hmem => hnot row.1 hmem rfl
  have hdropped : (l.drop n).filter (fun row => !((l.drop n).map Prod.fst).contains row.1) =
      [] := by
    refine List.filter_eq_nil_iff.mpr fun row hrow => ?_
    simp only [Bool.not_eq_true, Bool.not_eq_false', List.contains_eq_mem, decide_eq_true_eq]
    exact List.mem_map_of_mem hrow
  rw [hparts, hkept, hdropped, List.append_nil]

end AuthCore
