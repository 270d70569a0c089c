/-
Two kinds of rows over one database.  A transaction that was written for the rows of one kind
and leaves those of the other alone runs as it did.
-/
import AuthCore.Interleave.Soundness

namespace Interleave

variable {D : Type}

/-- The rows of `L` and those of `M`. -/
abbrev Rows.sum (L M : Rows D) : Rows D where
  Row := L.Row ⊕ M.Row
  View := Sum.elim L.View M.View
  view row d := match row with
    | .inl row => L.view row d
    | .inr row => M.view row d

variable {L M : Rows D} {X ε α β : Type}

/-- What every row of `M` shows stays as it is. -/
def Rows.Same (M : Rows D) (d d' : D) : Prop :=
  ∀ row, M.view row d' = M.view row d

def Change.inl (change : Change L) (h : ∀ d, M.Same d (change.apply d)) : Change (L.sum M) where
  rows := change.rows.map .inl
  apply := change.apply
  confined row hrow d := by
    cases row with
    | inl row => exact change.confined row (fun hmem => hrow (List.mem_map_of_mem hmem)) d
    | inr row => exact h d row

namespace Tx

/-- The transaction among the rows of both kinds. -/
def inl : (body : Tx L X ε α) → body.Guarantees M.Same → Tx (L.sum M) X ε α
  | ret a, _ => ret a
  | raise fault, _ => raise fault
  | select query note k, h => select query note fun b => inl (k b) (h b)
  | lock row k, h => lock (.inl row : (L.sum M).Row) fun v => inl (k v) (h v)
  | write change k, h => write (change.inl h.1) (inl k h.2)

theorem alone_inl (body : Tx L X ε α) (h : body.Guarantees M.Same) (d : D) (pending : D → D) :
    alone d pending (body.inl h) = alone d pending body := by
  induction body generalizing pending with
  | ret a => rfl
  | raise fault => rfl
  | select query note k ih => exact ih _ (h _) pending
  | lock row k ih => exact ih _ (h _) pending
  | write change k ih => exact ih h.2 _

theorem lockOnly_inl {body : Tx L X ε α} (h : body.Guarantees M.Same) (hbody : body.LockOnly) :
    (body.inl h).LockOnly := by
  induction body with
  | ret a => trivial
  | raise fault => trivial
  | select query note k _ => exact hbody.elim
  | lock row k ih => exact fun v => ih v (h v) (hbody v)
  | write change k ih => exact ih h.2 hbody

/-- The transaction without the notes of its queries. -/
def mute : Tx L X ε α → Tx L X ε α
  | ret a => ret a
  | raise fault => raise fault
  | select query _ k => select query (fun _ _ x => x) fun b => (k b).mute
  | lock row k => lock row fun v => (k v).mute
  | write change k => write change k.mute

theorem guarantees_mute {R : D → D → Prop} {body : Tx L X ε α} (hbody : body.Guarantees R) :
    body.mute.Guarantees R := by
  induction body with
  | ret a => trivial
  | raise fault => trivial
  | select query note k ih => exact fun b => ih b (hbody b)
  | lock row k ih => exact fun v => ih v (hbody v)
  | write change k ih => exact ⟨hbody.1, ih hbody.2⟩

end Tx

namespace Prog

/-- Every transaction of the call leaves the rows of `M` alone. -/
def Keeps (M : Rows D) : Prog L X ε α → Prop
  | done _ => True
  | raise _ => True
  | act _ k => ∀ b, (k b).Keeps M
  | txn _ body k => body.Guarantees M.Same ∧ ∀ r, (k r).Keeps M

/-- The call among the rows of both kinds. -/
def inl : (p : Prog L X ε α) → p.Keeps M → Prog (L.sum M) X ε α
  | done a, _ => done a
  | raise e, _ => raise e
  | act f k, h => act f fun b => inl (k b) (h b)
  | txn note body k, h => txn note (body.inl h.1) fun r => inl (k r) (h.2 r)

end Prog

end Interleave
