/-
Programs that share a database and a second store.  A transaction is a tree of
statements over the database; a call is a tree of atomic actions on the second
store and of transactions.  Nothing here fixes what either store holds.
-/
import Mathlib.Logic.Relation

namespace Interleave

/-- The rows a transaction can lock.  `view row` is everything that holding
the lock on `row` keeps still: the row's own columns and whatever the schema
lets nobody change without that lock. -/
structure Rows (D : Type) where
  Row : Type
  View : Row → Type
  view : (row : Row) → D → View row

/-- How a transaction can end without a commit: chosen as a deadlock victim,
refused by a constraint, or left by an exception of the code inside it. -/
inductive Fault (ε : Type) where
  | deadlock
  | integrity
  | thrown (e : ε)
deriving Repr, DecidableEq

variable {D : Type}

/-- A change of the database that leaves every view outside `rows` alone. -/
structure Change (L : Rows D) where
  rows : List L.Row
  apply : D → D
  confined : ∀ row, row ∉ rows → ∀ d, L.view row (apply d) = L.view row d

/-- The body of one transaction.  `select` is a plain query: it sees the rows
committed when it runs, with this transaction's own changes on top.  `lock`
waits for the row, keeps it until the transaction ends and returns its latest
committed version; a row is locked before this transaction changes it.
`write` takes the locks of the rows it changes; the change becomes visible to
others when the transaction commits. -/
inductive Tx (L : Rows D) (X ε α : Type) : Type 1 where
  | ret (a : α)
  | raise (fault : Fault ε)
  | select {β : Type} (query : D → β) (note : Nat → β → X → X) (k : β → Tx L X ε α)
  | lock (row : L.Row) (k : L.View row → Tx L X ε α)
  | write (change : Change L) (k : Tx L X ε α)

namespace Tx

variable {L : Rows D} {X ε α β : Type}

def bind : Tx L X ε α → (α → Tx L X ε β) → Tx L X ε β
  | ret a, f => f a
  | raise fault, _ => raise fault
  | select query note k, f => select query note fun b => (k b).bind f
  | lock row k, f => lock row fun v => (k v).bind f
  | write change k, f => write change (k.bind f)

instance : Monad (Tx L X ε) where
  pure := ret
  bind := bind

theorem bind_assoc {γ : Type} (body : Tx L X ε α) (f : α → Tx L X ε β) (g : β → Tx L X ε γ) :
    (body >>= f) >>= g = body >>= fun a => f a >>= g := by
  change (body.bind f).bind g = body.bind fun a => (f a).bind g
  induction body with
  | ret a => rfl
  | raise fault => rfl
  | select query note k ih => exact congrArg (select query note) (funext ih)
  | lock row k ih => exact congrArg (lock row) (funext ih)
  | write change k ih => exact congrArg (write change) ih

theorem pure_bind (a : α) (f : α → Tx L X ε β) : (pure a >>= f : Tx L X ε β) = f a :=
  rfl

/-- A transaction run on `d` with nobody else around: its answer and the
change it makes. -/
def alone (d : D) : (D → D) → Tx L X ε α → Except (Fault ε) (α × (D → D))
  | pending, ret a => .ok (a, pending)
  | _, raise fault => .error fault
  | pending, select query _ k => alone d pending (k (query (pending d)))
  | pending, lock row k => alone d pending (k (L.view row d))
  | pending, write change k => alone d (change.apply ∘ pending) k

/-- After its candidates are chosen, a transaction reads only what it locks. -/
def LockOnly : Tx L X ε α → Prop
  | ret _ => True
  | raise _ => True
  | select _ _ _ => False
  | lock _ k => ∀ v, (k v).LockOnly
  | write _ k => k.LockOnly

/-- Visit the candidates of a locking query in order and keep the rows that
still qualify once they are locked. -/
def collect {ι : Type} (visit : ι → Tx L X ε (Option β)) : List ι → Tx L X ε (List β)
  | [] => ret []
  | i :: rest => do
      let found ← visit i
      let others ← collect visit rest
      return found.toList ++ others

/-- Run one statement for each element. -/
def each {ι : Type} (visit : ι → Tx L X ε Unit) : List ι → Tx L X ε Unit
  | [] => ret ()
  | i :: rest => do
      visit i
      each visit rest

theorem alone_bind (d : D) (pending : D → D) (body : Tx L X ε α) (f : α → Tx L X ε β) :
    alone d pending (body >>= f) =
      (alone d pending body).bind fun result => alone d result.2 (f result.1) := by
  change alone d pending (body.bind f) = _
  induction body generalizing pending with
  | ret a => rfl
  | raise fault => rfl
  | select query note k ih => exact ih _ pending
  | lock row k ih => exact ih _ pending
  | write change k ih => exact ih _

theorem alone_bind_ok {d : D} {pending pending' : D → D} {body : Tx L X ε α} {a : α}
    {f : α → Tx L X ε β} (h : alone d pending body = .ok (a, pending')) :
    alone d pending (body >>= f) = alone d pending' (f a) := by
  rw [alone_bind, h]
  rfl

theorem alone_bind_eq_ok {d : D} {pending : D → D} {body : Tx L X ε α} {f : α → Tx L X ε β}
    {result : β × (D → D)} (h : alone d pending (body >>= f) = .ok result) :
    ∃ a pending', alone d pending body = .ok (a, pending') ∧
      alone d pending' (f a) = .ok result := by
  rw [alone_bind] at h
  cases hbody : alone d pending body with
  | error fault =>
      rw [hbody] at h
      cases h
  | ok first =>
      rw [hbody] at h
      exact ⟨first.1, first.2, rfl, h⟩

theorem LockOnly.bind {body : Tx L X ε α} {f : α → Tx L X ε β} (hbody : body.LockOnly)
    (hf : ∀ a, (f a).LockOnly) : (body >>= f).LockOnly := by
  change (body.bind f).LockOnly
  induction body with
  | ret a => exact hf a
  | raise fault => trivial
  | select query note k _ => exact hbody.elim
  | lock row k ih => exact fun v => ih v (hbody v)
  | write change k ih => exact ih hbody

theorem lockOnly_collect {ι : Type} {visit : ι → Tx L X ε (Option β)}
    (hvisit : ∀ i, (visit i).LockOnly) (is : List ι) : (collect visit is).LockOnly := by
  induction is with
  | nil => trivial
  | cons i rest ih => exact (hvisit i).bind fun _ => ih.bind fun _ => trivial

theorem lockOnly_each {ι : Type} {visit : ι → Tx L X ε Unit}
    (hvisit : ∀ i, (visit i).LockOnly) (is : List ι) : (each visit is).LockOnly := by
  induction is with
  | nil => trivial
  | cons i rest ih => exact (hvisit i).bind fun _ => ih

/-- A locking query whose visits change nothing answers with what the visits
find in the database. -/
theorem alone_collect {ι : Type} {visit : ι → Tx L X ε (Option β)} {found : ι → Option β}
    {d : D} {pending : D → D}
    (hvisit : ∀ i, alone d pending (visit i) = .ok (found i, pending)) (is : List ι) :
    alone d pending (collect visit is) = .ok (is.filterMap found, pending) := by
  induction is with
  | nil => rfl
  | cons i rest ih =>
      simp only [collect, alone_bind, hvisit, ih, Except.bind, List.filterMap_cons]
      cases found i with
      | none => rfl
      | some b => rfl

/-- Statements that each apply one change apply them one after the other. -/
theorem alone_each {ι : Type} {visit : ι → Tx L X ε Unit} {change : ι → D → D} {d : D}
    (hvisit : ∀ i pending, alone d pending (visit i) = .ok ((), change i ∘ pending))
    (pending : D → D) (is : List ι) :
    alone d pending (each visit is) =
      .ok ((), fun d' => is.foldl (fun db i => change i db) (pending d')) := by
  induction is generalizing pending with
  | nil => rfl
  | cons i rest ih =>
      simp only [each, alone_bind, hvisit, Except.bind, ih]
      rfl

/-- Every fault that the code of the transaction raises satisfies `P`. -/
def Faults (P : Fault ε → Prop) : Tx L X ε α → Prop
  | ret _ => True
  | raise fault => P fault
  | select _ _ k => ∀ b, (k b).Faults P
  | lock _ k => ∀ v, (k v).Faults P
  | write _ k => k.Faults P

theorem Faults.bind {P : Fault ε → Prop} {body : Tx L X ε α} {f : α → Tx L X ε β}
    (hbody : body.Faults P) (hf : ∀ a, (f a).Faults P) : (body >>= f).Faults P := by
  change (body.bind f).Faults P
  induction body with
  | ret a => exact hf a
  | raise fault => exact hbody
  | select query note k ih => exact fun b => ih b (hbody b)
  | lock row k ih => exact fun v => ih v (hbody v)
  | write change k ih => exact ih hbody

theorem Faults.alone {P : Fault ε → Prop} {body : Tx L X ε α} (hbody : body.Faults P) (d : D)
    (pending : D → D) :
    (∃ a change, Tx.alone d pending body = .ok (a, change)) ∨
      ∃ fault, Tx.alone d pending body = .error fault ∧ P fault := by
  induction body generalizing pending with
  | ret a => exact Or.inl ⟨a, pending, rfl⟩
  | raise fault => exact Or.inr ⟨fault, rfl, hbody⟩
  | select query note k ih => exact ih _ (hbody _) pending
  | lock row k ih => exact ih _ (hbody _) pending
  | write change k ih => exact ih hbody _

/-- The database after a transaction that runs alone on it. -/
def commit (body : Tx L X ε α) (d : D) : D :=
  match alone d id body with
  | .ok (_, change) => change d
  | .error _ => d

theorem commit_of_alone {body : Tx L X ε α} {d : D} {a : α} {change : D → D}
    (h : alone d id body = .ok (a, change)) : body.commit d = change d := by
  simp only [commit, h]

/-- Every write of the transaction is a step of `R`, wherever it happens. -/
def Guarantees (R : D → D → Prop) : Tx L X ε α → Prop
  | ret _ => True
  | raise _ => True
  | select _ _ k => ∀ b, (k b).Guarantees R
  | lock _ k => ∀ v, (k v).Guarantees R
  | write change k => (∀ d, R d (change.apply d)) ∧ k.Guarantees R

theorem Guarantees.bind {R : D → D → Prop} {body : Tx L X ε α} {f : α → Tx L X ε β}
    (hbody : body.Guarantees R) (hf : ∀ a, (f a).Guarantees R) : (body >>= f).Guarantees R := by
  change (body.bind f).Guarantees R
  induction body with
  | ret a => exact hf a
  | raise fault => trivial
  | select query note k ih => exact fun b => ih b (hbody b)
  | lock row k ih => exact fun v => ih v (hbody v)
  | write change k ih => exact ⟨hbody.1, ih hbody.2⟩

theorem Guarantees.mono {R R' : D → D → Prop} {body : Tx L X ε α} (hbody : body.Guarantees R)
    (hR : ∀ d d', R d d' → R' d d') : body.Guarantees R' := by
  induction body with
  | ret a => trivial
  | raise fault => trivial
  | select query note k ih => exact fun b => ih b (hbody b)
  | lock row k ih => exact fun v => ih v (hbody v)
  | write change k ih => exact ⟨fun d => hR _ _ (hbody.1 d), ih hbody.2⟩

theorem guarantees_collect {ι : Type} {R : D → D → Prop} {visit : ι → Tx L X ε (Option β)}
    (hvisit : ∀ i, (visit i).Guarantees R) (is : List ι) : (collect visit is).Guarantees R := by
  induction is with
  | nil => trivial
  | cons i rest ih => exact (hvisit i).bind fun _ => ih.bind fun _ => trivial

theorem guarantees_each {ι : Type} {R : D → D → Prop} {visit : ι → Tx L X ε Unit}
    (hvisit : ∀ i, (visit i).Guarantees R) (is : List ι) : (each visit is).Guarantees R := by
  induction is with
  | nil => trivial
  | cons i rest ih => exact (hvisit i).bind fun _ => ih

theorem Guarantees.alone {R : D → D → Prop} {body : Tx L X ε α} (hbody : body.Guarantees R)
    {d : D} {pending change : D → D} {a : α}
    (h : Tx.alone d pending body = .ok (a, change)) (d' : D) :
    Relation.ReflTransGen R (pending d') (change d') := by
  induction body generalizing pending with
  | ret b =>
      cases h
      exact .refl
  | raise fault => cases h
  | select query note k ih => exact ih _ (hbody _) h
  | lock row k ih => exact ih _ (hbody _) h
  | write first k ih => exact (ih hbody.2 h).head (hbody.1 _)

/-- What a transaction guarantees of its writes holds of its commit, one step
after the other. -/
theorem Guarantees.commit {R : D → D → Prop} {body : Tx L X ε α} (hbody : body.Guarantees R)
    (d : D) : Relation.ReflTransGen R d (body.commit d) := by
  unfold Tx.commit
  split
  · rename_i a change h
    exact hbody.alone h d
  · exact .refl

/-- The pieces of a transaction run one after the other and turn the pending
change `p` into `q`. -/
inductive Sequence (d : D) : List (Tx L X ε Unit) → (D → D) → (D → D) → Prop
  | nil {p : D → D} : Sequence d [] p p
  | cons {body : Tx L X ε Unit} {rest : List (Tx L X ε Unit)} {p q r : D → D} :
      alone d p body = .ok ((), q) → Sequence d rest q r → Sequence d (body :: rest) p r

theorem Sequence.append {d : D} {first second : List (Tx L X ε Unit)} {p q r : D → D}
    (h : Sequence d first p q) (h' : Sequence d second q r) :
    Sequence d (first ++ second) p r := by
  induction h with
  | nil => exact h'
  | cons hbody _ ih => exact .cons hbody (ih h')

theorem Sequence.single {d : D} {body : Tx L X ε Unit} {p : D → D} {result : Unit × (D → D)}
    (h : alone d p body = .ok result) : Sequence d [body] p result.2 :=
  .cons h .nil

theorem Sequence.each {ι : Type} {visit : ι → Tx L X ε Unit} {d : D} {is : List ι} {p : D → D}
    {result : Unit × (D → D)} (h : alone d p (Tx.each visit is) = .ok result) :
    Sequence d (is.map visit) p result.2 := by
  induction is generalizing p with
  | nil =>
      cases h
      exact .nil
  | cons i rest ih =>
      obtain ⟨_, q, hfirst, hrest⟩ := alone_bind_eq_ok h
      exact .cons hfirst (ih hrest)

theorem Sequence.steps {d : D} {bodies : List (Tx L X ε Unit)} {p r : D → D}
    (h : Sequence d bodies p r) {R : D → D → Prop} (hR : ∀ body ∈ bodies, body.Guarantees R)
    (d' : D) : Relation.ReflTransGen R (p d') (r d') := by
  induction h with
  | nil => exact .refl
  | @cons body rest _ _ _ hbody _ ih =>
      refine ((hR body List.mem_cons_self).alone hbody d').trans (ih fun other hother => ?_)
      exact hR other (List.mem_cons_of_mem _ hother)

/-- What every piece keeps of the pending changes, the sequence keeps. -/
theorem Sequence.holds {d : D} {bodies : List (Tx L X ε Unit)} {p r : D → D}
    (h : Sequence d bodies p r) {P : (D → D) → Prop}
    (hbody : ∀ body ∈ bodies, ∀ p' q', alone d p' body = .ok ((), q') → P p' → P q')
    (hp : P p) : P r := by
  induction h with
  | nil => exact hp
  | cons hfirst _ ih =>
      refine ih (fun body hmem => ?_) (hbody _ List.mem_cons_self _ _ hfirst hp)
      exact hbody body (List.mem_cons_of_mem _ hmem)

/-- One piece of a sequence, with what the pieces before and after it
guarantee. -/
theorem Sequence.at {d : D} {bodies : List (Tx L X ε Unit)} {p r : D → D}
    (h : Sequence d bodies p r) {body : Tx L X ε Unit} (hmem : body ∈ bodies) :
    ∃ p' q', alone d p' body = .ok ((), q') ∧ ∀ R : D → D → Prop,
      (∀ body ∈ bodies, body.Guarantees R) →
      ∀ d', Relation.ReflTransGen R (p d') (p' d') ∧ Relation.ReflTransGen R (q' d') (r d') := by
  induction h with
  | nil => cases hmem
  | @cons first rest p q r hfirst hrest ih =>
      rcases List.mem_cons.mp hmem with rfl | hlater
      · refine ⟨p, q, hfirst, fun R hR d' => ⟨.refl, hrest.steps (fun other hother => ?_) d'⟩⟩
        exact hR other (List.mem_cons_of_mem _ hother)
      · obtain ⟨p', q', halone, hsteps⟩ := ih hlater
        refine ⟨p', q', halone, fun R hR d' => ?_⟩
        obtain ⟨hbefore, hafter⟩ := hsteps R
          (fun other hother => hR other (List.mem_cons_of_mem _ hother)) d'
        exact ⟨((hR first List.mem_cons_self).alone hfirst d').trans hbefore, hafter⟩

/-- The part `π` of the database stays as it is. -/
def Keeps {γ : Type} (π : D → γ) (d d' : D) : Prop :=
  π d' = π d

theorem Keeps.map {γ δ : Type} {π : D → γ} {d d' : D} (g : γ → δ) (h : Keeps π d d') :
    Keeps (fun d => g (π d)) d d' :=
  congrArg g h

theorem keeps_of_reflTransGen {γ : Type} {π : D → γ} {d d' : D}
    (h : Relation.ReflTransGen (Keeps π) d d') : π d' = π d := by
  induction h with
  | refl => rfl
  | tail _ hstep ih => exact Eq.trans hstep ih

/-- What every step keeps holds from then on. -/
theorem holds_of_reflTransGen {P : D → Prop} {d d' : D}
    (h : Relation.ReflTransGen (fun d d' => P d → P d') d d') (hd : P d) : P d' := by
  induction h with
  | refl => exact hd
  | tail _ hstep ih => exact hstep ih

end Tx

/-- A call: atomic actions that read the database and act on the second store
`X`, and transactions.  An action lists its possible answers, so an outcome
the model leaves open is a choice among several. -/
inductive Prog (L : Rows D) (X ε : Type) (α : Type) : Type 1 where
  | done (a : α)
  | raise (e : ε)
  | act {β : Type} (f : Nat → D → X → List (β × X)) (k : β → Prog L X ε α)
  | txn {β : Type} (note : Nat → β → X → X) (body : Tx L X ε β)
      (k : Except (Fault ε) β → Prog L X ε α)

/-- What the calls share: the committed database and the second store. -/
structure Core (D X : Type) where
  db : D
  store : X

namespace Prog

variable {L : Rows D} {X ε α β : Type}

def bind : Prog L X ε α → (α → Prog L X ε β) → Prog L X ε β
  | done a, f => f a
  | raise e, _ => raise e
  | act g k, f => act g fun b => (k b).bind f
  | txn note body k, f => txn note body fun r => (k r).bind f

instance : Monad (Prog L X ε) where
  pure := done
  bind := bind

theorem bind_assoc {γ : Type} (p : Prog L X ε α) (f : α → Prog L X ε β)
    (g : β → Prog L X ε γ) : (p >>= f) >>= g = p >>= fun a => f a >>= g := by
  change (p.bind f).bind g = p.bind fun a => (f a).bind g
  induction p with
  | done a => rfl
  | raise e => rfl
  | act h k ih => exact congrArg (act h) (funext ih)
  | txn note body k ih => exact congrArg (txn note body) (funext ih)

theorem pure_bind (a : α) (f : α → Prog L X ε β) : (pure a >>= f : Prog L X ε β) = f a :=
  rfl

/-- Run one piece of a call for each element. -/
def each {ι : Type} (visit : ι → Prog L X ε Unit) : List ι → Prog L X ε Unit
  | [] => done ()
  | i :: rest => do
      visit i
      each visit rest

end Prog

end Interleave
