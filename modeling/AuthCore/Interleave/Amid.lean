/-
One call that is disturbed: before its `n`-th step the outside world does `disturb n` to the second
store.  What a call does to the database whatever the store answers is a condition on its program.
-/
import AuthCore.Interleave.Solo

namespace Interleave

variable {D : Type} {L : Rows D} {X ε α β : Type}

namespace Prog

/-- The answer of a disturbed call, the stores it leaves and the number of its next step. -/
def amid (i : Nat) (pass : X → Bool) (disturb : Nat → X → X) :
    Nat → Prog L X ε α → Core D X → Option (Except ε α × Core D X × Nat)
  | n, done a, c => some (.ok a, c, n)
  | n, raise e, c => some (.error e, c, n)
  | n, act f k, c =>
      ((f i c.db (disturb n c.store)).find? fun answer => pass answer.2).bind fun answer =>
        amid i pass disturb (n + 1) (k answer.1) ⟨c.db, answer.2⟩
  | n, txn note body k, c =>
      match Tx.solo i c.db id (disturb n c.store) body with
      | (.ok (b, change), x) =>
          amid i pass disturb (n + 1) (k (.ok b)) ⟨change c.db, note i b x⟩
      | (.error fault, x) => amid i pass disturb (n + 1) (k (.error fault)) ⟨c.db, x⟩

variable {i n n' : Nat} {pass : X → Bool} {disturb : Nat → X → X} {c c' : Core D X}

/-- A call that nothing disturbs runs alone. -/
theorem amid_undisturbed (p : Prog L X ε α) (n : Nat) (c : Core D X) :
    (p.amid i pass (fun _ x => x) n c).map (fun result => (result.1, result.2.1)) =
      p.solo i pass c := by
  induction p generalizing n c with
  | done a => rfl
  | raise e => rfl
  | act f k ih =>
      simp only [amid, solo]
      cases (f i c.db c.store).find? fun answer => pass answer.2 with
      | none => rfl
      | some answer => exact ih _ _ _
  | txn note body k ih =>
      simp only [amid, solo]
      rcases Tx.solo i c.db id c.store body with ⟨fault | ⟨b, change⟩, x⟩
      · exact ih _ _ _
      · exact ih _ _ _

theorem amid_bind (p : Prog L X ε α) (f : α → Prog L X ε β) (n : Nat) (c : Core D X) :
    (p >>= f).amid i pass disturb n c = (p.amid i pass disturb n c).bind fun result =>
      match result.1 with
      | .ok a => (f a).amid i pass disturb result.2.2 result.2.1
      | .error e => some (.error e, result.2.1, result.2.2) := by
  change (p.bind f).amid i pass disturb n c = _
  induction p generalizing n c with
  | done a => rfl
  | raise e => rfl
  | act g k ih =>
      simp only [Prog.bind, amid]
      cases (g i c.db (disturb n c.store)).find? fun answer => pass answer.2 with
      | none => rfl
      | some answer => exact ih _ _ _
  | txn note body k ih =>
      simp only [Prog.bind, amid]
      split
      · exact ih _ _ _
      · exact ih _ _ _

theorem amid_bind_ok {p : Prog L X ε α} {f : α → Prog L X ε β} {a : α}
    (h : p.amid i pass disturb n c = some (.ok a, c', n')) :
    (p >>= f).amid i pass disturb n c = (f a).amid i pass disturb n' c' := by
  rw [amid_bind, h]
  rfl

theorem amid_bind_error {p : Prog L X ε α} {f : α → Prog L X ε β} {e : ε}
    (h : p.amid i pass disturb n c = some (.error e, c', n')) :
    (p >>= f).amid i pass disturb n c = some (.error e, c', n') := by
  rw [amid_bind, h]
  rfl

theorem amid_txn (note : Nat → β → X → X) (body : Tx L X ε β)
    (k : Except (Fault ε) β → Prog L X ε α) : (txn note body k).amid i pass disturb n c =
      match body.alone c.db id with
      | .ok (b, change) => (k (.ok b)).amid i pass disturb (n + 1)
          ⟨change c.db, note i b (Tx.solo i c.db id (disturb n c.store) body).2⟩
      | .error fault => (k (.error fault)).amid i pass disturb (n + 1)
          ⟨c.db, (Tx.solo i c.db id (disturb n c.store) body).2⟩ := by
  rw [← Tx.solo_fst i c.db id (disturb n c.store) body]
  simp only [amid]
  rcases Tx.solo i c.db id (disturb n c.store) body with ⟨fault | ⟨b, change⟩, x⟩
  · rfl
  · rfl

/-- The outside world has an answer to every action of the call. -/
def Answered (i : Nat) (pass : X → Bool) : Prog L X ε α → Prop
  | done _ => True
  | raise _ => True
  | act f k => (∀ d x, ∃ answer ∈ f i d x, pass answer.2 = true) ∧ ∀ b, (k b).Answered i pass
  | txn _ _ k => ∀ result, (k result).Answered i pass

theorem Answered.bind {p : Prog L X ε α} {f : α → Prog L X ε β} (h : p.Answered i pass)
    (hf : ∀ a, (f a).Answered i pass) : (p >>= f).Answered i pass := by
  change (p.bind f).Answered i pass
  induction p with
  | done a => exact hf a
  | raise e => trivial
  | act g k ih => exact ⟨h.1, fun b => ih b (h.2 b)⟩
  | txn note body k ih => exact fun result => ih result (h result)

theorem Answered.amid {p : Prog L X ε α} (h : p.Answered i pass) (disturb : Nat → X → X) (n : Nat)
    (c : Core D X) : ∃ result c' n', p.amid i pass disturb n c = some (result, c', n') := by
  induction p generalizing n c with
  | done a => exact ⟨_, _, _, rfl⟩
  | raise e => exact ⟨_, _, _, rfl⟩
  | act f k ih =>
      simp only [Prog.amid]
      cases hfind : (f i c.db (disturb n c.store)).find? fun answer => pass answer.2 with
      | none =>
          obtain ⟨answer, hmem, hpass⟩ := h.1 c.db (disturb n c.store)
          exact absurd hpass (List.find?_eq_none.mp hfind answer hmem)
      | some answer => exact ih _ (h.2 _) _ _
  | txn note body k ih =>
      rw [amid_txn]
      cases body.alone c.db id with
      | ok outcome => exact ih _ (h _) _ _
      | error fault => exact ih _ (h _) _ _

/-- Whatever the second store answers, the answer of the call and the database it leaves
satisfy `Q`. -/
def Yields (Q : Except ε α → D → Prop) : Prog L X ε α → D → Prop
  | done a, d => Q (.ok a) d
  | raise e, d => Q (.error e) d
  | act _ k, d => ∀ b, (k b).Yields Q d
  | txn _ body k, d =>
      (∀ b change, body.alone d id = .ok (b, change) → (k (.ok b)).Yields Q (change d)) ∧
        ∀ fault, body.alone d id = .error fault → (k (.error fault)).Yields Q d

variable {Q : Except ε α → D → Prop}

theorem Yields.amid {p : Prog L X ε α} (h : p.Yields Q c.db) {result : Except ε α}
    (hrun : p.amid i pass disturb n c = some (result, c', n')) : Q result c'.db := by
  induction p generalizing n c with
  | done a =>
      obtain ⟨rfl, rfl, rfl⟩ : _ ∧ _ ∧ _ := by simpa [Prog.amid] using hrun
      exact h
  | raise e =>
      obtain ⟨rfl, rfl, rfl⟩ : _ ∧ _ ∧ _ := by simpa [Prog.amid] using hrun
      exact h
  | act f k ih =>
      obtain ⟨answer, _, hrest⟩ := Option.bind_eq_some_iff.mp hrun
      exact ih answer.1 (c := ⟨c.db, answer.2⟩) (h answer.1) hrest
  | txn note body k ih =>
      have hfst := Tx.solo_fst i c.db id (disturb n c.store) body
      simp only [Prog.amid] at hrun
      split at hrun
      · rename_i b change x hsolo
        rw [hsolo] at hfst
        exact ih (.ok b) (c := ⟨change c.db, note i b x⟩) (h.1 b change hfst.symm) hrun
      · rename_i fault x hsolo
        rw [hsolo] at hfst
        exact ih (.error fault) (c := ⟨c.db, x⟩) (h.2 fault hfst.symm) hrun

theorem yields_bind {p : Prog L X ε α} {f : α → Prog L X ε β} {Q : Except ε β → D → Prop} {d : D}
    (h : p.Yields (fun result d => match result with
      | .ok a => (f a).Yields Q d
      | .error e => Q (.error e) d) d) : (p >>= f).Yields Q d := by
  change (p.bind f).Yields Q d
  induction p generalizing d with
  | done a => exact h
  | raise e => exact h
  | act g k ih => exact fun b => ih b (h b)
  | txn note body k ih =>
      exact ⟨fun b change halone => ih _ (h.1 b change halone),
        fun fault halone => ih _ (h.2 fault halone)⟩

theorem Yields.imp {p : Prog L X ε α} {Q' : Except ε α → D → Prop} {d : D} (h : p.Yields Q d)
    (himp : ∀ result d, Q result d → Q' result d) : p.Yields Q' d := by
  induction p generalizing d with
  | done a => exact himp _ _ h
  | raise e => exact himp _ _ h
  | act g k ih => exact fun b => ih b (h b)
  | txn note body k ih =>
      exact ⟨fun b change halone => ih _ (h.1 b change halone),
        fun fault halone => ih _ (h.2 fault halone)⟩

end Prog

end Interleave
