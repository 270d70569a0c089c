/-
One call with nobody else around: it runs from its beginning to its end, and the
machine has a run that does the same.  `pass` says which answers the outside
world gives where an action has several.
-/
import AuthCore.Interleave.Machine

namespace Interleave

variable {D : Type} {L : Rows D} {X ε α β : Type}

namespace Tx

/-- `alone`, with what the queries note in the second store. -/
def solo (i : Nat) (d : D) : (D → D) → X → Tx L X ε α → Except (Fault ε) (α × (D → D)) × X
  | pending, x, ret a => (.ok (a, pending), x)
  | _, x, raise fault => (.error fault, x)
  | pending, x, select query note k =>
      solo i d pending (note i (query (pending d)) x) (k (query (pending d)))
  | pending, x, lock row k => solo i d pending x (k (L.view row d))
  | pending, x, write change k => solo i d (change.apply ∘ pending) x k

theorem solo_fst (i : Nat) (d : D) (pending : D → D) (x : X) (body : Tx L X ε α) :
    (solo i d pending x body).1 = alone d pending body := by
  induction body generalizing pending x with
  | ret a => rfl
  | raise fault => rfl
  | select query note k ih => exact ih _ _ _
  | lock row k ih => exact ih _ _ _
  | write change k ih => exact ih _ _

/-- A transaction without queries notes nothing. -/
theorem solo_snd (i : Nat) (d : D) (pending : D → D) (x : X) {body : Tx L X ε α}
    (h : body.LockOnly) : (solo i d pending x body).2 = x := by
  induction body generalizing pending with
  | ret a => rfl
  | raise fault => rfl
  | select query note k _ => exact h.elim
  | lock row k ih => exact ih _ _ (h _)
  | write change k ih => exact ih _ h

theorem solo_of_lockOnly (i : Nat) (d : D) (pending : D → D) (x : X) {body : Tx L X ε α}
    (h : body.LockOnly) : solo i d pending x body = (alone d pending body, x) :=
  Prod.ext (solo_fst i d pending x body) (solo_snd i d pending x h)

end Tx

namespace Prog

/-- The answer of a call that runs alone and the stores it leaves, or none when
the outside world has no answer to one of its actions. -/
def solo (i : Nat) (pass : X → Bool) : Prog L X ε α → Core D X → Option (Except ε α × Core D X)
  | done a, c => some (.ok a, c)
  | raise e, c => some (.error e, c)
  | act f k, c =>
      ((f i c.db c.store).find? fun answer => pass answer.2).bind fun answer =>
        solo i pass (k answer.1) ⟨c.db, answer.2⟩
  | txn note body k, c =>
      match Tx.solo i c.db id c.store body with
      | (.ok (b, change), x) => solo i pass (k (.ok b)) ⟨change c.db, note i b x⟩
      | (.error fault, x) => solo i pass (k (.error fault)) ⟨c.db, x⟩

variable {i : Nat} {pass : X → Bool}

theorem solo_bind (p : Prog L X ε α) (f : α → Prog L X ε β) (c : Core D X) :
    (p >>= f).solo i pass c = (p.solo i pass c).bind fun result =>
      match result.1 with
      | .ok a => (f a).solo i pass result.2
      | .error e => some (.error e, result.2) := by
  change (p.bind f).solo i pass c = _
  induction p generalizing c with
  | done a => rfl
  | raise e => rfl
  | act g k ih =>
      simp only [Prog.bind, solo]
      cases (g i c.db c.store).find? fun answer => pass answer.2 with
      | none => rfl
      | some answer => exact ih _ _
  | txn note body k ih =>
      simp only [Prog.bind, solo]
      split
      · exact ih _ _
      · exact ih _ _

theorem solo_bind_ok {p : Prog L X ε α} {f : α → Prog L X ε β} {c c' : Core D X} {a : α}
    (h : p.solo i pass c = some (.ok a, c')) :
    (p >>= f).solo i pass c = (f a).solo i pass c' := by
  rw [solo_bind, h]
  rfl

theorem solo_bind_error {p : Prog L X ε α} {f : α → Prog L X ε β} {c c' : Core D X} {e : ε}
    (h : p.solo i pass c = some (.error e, c')) :
    (p >>= f).solo i pass c = some (.error e, c') := by
  rw [solo_bind, h]
  rfl

@[simp]
theorem solo_pure (a : α) (c : Core D X) :
    (pure a : Prog L X ε α).solo i pass c = some (.ok a, c) :=
  rfl

@[simp]
theorem solo_raise (e : ε) (c : Core D X) :
    (raise e : Prog L X ε α).solo i pass c = some (.error e, c) :=
  rfl

theorem solo_txn (i : Nat) (pass : X → Bool) (note : Nat → β → X → X) (body : Tx L X ε β)
    (k : Except (Fault ε) β → Prog L X ε α) (c : Core D X) :
    ∃ x, (txn note body k).solo i pass c =
      match body.alone c.db id with
      | .ok (b, change) => (k (.ok b)).solo i pass ⟨change c.db, note i b x⟩
      | .error fault => (k (.error fault)).solo i pass ⟨c.db, x⟩ := by
  refine ⟨(Tx.solo i c.db id c.store body).2, ?_⟩
  have hfst := Tx.solo_fst i c.db id c.store body
  simp only [solo]
  split
  · rename_i b change x hsolo
    rw [hsolo] at hfst
    simp only [← hfst, hsolo]
  · rename_i fault x hsolo
    rw [hsolo] at hfst
    simp only [← hfst, hsolo]

theorem solo_txn_of_lockOnly (i : Nat) (pass : X → Bool) (note : Nat → β → X → X)
    {body : Tx L X ε β} (h : body.LockOnly) (k : Except (Fault ε) β → Prog L X ε α)
    (c : Core D X) : (txn note body k).solo i pass c =
      match body.alone c.db id with
      | .ok (b, change) => (k (.ok b)).solo i pass ⟨change c.db, note i b c.store⟩
      | .error fault => (k (.error fault)).solo i pass c := by
  simp only [solo, Tx.solo_of_lockOnly i c.db id c.store h]
  cases body.alone c.db id with
  | ok outcome => rfl
  | error fault => rfl

/-- A transaction that answers has committed or failed. -/
theorem solo_txn_eq_some {note : Nat → β → X → X} {body : Tx L X ε β}
    {k : Except (Fault ε) β → Prog L X ε α} {c c' : Core D X} {result : Except ε α}
    (h : (txn note body k).solo i pass c = some (result, c')) :
    (∃ b change x, body.alone c.db id = .ok (b, change) ∧
      (k (.ok b)).solo i pass ⟨change c.db, x⟩ = some (result, c')) ∨
    ∃ fault x, body.alone c.db id = .error fault ∧
      (k (.error fault)).solo i pass ⟨c.db, x⟩ = some (result, c') := by
  obtain ⟨x, hx⟩ := solo_txn i pass note body k c
  rw [h] at hx
  cases hbody : body.alone c.db id with
  | ok outcome =>
      rw [hbody] at hx
      exact Or.inl ⟨outcome.1, outcome.2, _, rfl, hx.symm⟩
  | error fault =>
      rw [hbody] at hx
      exact Or.inr ⟨fault, x, rfl, hx.symm⟩

/-- However the call ends when it runs alone from this state, its answer and the
stores it leaves satisfy `Q`. -/
def Leaves (i : Nat) (pass : X → Bool) (Q : Except ε α → Core D X → Prop) (p : Prog L X ε α)
    (c : Core D X) : Prop :=
  ∀ result c', p.solo i pass c = some (result, c') → Q result c'

section Leaves

variable {Q : Except ε α → Core D X → Prop} {c : Core D X}

theorem leaves_done {a : α} (h : Q (.ok a) c) : Leaves i pass Q (done a : Prog L X ε α) c := by
  intro result c' hsolo
  obtain ⟨rfl, rfl⟩ := Prod.mk.inj (Option.some.inj hsolo)
  exact h

theorem leaves_raise {e : ε} (h : Q (.error e) c) :
    Leaves i pass Q (raise e : Prog L X ε α) c := by
  intro result c' hsolo
  obtain ⟨rfl, rfl⟩ := Prod.mk.inj (Option.some.inj hsolo)
  exact h

theorem leaves_act {f : Nat → D → X → List (β × X)} {k : β → Prog L X ε α}
    (h : ∀ answer ∈ f i c.db c.store, Leaves i pass Q (k answer.1) ⟨c.db, answer.2⟩) :
    Leaves i pass Q (act f k) c := by
  intro result c' hsolo
  obtain ⟨answer, hfind, hrest⟩ := Option.bind_eq_some_iff.mp hsolo
  exact h answer (List.mem_of_find?_eq_some hfind) result c' hrest

/-- A transaction without queries. -/
theorem leaves_txn {note : Nat → β → X → X} {body : Tx L X ε β}
    {k : Except (Fault ε) β → Prog L X ε α} (hbody : body.LockOnly)
    (hok : ∀ b change, body.alone c.db id = .ok (b, change) →
      Leaves i pass Q (k (.ok b)) ⟨change c.db, note i b c.store⟩)
    (herror : ∀ fault, body.alone c.db id = .error fault →
      Leaves i pass Q (k (.error fault)) c) : Leaves i pass Q (txn note body k) c := by
  intro result c' hsolo
  simp only [solo, Tx.solo_of_lockOnly i c.db id c.store hbody] at hsolo
  cases halone : body.alone c.db id with
  | ok outcome =>
      rw [halone] at hsolo
      exact hok outcome.1 outcome.2 halone result c' hsolo
  | error fault =>
      rw [halone] at hsolo
      exact herror fault halone result c' hsolo

/-- A transaction that begins with its only query. -/
theorem leaves_lookup {γ : Type} {note : Nat → β → X → X} {query : D → γ}
    {seen : Nat → γ → X → X} {body : γ → Tx L X ε β} {k : Except (Fault ε) β → Prog L X ε α}
    (hbody : (body (query c.db)).LockOnly)
    (hok : ∀ b change, (body (query c.db)).alone c.db id = .ok (b, change) →
      Leaves i pass Q (k (.ok b)) ⟨change c.db, note i b (seen i (query c.db) c.store)⟩)
    (herror : ∀ fault, Leaves i pass Q (k (.error fault))
      ⟨c.db, seen i (query c.db) c.store⟩) :
    Leaves i pass Q (txn note (.select query seen body) k) c := by
  have hrest : Leaves i pass Q (txn note (body (query c.db)) k)
      ⟨c.db, seen i (query c.db) c.store⟩ :=
    leaves_txn hbody hok fun fault _ => herror fault
  intro result c' hsolo
  refine hrest result c' ?_
  rw [← hsolo]
  simp only [solo, Tx.solo]
  rfl

/-- A transaction of any kind. -/
theorem leaves_commit {note : Nat → β → X → X} {body : Tx L X ε β}
    {k : Except (Fault ε) β → Prog L X ε α}
    (hok : ∀ b change x, body.alone c.db id = .ok (b, change) →
      Leaves i pass Q (k (.ok b)) ⟨change c.db, x⟩)
    (herror : ∀ fault x, body.alone c.db id = .error fault →
      Leaves i pass Q (k (.error fault)) ⟨c.db, x⟩) : Leaves i pass Q (txn note body k) c := by
  intro result c' hsolo
  rcases solo_txn_eq_some hsolo with ⟨b, change, x, hbody, hrest⟩ | ⟨fault, x, hbody, hrest⟩
  · exact hok b change x hbody result c' hrest
  · exact herror fault x hbody result c' hrest

theorem leaves_bind {p : Prog L X ε β} {f : β → Prog L X ε α}
    (h : Leaves i pass (fun result c' => match result with
      | .ok b => Leaves i pass Q (f b) c'
      | .error e => Q (.error e) c') p c) : Leaves i pass Q (p >>= f) c := by
  intro result c' hsolo
  rw [solo_bind] at hsolo
  obtain ⟨⟨first, mid⟩, hp, hrest⟩ := Option.bind_eq_some_iff.mp hsolo
  have hfirst := h first mid hp
  cases first with
  | ok b => exact hfirst result c' hrest
  | error e =>
      obtain ⟨rfl, rfl⟩ := Prod.mk.inj (Option.some.inj hrest)
      exact hfirst

/-- Every error that the code of the call raises satisfies `P`. -/
def Raises (P : ε → Prop) : Prog L X ε α → Prop
  | done _ => True
  | raise e => P e
  | act _ k => ∀ b, (k b).Raises P
  | txn _ _ k => ∀ result, (k result).Raises P

theorem Raises.bind {P : ε → Prop} {p : Prog L X ε α} {f : α → Prog L X ε β}
    (h : p.Raises P) (hf : ∀ a, (f a).Raises P) : (p >>= f).Raises P := by
  change (p.bind f).Raises P
  induction p with
  | done a => exact hf a
  | raise e => exact h
  | act g k ih => exact fun b => ih b (h b)
  | txn note body k ih => exact fun result => ih result (h result)

theorem raises_each {ι : Type} {P : ε → Prop} {visit : ι → Prog L X ε Unit}
    (hvisit : ∀ j, (visit j).Raises P) (js : List ι) : (each visit js).Raises P := by
  induction js with
  | nil => trivial
  | cons j rest ih => exact (hvisit j).bind fun _ => ih

theorem Raises.solo {P : ε → Prop} {p : Prog L X ε α} (h : p.Raises P) {e : ε}
    {c' : Core D X} (hsolo : p.solo i pass c = some (.error e, c')) : P e := by
  induction p generalizing c with
  | done a => cases hsolo
  | raise e' =>
      cases hsolo
      exact h
  | act g k ih =>
      obtain ⟨answer, _, hrest⟩ := Option.bind_eq_some_iff.mp hsolo
      exact ih _ (h _) hrest
  | txn note body k ih =>
      rcases solo_txn_eq_some hsolo with ⟨b, change, x, _, hrest⟩ | ⟨fault, x, _, hrest⟩
      · exact ih _ (h _) hrest
      · exact ih _ (h _) hrest

end Leaves

/-- Run alone from states that `R` relates, the two calls give the same answer
and leave states that `R` relates. -/
def Alike (i : Nat) (pass : X → Bool) (R : Core D X → Core D X → Prop)
    (p q : Prog L X ε α) : Prop :=
  ∀ c c', R c c' → ∃ result d d', p.solo i pass c = some (result, d) ∧
    q.solo i pass c' = some (result, d') ∧ R d d'

variable {R : Core D X → Core D X → Prop}

theorem alike_pure (a : α) : Alike i pass R (pure a : Prog L X ε α) (pure a) :=
  fun c c' h => ⟨_, c, c', rfl, rfl, h⟩

theorem alike_raise (e : ε) : Alike i pass R (raise e : Prog L X ε α) (raise e) :=
  fun c c' h => ⟨_, c, c', rfl, rfl, h⟩

theorem Alike.bind {p q : Prog L X ε α} {f g : α → Prog L X ε β} (h : Alike i pass R p q)
    (hrest : ∀ a, Alike i pass R (f a) (g a)) : Alike i pass R (p >>= f) (q >>= g) := by
  intro c c' hc
  obtain ⟨result, d, d', hp, hq, hd⟩ := h c c' hc
  simp only [solo_bind, hp, hq, Option.bind_some]
  cases result with
  | ok a => exact hrest a d d' hd
  | error e => exact ⟨_, d, d', rfl, rfl, hd⟩

/-- Run alone from this state, the call gives an answer that satisfies `P`. -/
def Ends (i : Nat) (pass : X → Bool) (P : Except ε α → Prop) (p : Prog L X ε α)
    (c : Core D X) : Prop :=
  ∃ result d, p.solo i pass c = some (result, d) ∧ P result

/-- Run alone from this state, the call answers without an error. -/
abbrev Succeeds (i : Nat) (pass : X → Bool) (p : Prog L X ε α) (c : Core D X) : Prop :=
  Ends i pass (fun result => ∃ a, result = .ok a) p c

theorem ends_pure {P : Except ε α → Prop} {a : α} {c : Core D X} (h : P (.ok a)) :
    Ends i pass P (pure a : Prog L X ε α) c :=
  ⟨_, _, rfl, h⟩

theorem ends_raise {P : Except ε α → Prop} {e : ε} {c : Core D X} (h : P (.error e)) :
    Ends i pass P (raise e : Prog L X ε α) c :=
  ⟨_, _, rfl, h⟩

theorem Succeeds.bind {p : Prog L X ε α} {f : α → Prog L X ε β} {P : Except ε β → Prop}
    {c : Core D X} (h : Succeeds i pass p c) (hrest : ∀ a d, Ends i pass P (f a) d) :
    Ends i pass P (p >>= f) c := by
  obtain ⟨_, d, hp, a, rfl⟩ := h
  obtain ⟨result, d', hf, hresult⟩ := hrest a d
  refine ⟨result, d', ?_, hresult⟩
  simp only [solo_bind, hp, Option.bind_some, hf]

theorem ends_bind_ok {p : Prog L X ε α} {f : α → Prog L X ε β} {P : Except ε β → Prop}
    {c d : Core D X} {a : α} (h : p.solo i pass c = some (.ok a, d))
    (hrest : Ends i pass P (f a) d) : Ends i pass P (p >>= f) c := by
  obtain ⟨result, d', hsolo, hresult⟩ := hrest
  exact ⟨result, d', (solo_bind_ok h).trans hsolo, hresult⟩

theorem ends_bind_error {p : Prog L X ε α} {f : α → Prog L X ε β} {P : Except ε β → Prop}
    {c d : Core D X} {e : ε} (h : p.solo i pass c = some (.error e, d)) (hresult : P (.error e)) :
    Ends i pass P (p >>= f) c :=
  ⟨_, d, solo_bind_error h, hresult⟩

theorem Ends.imp {p : Prog L X ε α} {P Q : Except ε α → Prop} {c : Core D X}
    (h : Ends i pass P p c) (himp : ∀ result, P result → Q result) : Ends i pass Q p c := by
  obtain ⟨result, d, hsolo, hresult⟩ := h
  exact ⟨result, d, hsolo, himp result hresult⟩

theorem ends_txn {P : Except ε α → Prop} {note : Nat → β → X → X} {body : Tx L X ε β}
    {k : Except (Fault ε) β → Prog L X ε α} {c : Core D X} {b : β} {change : D → D}
    (hbody : body.alone c.db id = .ok (b, change)) (hrest : ∀ d, Ends i pass P (k (.ok b)) d) :
    Ends i pass P (txn note body k) c := by
  obtain ⟨x, hx⟩ := solo_txn i pass note body k c
  rw [hbody] at hx
  obtain ⟨result, d, hk, hresult⟩ := hrest ⟨change c.db, note i b x⟩
  exact ⟨result, d, hx.trans hk, hresult⟩

/-- However the transaction ends, the rest of the call gives such an answer. -/
theorem ends_txn_of_faults {P : Except ε α → Prop} {F : Fault ε → Prop} {note : Nat → β → X → X}
    {body : Tx L X ε β} {k : Except (Fault ε) β → Prog L X ε α} {c : Core D X}
    (hbody : body.Faults F) (hok : ∀ b d, Ends i pass P (k (.ok b)) d)
    (herror : ∀ fault d, F fault → Ends i pass P (k (.error fault)) d) :
    Ends i pass P (txn note body k) c := by
  rcases hbody.alone c.db id with ⟨b, change, halone⟩ | ⟨fault, halone, hfault⟩
  · exact ends_txn halone fun d => hok b d
  · obtain ⟨x, hx⟩ := solo_txn i pass note body k c
    rw [halone] at hx
    obtain ⟨result, d, hk, hresult⟩ := herror fault ⟨c.db, x⟩ hfault
    exact ⟨result, d, hx.trans hk, hresult⟩

end Prog

namespace Service

/-- The answer of call `i`, made with nobody else around, and the stores it
leaves. -/
def solo (S : Service L X ε α) (pass : X → Bool) (i : Nat) (call : S.Call) (c : Core D X) :
    Option (Except ε α × Core D X) :=
  ((S.prog i call).solo i pass ⟨c.db, S.onCall i call c.store⟩).map fun result =>
    (result.1, ⟨result.2.db, S.onReturn i result.1 result.2.store⟩)

variable {S : Service L X ε α} {i : Nat}

/-- `c'` comes from `c` by the calls `calls`, the last one first: each is made with
a number of its own when the one before it is over, and time may pass between
them. -/
inductive Sequential (S : Service L X ε α) (c : Core D X) :
    List (Nat × S.Call) → Core D X → Prop
  | start : Sequential S c [] c
  | call {calls : List (Nat × S.Call)} {c' c'' : Core D X} {i : Nat} {call : S.Call}
      {pass : X → Bool} {result : Except ε α} :
      Sequential S c calls c' → i ∉ calls.map Prod.fst →
      S.solo pass i call c' = some (result, c'') → Sequential S c ((i, call) :: calls) c''
  | tick {calls : List (Nat × S.Call)} {c' : Core D X} (n : Nat) :
      Sequential S c calls c' → Sequential S c calls ⟨c'.db, S.tick n c'.store⟩

theorem Sequential.append {c c' c'' : Core D X} {calls later : List (Nat × S.Call)}
    (h : Sequential S c calls c') (hlater : Sequential S c' later c'')
    (hnew : ∀ i ∈ later.map Prod.fst, i ∉ calls.map Prod.fst) :
    Sequential S c (later ++ calls) c'' := by
  induction hlater with
  | start => exact h
  | call _ hfirst hsolo ih =>
      simp only [List.map_cons, List.forall_mem_cons] at hnew
      refine .call (ih hnew.2) ?_ hsolo
      simp only [List.append_eq, List.map_append, List.mem_append, not_or]
      exact ⟨hfirst, hnew.1⟩
  | tick n _ ih => exact .tick n (ih hnew)

/-- No call but `i` has a lock. -/
def Free (s : Config L X ε α) (i : Nat) : Prop :=
  ∀ row, s.locks row = none ∨ s.locks row = some i

/-- No call has a lock. -/
def Unlocked (s : Config L X ε α) : Prop :=
  ∀ row, s.locks row = none

theorem Unlocked.free {s : Config L X ε α} (h : Unlocked s) (i : Nat) : Free s i :=
  fun row => Or.inl (h row)

theorem unlocked_leaveTx {s : Config L X ε α} (h : Free s i) (p : Prog L X ε α) :
    Unlocked (s.leaveTx i p) := by
  intro row
  change (if s.locks row = some i then none else s.locks row) = none
  rcases h row with hnone | hmine
  · simp [hnone]
  · simp [hmine]

/-- What a call that runs alone leaves behind. -/
structure Ran (s s' : Config L X ε α) (i : Nat) (t : Thread L X ε α) (c : Core D X) : Prop where
  core : s'.core = c
  thread : s'.threads i = some t
  others : ∀ j, j ≠ i → s'.threads j = s.threads j
  free : Free s' i

theorem Ran.trans {s s' s'' : Config L X ε α} {t t' : Thread L X ε α} {c c' : Core D X}
    (h : Ran s s' i t c) (h' : Ran s' s'' i t' c') : Ran s s'' i t' c' :=
  ⟨h'.core, h'.thread, fun j hj => (h'.others j hj).trans (h.others j hj), h'.free⟩

theorem ran_setThread {s : Config L X ε α} (h : Free s i) (c : Core D X)
    (t : Thread L X ε α) : Ran s ((s.setCore c).setThread i t) i t c where
  core := rfl
  thread := by simp [Config.setThread]
  others j hj := by simp [Config.setThread, Config.setCore, hj]
  free := h

theorem ran_leaveTx {s : Config L X ε α} (h : Free s i) (c : Core D X) (p : Prog L X ε α) :
    Ran s ((s.setCore c).leaveTx i p) i (.run p) c where
  core := rfl
  thread := by simp [Config.leaveTx, Config.setThread]
  others j hj := by simp [Config.leaveTx, Config.setThread, Config.release, Config.setCore, hj]
  free := (unlocked_leaveTx (s := s.setCore c) h p).free i

variable [DecidableEq L.Row]

theorem ran_grab {s : Config L X ε α} (h : Free s i) (rows : List L.Row)
    (t : Thread L X ε α) : Ran s ((s.grab i rows).setThread i t) i t s.core where
  core := rfl
  thread := by simp [Config.setThread]
  others j hj := by simp [Config.setThread, Config.grab, hj]
  free row := by
    change (if row ∈ rows then some i else s.locks row) = none ∨
      (if row ∈ rows then some i else s.locks row) = some i
    by_cases hrow : row ∈ rows
    · exact Or.inr (if_pos hrow)
    · rw [if_neg hrow]
      exact h row

/-- The machine gets call `i` from `s` to the state `t` over `c` by moves of
that call alone, and no lock is left. -/
def Gets (S : Service L X ε α) (s : Config L X ε α) (i : Nat) (t : Thread L X ε α)
    (c : Core D X) : Prop :=
  ∃ moves s', S.run s moves = some s' ∧ Ran s s' i t c ∧ Unlocked s'

theorem gets_of_step {s s' : Config L X ε α} {t t' t'' : Thread L X ε α} {c c' : Core D X}
    (choice : Nat) (ht : s.threads i = some t) (hstep : S.stepThread s i choice t = some s')
    (hran : Ran s s' i t' c) (hrest : Gets S s' i t'' c') : Gets S s i t'' c' := by
  obtain ⟨moves, last, hrun, hlast, hunlocked⟩ := hrest
  refine ⟨.step i choice :: moves, last, ?_, hran.trans hlast, hunlocked⟩
  simpa [run, exec, ht, hstep] using hrun

theorem gets_refl {s : Config L X ε α} {t : Thread L X ε α} (ht : s.threads i = some t)
    (hunlocked : Unlocked s) : Gets S s i t s.core :=
  ⟨[], s, rfl, ⟨rfl, ht, fun _ _ => rfl, hunlocked.free i⟩, hunlocked⟩

/-- A transaction of a call that runs alone commits or fails as `Tx.solo` says. -/
theorem gets_tx {note : Nat → β → X → X} {k : Except (Fault ε) β → Prog L X ε α}
    {body : Tx L X ε β} {pending : D → D} {s : Config L X ε α}
    (ht : s.threads i = some (.inTx note pending body k)) (hfree : Free s i)
    {t : Thread L X ε α} {c : Core D X}
    (hok : ∀ b change x, Tx.solo i s.core.db pending s.core.store body = (.ok (b, change), x) →
      ∀ s', Ran s s' i (.run (k (.ok b))) ⟨change s.core.db, note i b x⟩ → Unlocked s' →
        Gets S s' i t c)
    (herror : ∀ fault x, Tx.solo i s.core.db pending s.core.store body = (.error fault, x) →
      ∀ s', Ran s s' i (.run (k (.error fault))) ⟨s.core.db, x⟩ → Unlocked s' →
        Gets S s' i t c) :
    Gets S s i t c := by
  induction body generalizing pending s with
  | ret b =>
      have hran := ran_leaveTx hfree ⟨pending s.core.db, note i b s.core.store⟩ (k (.ok b))
      have hunlocked := unlocked_leaveTx (s := s.setCore _) hfree (k (.ok b))
      exact gets_of_step 0 ht rfl hran (hok b pending _ rfl _ hran hunlocked)
  | raise fault =>
      have hran := ran_leaveTx hfree s.core (k (.error fault))
      have hunlocked := unlocked_leaveTx (s := s.setCore s.core) hfree (k (.error fault))
      exact gets_of_step 0 ht rfl hran (herror fault _ rfl _ hran hunlocked)
  | select query selected body ih =>
      have hran := ran_setThread hfree
        ⟨s.core.db, selected i (query (pending s.core.db)) s.core.store⟩
        (.inTx note pending (body (query (pending s.core.db))) k)
      refine gets_of_step 0 ht rfl hran (ih _ hran.thread hran.free ?_ ?_)
      · exact fun b change x hsolo s' hs' => hok b change x hsolo s' (hran.trans hs')
      · exact fun fault x hsolo s' hs' => herror fault x hsolo s' (hran.trans hs')
  | lock row body ih =>
      have hran := ran_grab hfree [row] (.inTx note pending (body (L.view row s.core.db)) k)
      refine gets_of_step 0 ht (if_pos (hfree row)) hran
        (ih _ hran.thread hran.free ?_ ?_)
      · exact fun b change x hsolo s' hs' => hok b change x hsolo s' (hran.trans hs')
      · exact fun fault x hsolo s' hs' => herror fault x hsolo s' (hran.trans hs')
  | write change body ih =>
      have hran := ran_grab hfree change.rows (.inTx note (change.apply ∘ pending) body k)
      refine gets_of_step 0 ht (if_pos fun row _ => hfree row) hran
        (ih hran.thread hran.free ?_ ?_)
      · exact fun b change x hsolo s' hs' => hok b change x hsolo s' (hran.trans hs')
      · exact fun fault x hsolo s' hs' => herror fault x hsolo s' (hran.trans hs')

/-- The machine has a run in which a call with nobody else around does what
`Prog.solo` says. -/
theorem gets_of_solo {pass : X → Bool} {p : Prog L X ε α} {s : Config L X ε α}
    (ht : s.threads i = some (.run p)) (hunlocked : Unlocked s) {result : Except ε α}
    {c : Core D X} (h : p.solo i pass s.core = some (result, c)) :
    Gets S s i .returned ⟨c.db, S.onReturn i result c.store⟩ := by
  induction p generalizing s with
  | done a =>
      obtain ⟨rfl, rfl⟩ := Prod.mk.inj (Option.some.inj h)
      have hran := ran_setThread (hunlocked.free i)
        ⟨s.core.db, S.onReturn i (.ok a) s.core.store⟩ .returned
      exact gets_of_step 0 ht rfl hran (gets_refl hran.thread hunlocked)
  | raise e =>
      obtain ⟨rfl, rfl⟩ := Prod.mk.inj (Option.some.inj h)
      have hran := ran_setThread (hunlocked.free i)
        ⟨s.core.db, S.onReturn i (.error e) s.core.store⟩ .returned
      exact gets_of_step 0 ht rfl hran (gets_refl hran.thread hunlocked)
  | act f k ih =>
      obtain ⟨answer, hfind, hrest⟩ := Option.bind_eq_some_iff.mp h
      obtain ⟨n, hn⟩ := List.mem_iff_getElem?.mp (List.mem_of_find?_eq_some hfind)
      have hran := ran_setThread (hunlocked.free i) ⟨s.core.db, answer.2⟩ (.run (k answer.1))
      refine gets_of_step n ht ?_ hran (ih _ hran.thread hunlocked hrest)
      simp only [stepThread, hn]
  | txn note body k ih =>
      have hran := ran_setThread (hunlocked.free i) s.core (.inTx note id body k)
      refine gets_of_step 0 ht rfl hran (gets_tx hran.thread hran.free ?_ ?_)
      · intro b change x hsolo s' hs' hunlocked'
        have hcore : Tx.solo i s.core.db id s.core.store body = (.ok (b, change), x) := hsolo
        simp only [Prog.solo, hcore] at h
        exact ih _ hs'.thread hunlocked' (by rw [hs'.core]; exact h)
      · intro fault x hsolo s' hs' hunlocked'
        have hcore : Tx.solo i s.core.db id s.core.store body = (.error fault, x) := hsolo
        simp only [Prog.solo, hcore] at h
        exact ih _ hs'.thread hunlocked' (by rw [hs'.core]; exact h)

/-- Call `i` made in a state where no lock is held and run to its end. -/
theorem gets_of_call {pass : X → Bool} {call : S.Call} {s : Config L X ε α}
    (hnew : s.threads i = none) (hunlocked : Unlocked s) {result : Except ε α} {c : Core D X}
    (h : S.solo pass i call s.core = some (result, c)) : Gets S s i .returned c := by
  obtain ⟨⟨result', d⟩, hsolo, heq⟩ := Option.map_eq_some_iff.mp h
  obtain ⟨rfl, rfl⟩ := Prod.mk.inj heq
  have hran := ran_setThread (hunlocked.free i) ⟨s.core.db, S.onCall i call s.core.store⟩
    (.run (S.prog i call))
  obtain ⟨moves, last, hrun, hlast, hlocks⟩ :=
    gets_of_solo (S := S) hran.thread hunlocked hsolo
  refine ⟨.call i call :: moves, last, ?_, hran.trans hlast, hlocks⟩
  simpa [run, exec, hnew] using hrun

/-- Calls made one after the other are a run of the machine. -/
theorem Sequential.reachable {c c' : Core D X} {calls : List (Nat × S.Call)}
    (h : Sequential S c calls c') : ∃ s, S.Reachable c s ∧ s.core = c' ∧ Unlocked s ∧
      ∀ i, i ∉ calls.map Prod.fst → s.threads i = none := by
  induction h with
  | start => exact ⟨_, ⟨[], rfl⟩, rfl, fun _ => rfl, fun _ _ => rfl⟩
  | call _ hnew hsolo ih =>
      obtain ⟨s, ⟨before, hbefore⟩, rfl, hunlocked, hthreads⟩ := ih
      obtain ⟨moves, s', hrun, hran, hunlocked'⟩ :=
        gets_of_call (hthreads _ hnew) hunlocked hsolo
      refine ⟨s', ⟨before ++ moves, ?_⟩, hran.core, hunlocked', fun j hj => ?_⟩
      · rw [run_append, hbefore]
        exact hrun
      · simp only [List.map_cons, List.mem_cons, not_or] at hj
        rw [hran.others j hj.1]
        exact hthreads j hj.2
  | @tick calls c' n _ ih =>
      obtain ⟨s, ⟨before, hbefore⟩, rfl, hunlocked, hthreads⟩ := ih
      refine ⟨s.setCore ⟨s.core.db, S.tick n s.core.store⟩, ⟨before ++ [.tick n], ?_⟩, rfl,
        hunlocked, hthreads⟩
      rw [run_append, hbefore]
      rfl

end Service

end Interleave
