/-
The invariant rule: a condition that every action and every write of every call keeps holds in
every reachable state, whatever the order of the steps.
-/
import AuthCore.Interleave.Extend

namespace Interleave

variable {D : Type} {L M : Rows D} {X ε α β : Type}

/-- Every statement of the transaction keeps `J`, wherever it runs. -/
def Tx.Upholds (J : Core D X → Prop) : Tx L X ε α → Prop
  | .ret _ => True
  | .raise _ => True
  | .select _ note k =>
      (∀ i b c, J c → J ⟨c.db, note i b c.store⟩) ∧ ∀ b, (k b).Upholds J
  | .lock _ k => ∀ v, (k v).Upholds J
  | .write change k => (∀ c, J c → J ⟨change.apply c.db, c.store⟩) ∧ k.Upholds J

variable {J : Core D X → Prop}

theorem Tx.Upholds.bind {body : Tx L X ε α} {f : α → Tx L X ε β} (hbody : body.Upholds J)
    (hf : ∀ a, (f a).Upholds J) : (body >>= f).Upholds J := by
  change (body.bind f).Upholds J
  induction body with
  | ret a => exact hf a
  | raise fault => trivial
  | select query note k ih => exact ⟨hbody.1, fun b => ih b (hbody.2 b)⟩
  | lock row k ih => exact fun v => ih v (hbody v)
  | write change k ih => exact ⟨hbody.1, ih hbody.2⟩

theorem Tx.upholds_each {ι : Type} {visit : ι → Tx L X ε Unit}
    (hvisit : ∀ i, (visit i).Upholds J) (is : List ι) : (Tx.each visit is).Upholds J := by
  induction is with
  | nil => trivial
  | cons i rest ih => exact (hvisit i).bind fun _ => ih

theorem Tx.Upholds.inl {body : Tx L X ε α} (hbody : body.Upholds J)
    (h : body.Guarantees M.Same) : (body.inl h).Upholds J := by
  induction body with
  | ret a => trivial
  | raise fault => trivial
  | select query note k ih => exact ⟨hbody.1, fun b => ih b (hbody.2 b) (h b)⟩
  | lock row k ih => exact fun v => ih v (hbody v) (h v)
  | write change k ih => exact ⟨hbody.1, ih hbody.2 h.2⟩

/-- A transaction that only locks and writes keeps what its writes keep. -/
theorem Tx.upholds_of_lockOnly {R : D → D → Prop}
    (hR : ∀ (c : Core D X) d, R c.db d → J c → J ⟨d, c.store⟩) {body : Tx L X ε α}
    (hbody : body.Guarantees R) (hlock : body.LockOnly) : body.Upholds J := by
  induction body with
  | ret a => trivial
  | raise fault => trivial
  | select query note k _ => exact hlock.elim
  | lock row k ih => exact fun v => ih v (hbody v) (hlock v)
  | write change k ih => exact ⟨fun c hc => hR c _ (hbody.1 c.db) hc, ih hbody.2 hlock⟩

/-- A transaction keeps of the rows what its writes keep. -/
theorem Tx.upholds_of_guarantees {R : D → D → Prop} {I : D → Prop}
    (hR : ∀ d d', R d d' → I d → I d') {body : Tx L X ε α} (hbody : body.Guarantees R) :
    body.Upholds fun c => I c.db := by
  induction body with
  | ret a => trivial
  | raise fault => trivial
  | select query note k ih => exact ⟨fun _ _ _ hc => hc, fun b => ih b (hbody b)⟩
  | lock row k ih => exact fun v => ih v (hbody v)
  | write change k ih => exact ⟨fun c hc => hR c.db _ (hbody.1 c.db) hc, ih hbody.2⟩

/-- Without its notes a transaction keeps what its writes keep. -/
theorem Tx.upholds_mute {R : D → D → Prop}
    (hR : ∀ (c : Core D X) d, R c.db d → J c → J ⟨d, c.store⟩) {body : Tx L X ε α}
    (hbody : body.Guarantees R) : body.mute.Upholds J := by
  induction body with
  | ret a => trivial
  | raise fault => trivial
  | select query note k ih => exact ⟨fun _ _ _ hc => hc, fun b => ih b (hbody b)⟩
  | lock row k ih => exact fun v => ih v (hbody v)
  | write change k ih => exact ⟨fun c hc => hR c _ (hbody.1 c.db) hc, ih hbody.2⟩

/-- The protocol that asks for an invariant and nothing else. -/
def Protocol.invariant (J : Core D X → Prop) : Protocol D X where
  inv := J
  rely _ _ _ := True
  idle _ _ := True
  final _ _ := True
  rely_refl _ _ := trivial
  rely_trans _ _ := trivial
  idle_stable _ _ := trivial
  final_stable _ _ := trivial

/-- A transaction whose statements keep `J` commits a state with `J`. -/
theorem Tx.Upholds.wpTx {i : Nat} {note : Nat → β → X → X}
    {K : Except (Fault ε) β → Core D X → Prop} {seen : List ((row : L.Row) × L.View row)}
    {pending : D → D} {body : Tx L X ε β} {c : Core D X} (hbody : body.Upholds J)
    (hnote : ∀ b c, J c → J ⟨c.db, note i b c.store⟩)
    (hpending : ∀ c : Core D X, J c → J ⟨pending c.db, c.store⟩) (hc : J c)
    (hK : ∀ result c, J c → K result c) :
    (Protocol.invariant J).wpTx i note K seen pending body c := by
  induction body generalizing seen pending c with
  | ret a =>
      intro c' hlater _
      have hcommit := hnote a _ (hpending c' hlater.2)
      exact ⟨⟨hcommit, fun _ _ => trivial⟩, hK _ _ hcommit⟩
  | raise fault => exact hK _ _ hc
  | select query selected k ih =>
      intro c' hlater _
      have hselected := hbody.1 i (query (pending c'.db)) c' hlater.2
      exact ⟨⟨hselected, fun _ _ => trivial⟩, ih _ (hbody.2 _) hpending hselected⟩
  | lock row k ih =>
      exact ⟨fun c' hlater _ => ih _ (hbody _) hpending hlater.2, hK _ _ hc⟩
  | write change k ih =>
      exact ⟨ih hbody.2 (fun c hJ => hbody.1 _ (hpending c hJ)) hc, hK _ _ hc⟩

/-- Every step of the call keeps `J`. -/
def Prog.Upholds (J : Core D X → Prop) : Prog L X ε α → Prop
  | .done _ => True
  | .raise _ => True
  | .act f k => ∀ i c, J c → ∀ answer ∈ f i c.db c.store,
      J ⟨c.db, answer.2⟩ ∧ (k answer.1).Upholds J
  | .txn note body k => (∀ i (c : Core D X), J c → ∀ K : Except (Fault ε) _ → Core D X → Prop,
      (∀ result c, J c → K result c) → (Protocol.invariant J).wpTx i note K [] id body c) ∧
      ∀ result, (k result).Upholds J

theorem Prog.Upholds.bind {p : Prog L X ε α} {f : α → Prog L X ε β} (hp : p.Upholds J)
    (hf : ∀ a, (f a).Upholds J) : (p >>= f).Upholds J := by
  change (p.bind f).Upholds J
  induction p with
  | done a => exact hf a
  | raise e => trivial
  | act g k ih =>
      intro i c hc answer hanswer
      obtain ⟨hkept, hrest⟩ := hp i c hc answer hanswer
      exact ⟨hkept, ih answer.1 hrest⟩
  | txn note body k ih => exact ⟨hp.1, fun result => ih result (hp.2 result)⟩

/-- A transaction of statements that keep `J`. -/
theorem Prog.upholds_txn {note : Nat → β → X → X} {body : Tx L X ε β}
    {k : Except (Fault ε) β → Prog L X ε α} (hbody : body.Upholds J)
    (hnote : ∀ i b c, J c → J ⟨c.db, note i b c.store⟩) (hk : ∀ result, (k result).Upholds J) :
    (Prog.txn note body k).Upholds J :=
  ⟨fun i _ hc _ hK => hbody.wpTx (hnote i) (fun _ hJ => hJ) hc hK, hk⟩

theorem Prog.Upholds.wp {i : Nat} {Q : α → Core D X → Prop} {E : ε → Core D X → Prop}
    {p : Prog L X ε α} {c : Core D X} (hp : p.Upholds J) (hc : J c)
    (hQ : ∀ a c, J c → Q a c) (hE : ∀ e c, J c → E e c) :
    (Protocol.invariant J).wp i Q E p c := by
  induction p generalizing c with
  | done a => exact hQ _ _ hc
  | raise e => exact hE _ _ hc
  | act f k ih =>
      intro c' hlater answer hanswer
      obtain ⟨hkept, hrest⟩ := hp i c' hlater.2 answer hanswer
      exact ⟨⟨hkept, fun _ _ => trivial⟩, ih _ hrest hkept⟩
  | txn note body k ih => exact hp.1 i c hc _ fun result c' hJ => ih result (hp.2 result) hJ

section Reachable

variable [DecidableEq L.Row] {S : Service L X ε α}

/-- The invariant rule. -/
theorem Service.upholds_of_reachable (hprog : ∀ i call, (S.prog i call).Upholds J)
    (hcall : ∀ i call c, J c → J ⟨c.db, S.onCall i call c.store⟩)
    (hreturn : ∀ i result c, J c → J ⟨c.db, S.onReturn i result c.store⟩)
    (htick : ∀ n c, J c → J ⟨c.db, S.tick n c.store⟩) {c : Core D X} (hc : J c)
    {s : Config L X ε α} (hreach : S.Reachable c s) : J s.core := by
  refine Protocol.Kept.inv_of_reachable (P := Protocol.invariant J) ⟨?_, ?_⟩ hc
    (fun _ => trivial) hreach
  · intro i call c hJ _
    have hmade := hcall i call c hJ
    have hreturns : ∀ result c', J c' →
        (Protocol.invariant J).Returns S i result c' := fun result c' hJ' c'' hlater =>
      ⟨⟨hreturn i result c'' hlater.2, fun _ _ => trivial⟩, trivial⟩
    exact ⟨⟨hmade, fun _ _ => trivial⟩,
      (hprog i call).wp hmade (fun a => hreturns (.ok a)) fun e => hreturns (.error e)⟩
  · exact fun n c hJ => ⟨htick n c hJ, fun _ => trivial⟩

end Reachable

end Interleave
