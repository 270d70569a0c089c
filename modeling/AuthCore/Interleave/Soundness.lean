/-
Calls that meet their weakest precondition keep the invariant under every
interleaving.  The proof carries one condition per call; the part about locks
is that a row somebody has locked is changed by nobody else.
-/
import AuthCore.Interleave.Rely

namespace Interleave

variable {D : Type} {L : Rows D} {X ε α β : Type}

namespace Protocol

variable (P : Protocol D X) (S : Service L X ε α)

/-- The step that records the end of call `i` keeps the protocol. -/
def Returns (i : Nat) (result : Except ε α) (c : Core D X) : Prop :=
  ∀ c', P.Later i c c' → P.Allows i c' ⟨c'.db, S.onReturn i result c'.store⟩ ∧
    P.final i ⟨c'.db, S.onReturn i result c'.store⟩

/-- The precondition of a whole call. -/
def wpCall (i : Nat) : Prog L X ε α → Core D X → Prop :=
  P.wp i (fun a => P.Returns S i (.ok a)) (fun e => P.Returns S i (.error e))

theorem returns_stable (i : Nat) (result : Except ε α) :
    P.Stable i (P.Returns S i result) :=
  fun _ _ hlater h c'' hlater' => h c'' (hlater.trans hlater')

theorem wpCall_stable (i : Nat) (p : Prog L X ε α) : P.Stable i (P.wpCall S i p) :=
  P.wp_stable (fun a => P.returns_stable S i (.ok a))
    (fun e => P.returns_stable S i (.error e)) p

/-- What the proof knows of call `i`: while it is inside a transaction, the
views it has read are current and their rows are locked by it, and its changes
stay inside rows it has locked. -/
def ThreadOk (s : Config L X ε α) (i : Nat) : Option (Thread L X ε α) → Prop
  | none => P.idle i s.core
  | some (.run p) => P.wpCall S i p s.core
  | some (.inTx note pending body k) =>
      ∃ (seen : List ((row : L.Row) × L.View row)) (rows : List L.Row),
        (∀ entry ∈ seen, s.locks entry.1 = some i ∧
          L.view entry.1 s.core.db = entry.2) ∧
        (∀ row ∈ rows, s.locks row = some i) ∧
        (∀ row, row ∉ rows → ∀ d, L.view row (pending d) = L.view row d) ∧
        P.wpTx i note (fun r => P.wpCall S i (k r)) seen pending body s.core
  | some .returned => P.final i s.core

/-- The condition of a call survives a step that the protocol accepts and that
leaves the call's locks and the rows under them alone. -/
theorem threadOk_transfer {s s' : Config L X ε α} {i : Nat}
    (hlater : P.Later i s.core s'.core)
    (hlocks : ∀ row, s.locks row = some i → s'.locks row = some i)
    (hviews : ∀ row, s.locks row = some i →
      L.view row s'.core.db = L.view row s.core.db)
    {t : Option (Thread L X ε α)} (h : P.ThreadOk S s i t) : P.ThreadOk S s' i t := by
  match t with
  | none => exact P.idle_stable hlater.1 h
  | some (.run p) => exact P.wpCall_stable S i p _ _ hlater h
  | some .returned => exact P.final_stable hlater.1 h
  | some (.inTx note pending body k) =>
      obtain ⟨seen, rows, hseen, hrows, hpending, hwp⟩ := h
      refine ⟨seen, rows, ?_, fun row hrow => hlocks row (hrows row hrow), hpending, ?_⟩
      · intro entry hentry
        obtain ⟨hlock, hview⟩ := hseen entry hentry
        exact ⟨hlocks _ hlock, (hviews _ hlock).trans hview⟩
      · exact P.wpTx_stable (fun r => P.wpCall_stable S i (k r)) _ _ _ _ _ hlater hwp

structure SystemOk (s : Config L X ε α) : Prop where
  inv : P.inv s.core
  threads : ∀ i, P.ThreadOk S s i (s.threads i)

/-- What one step of call `i` does to the rest of the system. -/
structure StepOf (i : Nat) (s s' : Config L X ε α) : Prop where
  allows : s'.core = s.core ∨ P.Allows i s.core s'.core
  own : P.ThreadOk S s' i (s'.threads i)
  others : ∀ j, j ≠ i → s'.threads j = s.threads j
  locks : ∀ j, j ≠ i → ∀ row, s.locks row = some j → s'.locks row = some j
  views : ∀ j, j ≠ i → ∀ row, s.locks row = some j →
    L.view row s'.core.db = L.view row s.core.db

theorem SystemOk.of_stepOf {P : Protocol D X} {S : Service L X ε α} {i : Nat}
    {s s' : Config L X ε α} (h : P.SystemOk S s) (hstep : P.StepOf S i s s') :
    P.SystemOk S s' := by
  have hinv : P.inv s'.core := by
    rcases hstep.allows with heq | hallows
    · exact heq ▸ h.inv
    · exact hallows.1
  have hrely : ∀ j, j ≠ i → P.rely j s.core s'.core := by
    intro j hj
    rcases hstep.allows with heq | hallows
    · exact heq ▸ P.rely_refl j s.core
    · exact hallows.2 j hj
  refine ⟨hinv, fun j => ?_⟩
  by_cases hj : j = i
  · exact hj ▸ hstep.own
  · rw [hstep.others j hj]
    exact P.threadOk_transfer S ⟨hrely j hj, hinv⟩ (hstep.locks j hj)
      (hstep.views j hj) (h.threads j)

/-- A step that changes only the call itself and, possibly, the second store. -/
theorem stepOf_local {i : Nat} {s : Config L X ε α} {c : Core D X}
    {t : Thread L X ε α} (hdb : c.db = s.core.db)
    (hallows : c = s.core ∨ P.Allows i s.core c)
    (hown : P.ThreadOk S ((s.setCore c).setThread i t) i (some t)) :
    P.StepOf S i s ((s.setCore c).setThread i t) where
  allows := hallows
  own := by simpa [Config.setThread] using hown
  others j hj := by simp [Config.setThread, Config.setCore, hj]
  locks _ _ _ hlock := hlock
  views _ _ row _ := by simp [Config.setThread, Config.setCore, hdb]

/-- The end of a transaction: rows locked by other calls are as before. -/
theorem stepOf_leaveTx {i : Nat} {s : Config L X ε α} {c : Core D X}
    {p : Prog L X ε α} (hallows : c = s.core ∨ P.Allows i s.core c)
    (hviews : ∀ row, s.locks row ≠ some i → L.view row c.db = L.view row s.core.db)
    (hown : P.wpCall S i p c) : P.StepOf S i s ((s.setCore c).leaveTx i p) where
  allows := hallows
  own := by
    simpa [Config.leaveTx, Config.setThread, Config.release, Config.setCore, ThreadOk]
      using hown
  others j hj := by
    simp [Config.leaveTx, Config.setThread, Config.release, Config.setCore, hj]
  locks j hj row hlock := by
    have hne : s.locks row ≠ some i := by rw [hlock]; simpa using hj
    simpa [Config.leaveTx, Config.setThread, Config.release, Config.setCore, hne] using hlock
  views j hj row hlock := by
    have hne : s.locks row ≠ some i := by rw [hlock]; simpa using hj
    exact hviews row hne

theorem abortThread_stepOf {s s' : Config L X ε α} {i : Nat}
    (hsys : P.SystemOk S s) {t : Thread L X ε α} (ht : s.threads i = some t)
    (hstep : s.abortThread i t = some s') : P.StepOf S i s s' := by
  have hown : P.ThreadOk S s i (some t) := ht ▸ hsys.threads i
  match t with
  | .inTx note pending (.lock row body) k =>
      cases hstep
      obtain ⟨seen, rows, hseen, hrows, hpending, hwp⟩ := hown
      exact P.stepOf_leaveTx (c := s.core) S (Or.inl rfl) (fun _ _ => rfl) hwp.2
  | .inTx note pending (.write change body) k =>
      cases hstep
      obtain ⟨seen, rows, hseen, hrows, hpending, hwp⟩ := hown
      exact P.stepOf_leaveTx (c := s.core) S (Or.inl rfl) (fun _ _ => rfl) hwp.2
  | .inTx _ _ (.ret _) _ => cases hstep
  | .inTx _ _ (.raise _) _ => cases hstep
  | .inTx _ _ (.select _ _ _) _ => cases hstep
  | .run _ => cases hstep
  | .returned => cases hstep

variable [DecidableEq L.Row]

/-- A step inside a transaction that takes the locks of `rows`. -/
theorem stepOf_grab {i : Nat} {s : Config L X ε α} {rows : List L.Row}
    {t : Thread L X ε α} (havail : ∀ row ∈ rows, s.Available i row)
    (hown : P.ThreadOk S ((s.grab i rows).setThread i t) i (some t)) :
    P.StepOf S i s ((s.grab i rows).setThread i t) where
  allows := Or.inl rfl
  own := by simpa [Config.setThread] using hown
  others j hj := by simp [Config.setThread, Config.grab, hj]
  locks j hj row hlock := by
    have hnot : row ∉ rows := by
      intro hmem
      rcases havail row hmem with hfree | hmine
      · simp [hlock] at hfree
      · rw [hlock, Option.some.injEq] at hmine
        exact hj hmine
    simpa [Config.setThread, Config.grab, hnot] using hlock
  views _ _ _ _ := rfl

/-- Taking further locks keeps the ones the call has. -/
theorem grab_keeps {s : Config L X ε α} {i : Nat} {rows : List L.Row} {row : L.Row}
    (h : s.locks row = some i) : (s.grab i rows).locks row = some i := by
  simp [Config.grab, h]

theorem stepThread_stepOf {s s' : Config L X ε α} {i choice : Nat}
    (hsys : P.SystemOk S s) {t : Thread L X ε α} (ht : s.threads i = some t)
    (hstep : S.stepThread s i choice t = some s') : P.StepOf S i s s' := by
  have hown : P.ThreadOk S s i (some t) := ht ▸ hsys.threads i
  have hnow : P.Later i s.core s.core := Later.refl hsys.inv
  match t with
  | .run (.done a) =>
      cases hstep
      obtain ⟨hallows, hfinal⟩ := hown s.core hnow
      exact P.stepOf_local S rfl (Or.inr hallows) hfinal
  | .run (.raise e) =>
      cases hstep
      obtain ⟨hallows, hfinal⟩ := hown s.core hnow
      exact P.stepOf_local S rfl (Or.inr hallows) hfinal
  | .run (.act f k) =>
      simp only [Service.stepThread] at hstep
      split at hstep
      · cases hstep
      · rename_i answer hanswer
        cases hstep
        obtain ⟨hallows, hwp⟩ := hown s.core hnow answer (List.mem_of_getElem? hanswer)
        exact P.stepOf_local S rfl (Or.inr hallows) hwp
  | .run (.txn note body k) =>
      cases hstep
      refine P.stepOf_local (c := s.core) S rfl (Or.inl rfl) ⟨[], [], ?_, ?_, ?_, hown⟩
      · simp
      · simp
      · exact fun _ _ _ => rfl
  | .inTx note pending (.ret a) k =>
      cases hstep
      obtain ⟨seen, rows, hseen, hrows, hpending, hwp⟩ := hown
      obtain ⟨hallows, hK⟩ := hwp s.core hnow fun entry hentry => (hseen entry hentry).2
      refine P.stepOf_leaveTx S (Or.inr hallows) (fun row hrow => ?_) hK
      exact hpending row (fun hmem => hrow (hrows row hmem)) s.core.db
  | .inTx note pending (.raise fault) k =>
      cases hstep
      obtain ⟨seen, rows, hseen, hrows, hpending, hwp⟩ := hown
      exact P.stepOf_leaveTx (c := s.core) S (Or.inl rfl) (fun _ _ => rfl) hwp
  | .inTx note pending (.select query selected body) k =>
      cases hstep
      obtain ⟨seen, rows, hseen, hrows, hpending, hwp⟩ := hown
      obtain ⟨hallows, hrest⟩ :=
        hwp s.core hnow fun entry hentry => (hseen entry hentry).2
      exact P.stepOf_local S rfl (Or.inr hallows)
        ⟨seen, rows, hseen, hrows, hpending, hrest⟩
  | .inTx note pending (.lock row body) k =>
      simp only [Service.stepThread, Option.ite_none_right_eq_some,
        Option.some.injEq] at hstep
      obtain ⟨havail, rfl⟩ := hstep
      obtain ⟨seen, rows, hseen, hrows, hpending, hwp⟩ := hown
      refine P.stepOf_grab S (by simpa using havail)
        ⟨⟨row, L.view row s.core.db⟩ :: seen, rows, ?_, ?_, hpending, ?_⟩
      · intro entry hentry
        rcases List.mem_cons.mp hentry with rfl | hold
        · exact ⟨by simp [Config.setThread, Config.grab], rfl⟩
        · exact ⟨grab_keeps (hseen entry hold).1, (hseen entry hold).2⟩
      · exact fun row' hrow' => grab_keeps (hrows row' hrow')
      · exact hwp.1 s.core hnow fun entry hentry => (hseen entry hentry).2
  | .inTx note pending (.write change body) k =>
      simp only [Service.stepThread, Option.ite_none_right_eq_some,
        Option.some.injEq] at hstep
      obtain ⟨havail, rfl⟩ := hstep
      obtain ⟨seen, rows, hseen, hrows, hpending, hwp⟩ := hown
      refine P.stepOf_grab S havail ⟨seen, change.rows ++ rows, ?_, ?_, ?_, hwp.1⟩
      · exact fun entry hentry => ⟨grab_keeps (hseen entry hentry).1, (hseen entry hentry).2⟩
      · intro row hrow
        rcases List.mem_append.mp hrow with hnew | hold
        · simp [Config.setThread, Config.grab, hnew]
        · exact grab_keeps (hrows row hold)
      · intro row hrow d
        simp only [List.mem_append, not_or] at hrow
        exact (change.confined row hrow.1 _).trans (hpending row hrow.2 d)
  | .returned => cases hstep

/-- What has to be shown of a service to know that its protocol is kept. -/
structure Kept : Prop where
  call : ∀ i (call : S.Call) c, P.inv c → P.idle i c →
    P.Allows i c ⟨c.db, S.onCall i call c.store⟩ ∧
      P.wpCall S i (S.prog i call) ⟨c.db, S.onCall i call c.store⟩
  tick : ∀ n c, P.inv c → P.inv ⟨c.db, S.tick n c.store⟩ ∧
    ∀ i, P.rely i c ⟨c.db, S.tick n c.store⟩

theorem exec_systemOk {P : Protocol D X} {S : Service L X ε α} (hkept : P.Kept S)
    {s s' : Config L X ε α} (m : Move S) (hsys : P.SystemOk S s)
    (hexec : S.exec s m = some s') : P.SystemOk S s' := by
  cases m with
  | call i call =>
      simp only [Service.exec] at hexec
      split at hexec
      · rename_i hnone
        cases hexec
        have hidle : P.idle i s.core := by simpa [hnone, ThreadOk] using hsys.threads i
        obtain ⟨hallows, hwp⟩ := hkept.call i call s.core hsys.inv hidle
        exact hsys.of_stepOf (P.stepOf_local S rfl (Or.inr hallows) hwp)
      · cases hexec
  | step i choice =>
      obtain ⟨t, ht, hstep⟩ := Option.bind_eq_some_iff.mp hexec
      exact hsys.of_stepOf (P.stepThread_stepOf S hsys ht hstep)
  | abort i =>
      obtain ⟨t, ht, hstep⟩ := Option.bind_eq_some_iff.mp hexec
      exact hsys.of_stepOf (P.abortThread_stepOf S hsys ht hstep)
  | tick n =>
      cases hexec
      obtain ⟨hinv, hrely⟩ := hkept.tick n s.core hsys.inv
      refine ⟨hinv, fun i => ?_⟩
      have hlater : P.Later i s.core (s.setCore ⟨s.core.db, S.tick n s.core.store⟩).core :=
        ⟨hrely i, hinv⟩
      exact P.threadOk_transfer S hlater (fun _ h => h) (fun _ _ => rfl) (hsys.threads i)

theorem Kept.systemOk {P : Protocol D X} {S : Service L X ε α}
    (hkept : P.Kept S) {c : Core D X} (hinv : P.inv c) (hidle : ∀ i, P.idle i c)
    {s : Config L X ε α} (hreach : S.Reachable c s) : P.SystemOk S s := by
  refine hreach.induction (P := P.SystemOk S) ⟨hinv, hidle⟩ ?_
  intro s m s' _ hs hexec
  exact exec_systemOk hkept m hs hexec

/-- The invariant of a kept protocol holds in every reachable state. -/
theorem Kept.inv_of_reachable {P : Protocol D X} {S : Service L X ε α}
    (hkept : P.Kept S) {c : Core D X} (hinv : P.inv c) (hidle : ∀ i, P.idle i c)
    {s : Config L X ε α} (hreach : S.Reachable c s) : P.inv s.core :=
  (hkept.systemOk hinv hidle hreach).inv

end Protocol

end Interleave
