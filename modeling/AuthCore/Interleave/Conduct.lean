/-
How calls conduct themselves: which event a call may record after what it has already recorded,
whatever the stores answer.  A conduct is checked once along the program of a call; then it holds
for every call of every interleaving.
-/
import AuthCore.Interleave.Ledger

namespace Interleave

/-- `allowed t e`: a call that has recorded `t` may record `e` next.  `does i e c x`: the event
leaves the second store `x` behind. -/
structure Conduct (D X E : Type) where
  log : X → List (Nat × E)
  allowed : List E → E → Prop
  does : Nat → E → Core D X → X → Prop
  log_does : ∀ {i e c x}, does i e c x → log x = (i, e) :: log c.store

variable {D X E ε α β : Type} {L : Rows D}

/-- The service with only the calls that satisfy `p`. -/
def Service.only (S : Service L X ε α) (p : S.Call → Prop) : Service L X ε α where
  Call := { call // p call }
  prog i call := S.prog i call.1
  onCall i call := S.onCall i call.1
  onReturn := S.onReturn
  tick := S.tick

namespace Conduct

variable (C : Conduct D X E)

/-- The events of a transaction are allowed; `after` is what its outcome leads to. -/
def TxObeys (i : Nat) (note : Nat → β → X → X) (after : List E → Except (Fault ε) β → Prop) :
    List E → Tx L X ε β → Prop
  | t, .ret b =>
      ∃ e, C.allowed t e ∧ (∀ d x, C.does i e ⟨d, x⟩ (note i b x)) ∧ after (e :: t) (.ok b)
  | t, .raise fault => after t (.error fault)
  | t, .select _ seen body => ∀ b, ∃ e, C.allowed t e ∧
      (∀ d x, C.does i e ⟨d, x⟩ (seen i b x)) ∧ TxObeys i note after (e :: t) (body b)
  | t, .lock _ body => after t (.error .deadlock) ∧ ∀ v, TxObeys i note after t (body v)
  | t, .write _ body => after t (.error .deadlock) ∧ TxObeys i note after t body

/-- Every event of the call is allowed; `after` is what its result leads to. -/
def Obeys (i : Nat) (after : List E → Except ε α → Prop) : List E → Prog L X ε α → Prop
  | t, .done a => after t (.ok a)
  | t, .raise e => after t (.error e)
  | t, .act f k => ∀ d x, ∀ answer ∈ f i d x, ∃ e, C.allowed t e ∧ C.does i e ⟨d, x⟩ answer.2 ∧
      Obeys i after (e :: t) (k answer.1)
  | t, .txn note body k =>
      C.TxObeys i note (fun t result => Obeys i after t (k result)) t body

/-- The result of a call may be recorded as its end. -/
def Ends (ended : Except ε α → E) (t : List E) (result : Except ε α) : Prop :=
  C.allowed t (ended result)

/-- What is left of a call obeys. -/
def ThreadObeys (i : Nat) (ended : Except ε α → E) (t : List E) : Thread L X ε α → Prop
  | .run p => C.Obeys i (C.Ends ended) t p
  | .inTx note _ body k =>
      C.TxObeys i note (fun t result => C.Obeys i (C.Ends ended) t (k result)) t body
  | .returned => True

/-- The calls of a service begin, go on and end as the conduct allows. -/
structure Governs (S : Service L X ε α) (ended : Except ε α → E) : Prop where
  call : ∀ i call, ∃ e, C.allowed [] e ∧ (∀ d x, C.does i e ⟨d, x⟩ (S.onCall i call x)) ∧
    C.Obeys i (C.Ends ended) [e] (S.prog i call)
  ended : ∀ i result d x, C.does i (ended result) ⟨d, x⟩ (S.onReturn i result x)
  tick : ∀ n x, C.log (S.tick n x) = C.log x

/-- A move of the machine, seen from the second store. -/
inductive Moved (S : Service L X ε α) (c : Core D X) : Core D X → Prop
  | still : Moved S c c
  | tick (n : Nat) : Moved S c ⟨c.db, S.tick n c.store⟩
  | event {i : Nat} {e : E} {d : D} {x : X} :
      C.allowed (trace i (C.log c.store)) e → C.does i e c x → Moved S c ⟨d, x⟩

variable {C}

section Rules

variable {i : Nat} {note : Nat → β → X → X} {t : List E}

theorem TxObeys.mono {after after' : List E → Except (Fault ε) β → Prop} {body : Tx L X ε β}
    (h : C.TxObeys i note after t body) (himp : ∀ t r, after t r → after' t r) :
    C.TxObeys i note after' t body := by
  induction body generalizing t with
  | ret b =>
      obtain ⟨e, hallowed, hdoes, hafter⟩ := h
      exact ⟨e, hallowed, hdoes, himp _ _ hafter⟩
  | raise fault => exact himp _ _ h
  | select query seen body ih =>
      intro b
      obtain ⟨e, hallowed, hdoes, hrest⟩ := h b
      exact ⟨e, hallowed, hdoes, ih b hrest⟩
  | lock row body ih => exact ⟨himp _ _ h.1, fun v => ih v (h.2 v)⟩
  | write change body ih => exact ⟨himp _ _ h.1, ih h.2⟩

/-- A transaction that only locks and writes records one event, and that when it succeeds. -/
theorem txObeys_of_lockOnly {after : List E → Except (Fault ε) β → Prop} {body : Tx L X ε β}
    (hbody : body.LockOnly) (hret : ∀ b, ∃ e, C.allowed t e ∧
      (∀ d x, C.does i e ⟨d, x⟩ (note i b x)) ∧ after (e :: t) (.ok b))
    (hfault : ∀ fault, after t (.error fault)) : C.TxObeys i note after t body := by
  induction body with
  | ret b => exact hret b
  | raise fault => exact hfault fault
  | select query seen body => exact hbody.elim
  | lock row body ih => exact ⟨hfault .deadlock, fun v => ih v (hbody v)⟩
  | write change body ih => exact ⟨hfault .deadlock, ih hbody⟩

theorem Obeys.mono {after after' : List E → Except ε α → Prop} {p : Prog L X ε α}
    (h : C.Obeys i after t p) (himp : ∀ t r, after t r → after' t r) :
    C.Obeys i after' t p := by
  induction p generalizing t with
  | done a => exact himp _ _ h
  | raise e => exact himp _ _ h
  | act f k ih =>
      intro d x answer hanswer
      obtain ⟨e, hallowed, hdoes, hrest⟩ := h d x answer hanswer
      exact ⟨e, hallowed, hdoes, ih _ hrest⟩
  | txn note body k ih => exact TxObeys.mono h fun t r hr => ih r hr

/-- What a call does after its first part. -/
def Then (C : Conduct D X E) (i : Nat) (after : List E → Except ε β → Prop)
    (k : α → Prog L X ε β) (t : List E) : Except ε α → Prop
  | .ok a => C.Obeys i after t (k a)
  | .error e => after t (.error e)

theorem then_ok {after : List E → Except ε β → Prop} {k : α → Prog L X ε β} {a : α} :
    C.Then i after k t (.ok a) = C.Obeys i after t (k a) := rfl

theorem Obeys.bind {after : List E → Except ε β → Prop} {p : Prog L X ε α}
    {k : α → Prog L X ε β} (h : C.Obeys i (C.Then i after k) t p) :
    C.Obeys i after t (p >>= k) := by
  change C.Obeys i after t (p.bind k)
  induction p generalizing t with
  | done a => exact h
  | raise e => exact h
  | act f next ih =>
      intro d x answer hanswer
      obtain ⟨e, hallowed, hdoes, hrest⟩ := h d x answer hanswer
      exact ⟨e, hallowed, hdoes, ih _ hrest⟩
  | txn note body next ih => exact TxObeys.mono h fun t r hr => ih r hr

end Rules

variable {S : Service L X ε α} {ended : Except ε α → E} {s s' : Config L X ε α}

/-- All calls in flight obey, and a call that is not made yet has recorded nothing. -/
structure Orderly (C : Conduct D X E) (ended : Except ε α → E) (s : Config L X ε α) : Prop where
  threads : ∀ i t, s.threads i = some t → C.ThreadObeys i ended (trace i (C.log s.core.store)) t
  unborn : ∀ i, s.threads i = none → trace i (C.log s.core.store) = []

theorem orderly_start {c : Core D X} (h : C.log c.store = []) :
    Orderly C ended (Service.start c : Config L X ε α) :=
  ⟨fun _ _ hthread => (nomatch hthread), fun _ _ => by
    rw [show (Service.start c : Config L X ε α).core = c from rfl, h]
    rfl⟩

/-- Call `i` has taken a step that records nothing. -/
theorem Orderly.quiet {i : Nat} {t : Thread L X ε α} (h : Orderly C ended s)
    (hcore : s'.core = s.core) (hthreads : s'.threads = (s.setThread i t).threads)
    (ht : C.ThreadObeys i ended (trace i (C.log s.core.store)) t) : Orderly C ended s' := by
  constructor
  · intro j t' hj
    rw [hthreads] at hj
    rw [hcore]
    by_cases hji : j = i
    · subst hji
      obtain rfl : t = t' := by simpa [Config.setThread] using hj
      exact ht
    · exact h.threads j t' (by simpa [Config.setThread, hji] using hj)
  · intro j hj
    rw [hthreads] at hj
    rw [hcore]
    by_cases hji : j = i
    · subst hji
      simp [Config.setThread] at hj
    · exact h.unborn j (by simpa [Config.setThread, hji] using hj)

/-- Call `i` has taken a step that records `e`. -/
theorem Orderly.event {i : Nat} {e : E} {t : Thread L X ε α} (h : Orderly C ended s)
    (hdoes : C.does i e s.core s'.core.store)
    (hthreads : s'.threads = (s.setThread i t).threads)
    (ht : C.ThreadObeys i ended (e :: trace i (C.log s.core.store)) t) : Orderly C ended s' := by
  have hlog := C.log_does hdoes
  constructor
  · intro j t' hj
    rw [hthreads] at hj
    rw [hlog]
    by_cases hji : j = i
    · subst hji
      obtain rfl : t = t' := by simpa [Config.setThread] using hj
      rw [trace_cons_self]
      exact ht
    · rw [trace_cons_of_ne (Ne.symm hji)]
      exact h.threads j t' (by simpa [Config.setThread, hji] using hj)
  · intro j hj
    rw [hthreads] at hj
    rw [hlog]
    by_cases hji : j = i
    · subst hji
      simp [Config.setThread] at hj
    · rw [trace_cons_of_ne (Ne.symm hji)]
      exact h.unborn j (by simpa [Config.setThread, hji] using hj)

variable [DecidableEq L.Row]

theorem orderly_stepThread {i choice : Nat} {t : Thread L X ε α} (hgoverns : C.Governs S ended)
    (h : Orderly C ended s) (hthread : s.threads i = some t)
    (hstep : S.stepThread s i choice t = some s') :
    Orderly C ended s' ∧ C.Moved S s.core s'.core := by
  have ht := h.threads i t hthread
  cases t with
  | run p =>
      cases p with
      | done a =>
          cases hstep
          exact ⟨h.event (hgoverns.ended i (.ok a) _ _) rfl trivial,
            .event ht (hgoverns.ended i (.ok a) _ _)⟩
      | raise e =>
          cases hstep
          exact ⟨h.event (hgoverns.ended i (.error e) _ _) rfl trivial,
            .event ht (hgoverns.ended i (.error e) _ _)⟩
      | act f k =>
          simp only [Service.stepThread] at hstep
          split at hstep
          · cases hstep
          · rename_i answer hanswer
            cases hstep
            obtain ⟨e, hallowed, hdoes, hrest⟩ :=
              ht s.core.db s.core.store answer (List.mem_of_getElem? hanswer)
            exact ⟨h.event (t := .run (k answer.1)) hdoes rfl hrest, .event hallowed hdoes⟩
      | txn note body k =>
          cases hstep
          exact ⟨h.quiet (t := .inTx note id body k) rfl rfl ht, .still⟩
  | inTx note pending body k =>
      cases body with
      | ret b =>
          cases hstep
          obtain ⟨e, hallowed, hdoes, hrest⟩ := ht
          exact ⟨h.event (t := .run (k (.ok b))) (hdoes _ _) rfl hrest,
            .event hallowed (hdoes _ _)⟩
      | raise fault =>
          cases hstep
          exact ⟨h.quiet (t := .run (k (.error fault))) rfl rfl ht, .still⟩
      | select query seen body =>
          cases hstep
          obtain ⟨e, hallowed, hdoes, hrest⟩ := ht (query (pending s.core.db))
          exact ⟨h.event (t := .inTx note pending (body (query (pending s.core.db))) k) (hdoes _ _)
            rfl hrest, .event hallowed (hdoes _ _)⟩
      | lock row body =>
          simp only [Service.stepThread] at hstep
          split at hstep
          · cases hstep
            exact ⟨h.quiet (t := .inTx note pending (body (L.view row s.core.db)) k) rfl rfl
              (ht.2 _), .still⟩
          · cases hstep
      | write change body =>
          simp only [Service.stepThread] at hstep
          split at hstep
          · cases hstep
            exact ⟨h.quiet (t := .inTx note (change.apply ∘ pending) body k) rfl rfl ht.2, .still⟩
          · cases hstep
  | returned => cases hstep

/-- Every move keeps the calls orderly. -/
theorem orderly_exec {m : Move S} (hgoverns : C.Governs S ended) (h : Orderly C ended s)
    (hexec : S.exec s m = some s') : Orderly C ended s' ∧ C.Moved S s.core s'.core := by
  cases m with
  | call i call =>
      simp only [Service.exec] at hexec
      split at hexec
      · rename_i hunborn
        cases hexec
        obtain ⟨e, hallowed, hdoes, hrest⟩ := hgoverns.call i call
        have hnew := h.unborn i hunborn
        refine ⟨h.event (t := .run (S.prog i call)) (hdoes _ _) rfl (hnew ▸ hrest), ?_⟩
        exact .event (hnew ▸ hallowed) (hdoes _ _)
      · cases hexec
  | step i choice =>
      obtain ⟨t, ht, hstep⟩ := Option.bind_eq_some_iff.mp hexec
      exact orderly_stepThread hgoverns h ht hstep
  | abort i =>
      obtain ⟨t, ht, habort⟩ := Option.bind_eq_some_iff.mp hexec
      have hobeys := h.threads i t ht
      unfold Config.abortThread at habort
      split at habort
      · rename_i note pending row body k
        cases habort
        exact ⟨h.quiet (t := .run (k (.error .deadlock))) rfl rfl hobeys.1, .still⟩
      · rename_i note pending change body k
        cases habort
        exact ⟨h.quiet (t := .run (k (.error .deadlock))) rfl rfl hobeys.1, .still⟩
      · cases habort
  | tick n =>
      cases hexec
      refine ⟨⟨fun i t ht => ?_, fun i hi => ?_⟩, .tick n⟩
      · change C.ThreadObeys i ended (trace i (C.log (S.tick n s.core.store))) t
        rw [hgoverns.tick]
        exact h.threads i t ht
      · change trace i (C.log (S.tick n s.core.store)) = []
        rw [hgoverns.tick]
        exact h.unborn i hi

end Conduct

end Interleave
