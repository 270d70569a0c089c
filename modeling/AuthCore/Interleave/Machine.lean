/-
The machine that interleaves calls.  One move runs one action, one statement
or one lock acquisition of one call, so every order of lock waits and every
interleaving of the calls' steps is a list of moves.
-/
import Mathlib.Data.List.Induction
import AuthCore.Interleave.Program

namespace Interleave

variable {D : Type}

/-- One call in flight.  `inTx` is a call inside a transaction: `pending` are
its uncommitted changes and `k` is what follows the transaction. -/
inductive Thread (L : Rows D) (X ε α : Type) : Type 1 where
  | run (p : Prog L X ε α)
  | inTx {β : Type} (note : Nat → β → X → X) (pending : D → D) (body : Tx L X ε β)
      (k : Except (Fault ε) β → Prog L X ε α)
  | returned

/-- A family of calls over one database and one second store.  A call knows its
own number.  `onCall` and `onReturn` record the beginning and the end of a
call; `tick` lets time pass. -/
structure Service (L : Rows D) (X ε α : Type) where
  Call : Type
  prog : Nat → Call → Prog L X ε α
  onCall : Nat → Call → X → X
  onReturn : Nat → Except ε α → X → X
  tick : Nat → X → X

variable {L : Rows D} {X ε α : Type} [DecidableEq L.Row]

structure Config (L : Rows D) (X ε α : Type) where
  core : Core D X
  locks : L.Row → Option Nat
  threads : Nat → Option (Thread L X ε α)

/-- `step i n` lets call `i` take its next step, with its `n`-th answer when
an action has several; `abort i` makes `i` the victim of a lock wait. -/
inductive Move (S : Service L X ε α) where
  | call (i : Nat) (c : S.Call)
  | step (i : Nat) (choice : Nat)
  | abort (i : Nat)
  | tick (n : Nat)

namespace Config

def setThread (s : Config L X ε α) (i : Nat) (t : Thread L X ε α) :
    Config L X ε α :=
  { s with threads := fun j => if j = i then some t else s.threads j }

/-- The locks call `i` holds become free. -/
def release (s : Config L X ε α) (i : Nat) : Config L X ε α :=
  { s with locks := fun row => if s.locks row = some i then none else s.locks row }

/-- Call `i` takes the locks of `rows`. -/
def grab (s : Config L X ε α) (i : Nat) (rows : List L.Row) : Config L X ε α :=
  { s with locks := fun row => if row ∈ rows then some i else s.locks row }

/-- No other call holds the lock of `row`. -/
def Available (s : Config L X ε α) (i : Nat) (row : L.Row) : Prop :=
  s.locks row = none ∨ s.locks row = some i

instance (s : Config L X ε α) (i : Nat) (row : L.Row) :
    Decidable (s.Available i row) :=
  inferInstanceAs (Decidable (_ ∨ _))

def setCore (s : Config L X ε α) (c : Core D X) : Config L X ε α :=
  { s with core := c }

/-- The end of a transaction of call `i`: its locks are released and the call
goes on with `p`. -/
def leaveTx (s : Config L X ε α) (i : Nat) (p : Prog L X ε α) : Config L X ε α :=
  (s.release i).setThread i (.run p)

/-- A call that waits for a lock is aborted: nothing of its transaction stays. -/
def abortThread (s : Config L X ε α) (i : Nat) :
    Thread L X ε α → Option (Config L X ε α)
  | .inTx _ _ (.lock _ _) k => some (s.leaveTx i (k (.error .deadlock)))
  | .inTx _ _ (.write _ _) k => some (s.leaveTx i (k (.error .deadlock)))
  | _ => none

/-- Every call made so far has returned. -/
def Quiescent (s : Config L X ε α) : Prop :=
  ∀ i t, s.threads i = some t → t = .returned

end Config

namespace Service

variable (S : Service L X ε α)

/-- The next step of call `i` while it is in state `t`. -/
def stepThread (s : Config L X ε α) (i choice : Nat) :
    Thread L X ε α → Option (Config L X ε α)
  | .run (.done a) =>
      some ((s.setCore ⟨s.core.db, S.onReturn i (.ok a) s.core.store⟩).setThread i .returned)
  | .run (.raise e) =>
      some ((s.setCore ⟨s.core.db, S.onReturn i (.error e) s.core.store⟩).setThread i .returned)
  | .run (.act f k) =>
      match (f i s.core.db s.core.store)[choice]? with
      | none => none
      | some answer =>
          some ((s.setCore ⟨s.core.db, answer.2⟩).setThread i (.run (k answer.1)))
  | .run (.txn note body k) => some (s.setThread i (.inTx note id body k))
  | .inTx note pending (.ret a) k =>
      some ((s.setCore ⟨pending s.core.db, note i a s.core.store⟩).leaveTx i (k (.ok a)))
  | .inTx _ _ (.raise fault) k => some (s.leaveTx i (k (.error fault)))
  | .inTx note pending (.select query seen body) k =>
      let answer := query (pending s.core.db)
      some ((s.setCore ⟨s.core.db, seen i answer s.core.store⟩).setThread i
        (.inTx note pending (body answer) k))
  | .inTx note pending (.lock row body) k =>
      if s.Available i row then
        some ((s.grab i [row]).setThread i
          (.inTx note pending (body (L.view row s.core.db)) k))
      else none
  | .inTx note pending (.write change body) k =>
      if ∀ row ∈ change.rows, s.Available i row then
        some ((s.grab i change.rows).setThread i
          (.inTx note (change.apply ∘ pending) body k))
      else none
  | .returned => none

def exec (s : Config L X ε α) : Move S → Option (Config L X ε α)
  | .call i c =>
      match s.threads i with
      | none => some ((s.setCore ⟨s.core.db, S.onCall i c s.core.store⟩).setThread i
          (.run (S.prog i c)))
      | some _ => none
  | .step i choice => (s.threads i).bind (S.stepThread s i choice)
  | .abort i => (s.threads i).bind (s.abortThread i)
  | .tick n => some (s.setCore ⟨s.core.db, S.tick n s.core.store⟩)

def run (s : Config L X ε α) : List (Move S) → Option (Config L X ε α)
  | [] => some s
  | m :: rest => (S.exec s m).bind fun s' => run s' rest

/-- No call has been made and no lock is held. -/
def start (c : Core D X) : Config L X ε α :=
  ⟨c, fun _ => none, fun _ => none⟩

/-- `s` is reached from `c` by some interleaving of calls. -/
def Reachable (c : Core D X) (s : Config L X ε α) : Prop :=
  ∃ moves : List (Move S), S.run (start c) moves = some s

theorem run_append (s : Config L X ε α) (first last : List (Move S)) :
    S.run s (first ++ last) = (S.run s first).bind fun s' => S.run s' last := by
  induction first generalizing s with
  | nil => rfl
  | cons m rest ih =>
      simp only [List.cons_append, run]
      cases S.exec s m with
      | none => rfl
      | some s' => exact ih s'

/-- Evaluating what a list of moves leads to exhibits a reachable state. -/
theorem reachable_of_run {S : Service L X ε α} {c : Core D X} {moves : List (Move S)}
    {β : Type} {f : Config L X ε α → β} {b : β}
    (h : (S.run (start c) moves).map f = some b) : ∃ s, S.Reachable c s ∧ f s = b := by
  obtain ⟨s, hrun, hf⟩ := Option.map_eq_some_iff.mp h
  exact ⟨s, ⟨moves, hrun⟩, hf⟩

/-- The calls that a list of moves makes. -/
def callers : List (Move S) → List Nat
  | [] => []
  | .call i _ :: rest => i :: callers rest
  | _ :: rest => callers rest

def isOver : Option (Thread L X ε α) → Bool
  | some .returned => true
  | _ => false

theorem threads_of_exec {S : Service L X ε α} {s s' : Config L X ε α} {m : Move S}
    (h : S.exec s m = some s') {i : Nat} (hthread : s'.threads i ≠ none) :
    s.threads i ≠ none ∨ ∃ call, m = .call i call := by
  have hset : ∀ {s₀ : Config L X ε α} {j : Nat} {t : Thread L X ε α},
      (∀ k, s₀.threads k = s.threads k) → s.threads j ≠ none →
      (s₀.setThread j t).threads i ≠ none → s.threads i ≠ none := by
    intro s₀ j t hsame hj hi
    by_cases hij : i = j
    · exact hij ▸ hj
    · simpa [Config.setThread, hij, hsame] using hi
  cases m with
  | call j call =>
      by_cases hij : i = j
      · exact Or.inr ⟨call, by rw [hij]⟩
      · left
        simp only [exec] at h
        split at h
        · obtain rfl := Option.some.inj h
          simpa [Config.setThread, Config.setCore, hij] using hthread
        · cases h
  | step j choice =>
      left
      simp only [exec] at h
      obtain ⟨t, ht, hstep⟩ := Option.bind_eq_some_iff.mp h
      have hj : s.threads j ≠ none := by simp [ht]
      unfold stepThread at hstep
      split at hstep
      case h_3 =>
        split at hstep
        · cases hstep
        · obtain rfl := Option.some.inj hstep
          exact hset (fun _ => rfl) hj hthread
      case h_8 =>
        split at hstep
        · obtain rfl := Option.some.inj hstep
          exact hset (fun _ => rfl) hj hthread
        · cases hstep
      case h_9 =>
        split at hstep
        · obtain rfl := Option.some.inj hstep
          exact hset (fun _ => rfl) hj hthread
        · cases hstep
      case h_10 => cases hstep
      all_goals
        obtain rfl := Option.some.inj hstep
        exact hset (fun _ => rfl) hj hthread
  | abort j =>
      left
      simp only [exec] at h
      obtain ⟨t, ht, habort⟩ := Option.bind_eq_some_iff.mp h
      have hj : s.threads j ≠ none := by simp [ht]
      unfold Config.abortThread at habort
      split at habort
      · obtain rfl := Option.some.inj habort
        exact hset (fun _ => rfl) hj hthread
      · obtain rfl := Option.some.inj habort
        exact hset (fun _ => rfl) hj hthread
      · cases habort
  | tick n =>
      obtain rfl := Option.some.inj h
      exact Or.inl hthread

theorem threads_of_run {S : Service L X ε α} {moves : List (Move S)} {s s' : Config L X ε α}
    (h : S.run s moves = some s') {i : Nat} (hthread : s'.threads i ≠ none) :
    s.threads i ≠ none ∨ i ∈ S.callers moves := by
  induction moves generalizing s with
  | nil =>
      obtain rfl := Option.some.inj h
      exact Or.inl hthread
  | cons m rest ih =>
      obtain ⟨s₁, hexec, hrest⟩ := Option.bind_eq_some_iff.mp h
      rcases ih hrest with hbefore | hcalled
      · rcases threads_of_exec hexec hbefore with hold | ⟨call, rfl⟩
        · exact Or.inl hold
        · exact Or.inr List.mem_cons_self
      · refine Or.inr ?_
        cases m with
        | call j call => exact List.mem_cons_of_mem _ hcalled
        | _ => exact hcalled

/-- No call is in flight when every call that was made is over. -/
theorem quiescent_of_over {S : Service L X ε α} {c : Core D X} {moves : List (Move S)}
    {s : Config L X ε α} (hrun : S.run (start c) moves = some s)
    (hover : ((S.callers moves).all fun i => isOver (s.threads i)) = true) : s.Quiescent := by
  intro i t ht
  rcases threads_of_run hrun (i := i) (by simp [ht]) with hnone | hcalled
  · exact absurd rfl hnone
  · have hdone := List.all_eq_true.mp hover i hcalled
    rw [ht] at hdone
    cases t with
    | returned => rfl
    | _ => cases hdone

theorem Reachable.induction {S : Service L X ε α} {c : Core D X}
    {P : Config L X ε α → Prop} (init : P (start c))
    (next : ∀ s m s', S.Reachable c s → P s → S.exec s m = some s' → P s')
    {s : Config L X ε α} (h : S.Reachable c s) : P s := by
  obtain ⟨moves, hrun⟩ := h
  induction moves using List.reverseRecOn generalizing s with
  | nil =>
      simp only [run, Option.some.injEq] at hrun
      exact hrun ▸ init
  | append_singleton pre m ih =>
      rw [run_append] at hrun
      obtain ⟨mid, hmid, hlast⟩ := Option.bind_eq_some_iff.mp hrun
      obtain ⟨last, hexec, heq⟩ := Option.bind_eq_some_iff.mp hlast
      simp only [run, Option.some.injEq] at heq
      subst heq
      exact next mid m last ⟨pre, hmid⟩ (ih hmid) hexec

end Service

section Acts

/-- The call has no transaction, and each of its actions is one of `R`. -/
def Prog.Acts (R : Nat → D → X → X → Prop) (i : Nat) : Prog L X ε α → Prop
  | .done _ => True
  | .raise _ => True
  | .act f k => ∀ d x, ∀ answer ∈ f i d x, R i d x answer.2 ∧ (k answer.1).Acts R i
  | .txn _ _ _ => False

/-- What is left of the call acts as the whole did. -/
def Thread.Acts (R : Nat → D → X → X → Prop) (i : Nat) : Thread L X ε α → Prop
  | .run p => p.Acts R i
  | .inTx _ _ _ _ => False
  | .returned => True

variable {S : Service L X ε α} {R : Nat → D → X → X → Prop} {P : Core D X → Prop}
  {s s' : Config L X ε α}

/-- A step of a call that only acts. -/
theorem Service.stepThread_acts {i choice : Nat} {t : Thread L X ε α} (ht : t.Acts R i)
    (hP : P s.core) (hact : ∀ i d x x', P ⟨d, x⟩ → R i d x x' → P ⟨d, x'⟩)
    (hreturn : ∀ i result d x, P ⟨d, x⟩ → P ⟨d, S.onReturn i result x⟩)
    (h : S.stepThread s i choice t = some s') :
    P s'.core ∧ ∃ t', t'.Acts R i ∧ s'.threads = (s.setThread i t').threads := by
  cases t with
  | run p =>
      cases p with
      | done a =>
          cases h
          exact ⟨hreturn _ _ _ _ hP, .returned, trivial, rfl⟩
      | raise e =>
          cases h
          exact ⟨hreturn _ _ _ _ hP, .returned, trivial, rfl⟩
      | act f k =>
          simp only [Service.stepThread] at h
          split at h
          · cases h
          · rename_i answer hanswer
            cases h
            obtain ⟨hR, hrest⟩ := ht s.core.db s.core.store answer (List.mem_of_getElem? hanswer)
            exact ⟨hact _ _ _ _ hP hR, .run (k answer.1), hrest, rfl⟩
      | txn note body k => exact ht.elim
  | inTx note pending body k => exact ht.elim
  | returned => cases h

/-- What every action, and the beginning and end of a call, keep holds in every reachable
state of a service whose calls only act. -/
theorem Service.Reachable.acts {c : Core D X} (h : S.Reachable c s)
    (hprog : ∀ i call, (S.prog i call).Acts R i) (hinit : P c)
    (hact : ∀ i d x x', P ⟨d, x⟩ → R i d x x' → P ⟨d, x'⟩)
    (hcall : ∀ i call d x, P ⟨d, x⟩ → P ⟨d, S.onCall i call x⟩)
    (hreturn : ∀ i result d x, P ⟨d, x⟩ → P ⟨d, S.onReturn i result x⟩)
    (htick : ∀ n d x, P ⟨d, x⟩ → P ⟨d, S.tick n x⟩) : P s.core := by
  have hset : ∀ {s s' : Config L X ε α} {i : Nat} {t' : Thread L X ε α},
      (∀ j t, s.threads j = some t → t.Acts R j) → t'.Acts R i →
      s'.threads = (s.setThread i t').threads → ∀ j t, s'.threads j = some t → t.Acts R j := by
    intro s s' i t' hall ht' heq j t hj
    rw [heq] at hj
    by_cases hji : j = i
    · subst hji
      obtain rfl : t' = t := by simpa [Config.setThread] using hj
      exact ht'
    · exact hall j t (by simpa [Config.setThread, hji] using hj)
  refine (h.induction (P := fun s => P s.core ∧
    ∀ j t, s.threads j = some t → t.Acts R j) ⟨hinit, by simp [Service.start]⟩ ?_).1
  intro s m s' _ hs hexec
  obtain ⟨hP, hthreads⟩ := hs
  cases m with
  | call i call =>
      simp only [Service.exec] at hexec
      split at hexec
      · cases hexec
        refine ⟨hcall _ _ _ _ hP, ?_⟩
        have hfirst : (Thread.run (S.prog i call)).Acts R i := hprog i call
        exact hset hthreads hfirst rfl
      · cases hexec
  | step i choice =>
      obtain ⟨t, ht, hstep⟩ := Option.bind_eq_some_iff.mp hexec
      obtain ⟨hP', t', ht', heq⟩ := S.stepThread_acts (hthreads i t ht) hP hact hreturn hstep
      exact ⟨hP', hset hthreads ht' heq⟩
  | abort i =>
      obtain ⟨t, ht, habort⟩ := Option.bind_eq_some_iff.mp hexec
      cases t with
      | inTx note pending body k => exact (hthreads i _ ht).elim
      | run p => cases habort
      | returned => cases habort
  | tick n =>
      cases hexec
      exact ⟨htick _ _ _ hP, hthreads⟩

end Acts

end Interleave
