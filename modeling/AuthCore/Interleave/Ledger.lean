/-
Calls that record what they do.  A ledger says which event a call may record
next and what the event does to the shared state, so a run of the machine is
described by its log alone.  A call is checked against the ledger once; every
property of the system is then an induction over events.
-/
import AuthCore.Interleave.Soundness

namespace Interleave

variable {D X E : Type}

/-- What call `i` has recorded, the latest event first. -/
def trace (i : Nat) (log : List (Nat × E)) : List E :=
  log.filterMap fun entry => if entry.1 = i then some entry.2 else none

@[simp]
theorem trace_nil (i : Nat) : trace i ([] : List (Nat × E)) = [] :=
  rfl

@[simp]
theorem trace_cons_self (i : Nat) (e : E) (log : List (Nat × E)) :
    trace i ((i, e) :: log) = e :: trace i log := by
  simp [trace]

theorem trace_cons_of_ne {i j : Nat} (h : j ≠ i) (e : E) (log : List (Nat × E)) :
    trace i ((j, e) :: log) = trace i log := by
  simp [trace, h]

theorem mem_trace_iff {i : Nat} {e : E} {log : List (Nat × E)} :
    e ∈ trace i log ↔ (i, e) ∈ log := by
  simp only [trace, List.mem_filterMap, Option.ite_none_right_eq_some, Option.some.injEq]
  constructor
  · rintro ⟨⟨j, e'⟩, hmem, rfl, rfl⟩
    exact hmem
  · intro h
    exact ⟨(i, e), h, rfl, rfl⟩

@[simp]
theorem trace_append (i : Nat) (later earlier : List (Nat × E)) :
    trace i (later ++ earlier) = trace i later ++ trace i earlier := by
  simp [trace]

/-- Of two entries of a log one comes before the other. -/
theorem order_of_mem {x y : Nat × E} {log : List (Nat × E)} (hx : x ∈ log) (hy : y ∈ log) :
    x = y ∨ (∃ later earlier, log = later ++ x :: earlier ∧ y ∈ earlier) ∨
      ∃ later earlier, log = later ++ y :: earlier ∧ x ∈ earlier := by
  obtain ⟨later, earlier, rfl⟩ := List.append_of_mem hx
  rcases List.mem_append.mp hy with hlater | hrest
  · obtain ⟨l₁, l₂, rfl⟩ := List.append_of_mem hlater
    exact Or.inr (Or.inr ⟨l₁, l₂ ++ x :: earlier, by simp, by simp⟩)
  · rcases List.mem_cons.mp hrest with rfl | hearlier
    · exact Or.inl rfl
    · exact Or.inr (Or.inl ⟨later, earlier, rfl, hearlier⟩)

/-- An event in the record of a call is an entry of the log, and what the call
recorded before it comes before that entry. -/
theorem log_of_trace {i : Nat} {log : List (Nat × E)} {after before : List E} {e : E}
    (h : trace i log = after ++ e :: before) :
    ∃ later earlier, log = later ++ (i, e) :: earlier ∧ trace i later = after ∧
      trace i earlier = before := by
  induction log generalizing after with
  | nil => simp at h
  | cons entry rest ih =>
      obtain ⟨j, e'⟩ := entry
      by_cases hj : j = i
      · subst hj
        rw [trace_cons_self] at h
        cases after with
        | nil =>
            obtain ⟨rfl, hrest⟩ := List.cons.inj h
            exact ⟨[], rest, rfl, rfl, hrest⟩
        | cons first others =>
            obtain ⟨rfl, hrest⟩ := List.cons.inj h
            obtain ⟨later, earlier, rfl, hlater, hearlier⟩ := ih hrest
            exact ⟨(j, e') :: later, earlier, rfl, by rw [trace_cons_self, hlater], hearlier⟩
      · rw [trace_cons_of_ne hj] at h
        obtain ⟨later, earlier, rfl, hlater, hearlier⟩ := ih h
        exact ⟨(j, e') :: later, earlier, rfl, by rw [trace_cons_of_ne hj, hlater], hearlier⟩

/-- `enabled i c e`: call `i` may record `e` in state `c`.  `apply` is what the
event does; `pass` lets time go by and `ended` marks the last event of a call. -/
structure Ledger (D X E : Type) where
  log : X → List (Nat × E)
  enabled : Nat → Core D X → E → Prop
  apply : Nat → E → Core D X → Core D X
  pass : Nat → X → X
  ended : E → Prop
  log_apply : ∀ i e c, log (apply i e c).store = (i, e) :: log c.store
  log_pass : ∀ n x, log (pass n x) = log x

namespace Ledger

variable (G : Ledger D X E)

/-- `c'` comes from `c` by events of the calls in `who` and the passing of time. -/
inductive Leads (who : Nat → Prop) (c : Core D X) : Core D X → Prop
  | refl : Leads who c c
  | event {c' : Core D X} {i : Nat} {e : E} :
      Leads who c c' → who i → G.enabled i c' e → Leads who c (G.apply i e c')
  | pass {c' : Core D X} (n : Nat) : Leads who c c' → Leads who c ⟨c'.db, G.pass n c'.store⟩

/-- The states a log beginning in `c` can describe. -/
def History (c c' : Core D X) : Prop :=
  G.Leads (fun _ => True) c c'

variable {G}

theorem Leads.trans {who : Nat → Prop} {c c' c'' : Core D X} (h : G.Leads who c c')
    (h' : G.Leads who c' c'') : G.Leads who c c'' := by
  induction h' with
  | refl => exact h
  | event _ hwho henabled ih => exact ih.event hwho henabled
  | pass n _ ih => exact ih.pass n

theorem Leads.history {who : Nat → Prop} {c c' : Core D X} (h : G.Leads who c c') :
    G.History c c' := by
  induction h with
  | refl => exact Leads.refl
  | event _ _ henabled ih => exact Leads.event ih trivial henabled
  | pass n _ ih => exact Leads.pass n ih

/-- What the other calls do leaves a call's own record alone. -/
theorem Leads.trace_eq {i : Nat} {c c' : Core D X} (h : G.Leads (· ≠ i) c c') :
    trace i (G.log c'.store) = trace i (G.log c.store) := by
  induction h with
  | refl => rfl
  | event _ hne _ ih => rw [G.log_apply, trace_cons_of_ne hne, ih]
  | pass n _ ih => rw [G.log_pass, ih]

/-- The log only grows. -/
theorem Leads.log_suffix {who : Nat → Prop} {c c' : Core D X} (h : G.Leads who c c') :
    G.log c.store <:+ G.log c'.store := by
  induction h with
  | refl => exact List.suffix_refl _
  | event _ _ _ ih =>
      rw [G.log_apply]
      exact ih.trans (List.suffix_cons _ _)
  | pass n _ ih => rwa [G.log_pass]

/-- A property that every event and the passing of time keep holds from then on. -/
theorem Leads.preserves {who : Nat → Prop} {P : Core D X → Prop} {c c' : Core D X}
    (h : G.Leads who c c') (hstart : P c)
    (hevent : ∀ m i e, G.Leads who c m → P m → who i → G.enabled i m e → P (G.apply i e m))
    (hpass : ∀ m n, G.Leads who c m → P m → P ⟨m.db, G.pass n m.store⟩) : P c' := by
  induction h with
  | refl => exact hstart
  | event hleads hwho henabled ih => exact hevent _ _ _ hleads ih hwho henabled
  | pass n hleads ih => exact hpass _ n hleads ih

/-- Every entry of the log was enabled when it was recorded. -/
theorem History.entry {c c' : Core D X} (h : G.History c c') (hstart : G.log c.store = [])
    {later earlier : List (Nat × E)} {i : Nat} {e : E}
    (hlog : G.log c'.store = later ++ (i, e) :: earlier) :
    ∃ m, G.History c m ∧ G.log m.store = earlier ∧ G.enabled i m e ∧
      G.History (G.apply i e m) c' := by
  unfold History at h
  induction h generalizing later with
  | refl =>
      rw [hstart] at hlog
      simp at hlog
  | event hleads _ henabled ih =>
      rw [G.log_apply] at hlog
      cases later with
      | nil =>
          simp only [List.nil_append, List.cons.injEq, Prod.mk.injEq] at hlog
          obtain ⟨⟨rfl, rfl⟩, hearlier⟩ := hlog
          exact ⟨_, hleads, hearlier, henabled, Leads.refl⟩
      | cons head tail =>
          simp only [List.cons_append, List.cons.injEq] at hlog
          obtain ⟨m, hm, hearlier, hen, hrest⟩ := ih hlog.2
          exact ⟨m, hm, hearlier, hen, Leads.event hrest trivial henabled⟩
  | pass n hleads ih =>
      rw [G.log_pass] at hlog
      obtain ⟨m, hm, hearlier, hen, hrest⟩ := ih hlog
      exact ⟨m, hm, hearlier, hen, Leads.pass n hrest⟩

variable (G)

/-- The rely-guarantee reading of a ledger: everybody else only records enabled
events. -/
def protocol (start : Core D X) : Protocol D X where
  inv := G.History start
  rely i := G.Leads (· ≠ i)
  idle i c := trace i (G.log c.store) = []
  final i c := ∃ e rest, trace i (G.log c.store) = e :: rest ∧ G.ended e
  rely_refl _ _ := Leads.refl
  rely_trans h h' := h.trans h'
  idle_stable h hidle := h.trace_eq.trans hidle
  final_stable h hfinal := by
    obtain ⟨e, rest, htrace, hended⟩ := hfinal
    exact ⟨e, rest, h.trace_eq.trans htrace, hended⟩

theorem allows_apply {start c : Core D X} (h : G.History start c) {i : Nat} {e : E}
    (henabled : G.enabled i c e) : (G.protocol start).Allows i c (G.apply i e c) :=
  ⟨Leads.event h trivial henabled,
    fun _ hne => Leads.event Leads.refl (fun heq => hne heq.symm) henabled⟩

variable {L : Rows D} {ε α β : Type} (S : Service L X ε α) (start : Core D X)

/-- Call `i`, having recorded `t`, can go on with `p` from whatever state it
finds. -/
def At (i : Nat) (t : List E) (p : Prog L X ε α) : Prop :=
  ∀ c, G.History start c → trace i (G.log c.store) = t → (G.protocol start).wpCall S i p c

/-- The same inside a transaction. -/
def AtTx (i : Nat) (t : List E) (note : Nat → β → X → X)
    (k : Except (Fault ε) β → Prog L X ε α) (seen : List ((row : L.Row) × L.View row))
    (pending : D → D) (body : Tx L X ε β) : Prop :=
  ∀ c, G.History start c → trace i (G.log c.store) = t → Protocol.Current seen c.db →
    (G.protocol start).wpTx i note (fun r => (G.protocol start).wpCall S i (k r))
      seen pending body c

/-- The event that takes `c` to `c'` is enabled. -/
def Records (i : Nat) (e : E) (c c' : Core D X) : Prop :=
  G.enabled i c e ∧ c' = G.apply i e c

variable {G S start} {i : Nat} {t : List E}

theorem trace_later {c c' : Core D X} (hlater : (G.protocol start).Later i c c') :
    trace i (G.log c'.store) = trace i (G.log c.store) :=
  Leads.trace_eq hlater.1

theorem trace_apply (i : Nat) (e : E) (c : Core D X) :
    trace i (G.log (G.apply i e c).store) = e :: trace i (G.log c.store) := by
  rw [G.log_apply, trace_cons_self]

/-- The end of a call. -/
theorem at_return {result : Except ε α} (e : E) (hended : G.ended e)
    (hreturn : ∀ c, G.History start c → trace i (G.log c.store) = t →
      G.Records i e c ⟨c.db, S.onReturn i result c.store⟩)
    {c : Core D X} (htrace : trace i (G.log c.store) = t) :
    (G.protocol start).Returns S i result c := by
  intro c' hlater
  have htrace' := (trace_later hlater).trans htrace
  obtain ⟨henabled, happly⟩ := hreturn c' hlater.2 htrace'
  rw [happly]
  exact ⟨G.allows_apply hlater.2 henabled, e, t, by rw [trace_apply, htrace'], hended⟩

theorem at_done {a : α} (e : E) (hended : G.ended e)
    (hreturn : ∀ c, G.History start c → trace i (G.log c.store) = t →
      G.Records i e c ⟨c.db, S.onReturn i (.ok a) c.store⟩) :
    G.At S start i t (.done a) :=
  fun _ _ htrace => at_return e hended hreturn htrace

theorem at_raise {error : ε} (e : E) (hended : G.ended e)
    (hreturn : ∀ c, G.History start c → trace i (G.log c.store) = t →
      G.Records i e c ⟨c.db, S.onReturn i (.error error) c.store⟩) :
    G.At S start i t (.raise error) :=
  fun _ _ htrace => at_return e hended hreturn htrace

/-- An action records one event, whatever it answers. -/
theorem at_act {f : Nat → D → X → List (β × X)} {k : β → Prog L X ε α}
    (h : ∀ c, G.History start c → trace i (G.log c.store) = t → ∀ answer ∈ f i c.db c.store,
      ∃ e, G.Records i e c ⟨c.db, answer.2⟩ ∧ G.At S start i (e :: t) (k answer.1)) :
    G.At S start i t (.act f k) := by
  intro c _ htrace c' hlater answer hmem
  have htrace' := (trace_later hlater).trans htrace
  obtain ⟨e, ⟨henabled, happly⟩, hrest⟩ := h c' hlater.2 htrace' answer hmem
  rw [happly]
  refine ⟨G.allows_apply hlater.2 henabled, hrest _ ?_ (by rw [trace_apply, htrace'])⟩
  exact Leads.event hlater.2 trivial henabled

theorem at_txn {note : Nat → β → X → X} {body : Tx L X ε β}
    {k : Except (Fault ε) β → Prog L X ε α}
    (h : G.AtTx S start i t note k [] id body) : G.At S start i t (.txn note body k) :=
  fun c hc htrace => h c hc htrace fun _ hentry => by simp at hentry

variable {note : Nat → β → X → X} {k : Except (Fault ε) β → Prog L X ε α}
  {seen : List ((row : L.Row) × L.View row)} {pending : D → D}

theorem atTx_select {γ : Type} {query : D → γ} {selected : Nat → γ → X → X}
    {body : γ → Tx L X ε β}
    (h : ∀ c, G.History start c → trace i (G.log c.store) = t → Protocol.Current seen c.db →
      ∃ e, G.Records i e c ⟨c.db, selected i (query (pending c.db)) c.store⟩ ∧
        G.AtTx S start i (e :: t) note k seen pending (body (query (pending c.db)))) :
    G.AtTx S start i t note k seen pending (.select query selected body) := by
  intro c _ htrace _ c' hlater hcurrent
  have htrace' := (trace_later hlater).trans htrace
  obtain ⟨e, ⟨henabled, happly⟩, hrest⟩ := h c' hlater.2 htrace' hcurrent
  have hdb : (G.apply i e c').db = c'.db := by rw [← happly]
  rw [happly]
  refine ⟨G.allows_apply hlater.2 henabled, hrest _ ?_ (by rw [trace_apply, htrace']) ?_⟩
  · exact Leads.event hlater.2 trivial henabled
  · rwa [hdb]

theorem atTx_raise {fault : Fault ε} (h : G.At S start i t (k (.error fault))) :
    G.AtTx S start i t note k seen pending (.raise fault : Tx L X ε β) :=
  fun c hc htrace _ => h c hc htrace

/-- A lock: what it reads is current for the rest of the transaction. -/
theorem atTx_lock {row : L.Row} {body : L.View row → Tx L X ε β}
    (h : ∀ v, G.AtTx S start i t note k (⟨row, v⟩ :: seen) pending (body v))
    (hfault : G.At S start i t (k (.error .deadlock))) :
    G.AtTx S start i t note k seen pending (.lock row body) := by
  intro c hc htrace _
  refine ⟨fun c' hlater hcurrent => ?_, hfault c hc htrace⟩
  exact h _ c' hlater.2 ((trace_later hlater).trans htrace) (hcurrent.cons row)

/-- The part of a transaction after its last query commits as if it had run
alone on the database it finds. -/
theorem atTx_lockOnly {body : Tx L X ε β} (hbody : body.LockOnly)
    (hcommit : ∀ c, G.History start c → trace i (G.log c.store) = t →
      Protocol.Current seen c.db → ∀ a change, body.alone c.db pending = .ok (a, change) →
      ∃ e, G.Records i e c ⟨change c.db, note i a c.store⟩ ∧
        G.At S start i (e :: t) (k (.ok a)))
    (hfault : ∀ fault, G.At S start i t (k (.error fault))) :
    G.AtTx S start i t note k seen pending body := by
  intro c hc htrace hcurrent
  refine (G.protocol start).wpTx_of_lockOnly hbody hc hcurrent ?_ ?_
  · intro c' hlater hcurrent'
    have htrace' := (trace_later hlater).trans htrace
    unfold Protocol.Outcome
    cases halone : body.alone c'.db pending with
    | error fault => exact hfault fault c' hlater.2 htrace'
    | ok result =>
        obtain ⟨a, change⟩ := result
        obtain ⟨e, ⟨henabled, happly⟩, hrest⟩ :=
          hcommit c' hlater.2 htrace' hcurrent' a change halone
        simp only [happly]
        exact ⟨G.allows_apply hlater.2 henabled,
          hrest _ (Leads.event hlater.2 trivial henabled) (by rw [trace_apply, htrace'])⟩
  · intro c' hlater
    exact hfault _ c' hlater.2 ((trace_later hlater).trans htrace)

/-- Statements under locks before a further query: whatever database the rest
commits to, they would have answered the same on it. -/
theorem atTx_bind_lockOnly {γ : Type} {body : Tx L X ε γ} {rest : γ → Tx L X ε β}
    (hbody : body.LockOnly)
    (hrest : ∀ a seen' pending', (∀ d, Protocol.Current seen' d →
        Protocol.Current seen d ∧ body.alone d pending = .ok (a, pending')) →
      G.AtTx S start i t note k seen' pending' (rest a))
    (hfault : ∀ fault, G.At S start i t (k (.error fault))) :
    G.AtTx S start i t note k seen pending (body >>= rest) := by
  intro c hc htrace hcurrent
  refine (G.protocol start).wpTx_bind_lockOnly hbody hc hcurrent ?_ ?_
  · intro c' a seen' pending' hlater hcurrent' hsame
    exact hrest a seen' pending' hsame c' hlater.2 ((trace_later hlater).trans htrace)
      hcurrent'
  · intro fault c' hlater
    exact hfault _ c' hlater.2 ((trace_later hlater).trans htrace)

end Ledger

end Interleave
