/-
Runs in which calls pass their check of the lock only while there is room: between the check and
the count of a failure other calls can check as well.
-/
import AuthCore.Codes.Lockout

namespace AuthCore

open Interleave Throttle

/-- The runs of a service whose steps all meet a condition on what the calls share. -/
inductive Guarded (S : Service schema World AuthError Result)
    (ok : Core Db World → Core Db World → Prop) (s : Config schema World AuthError Result) :
    Config schema World AuthError Result → Prop
  | refl : Guarded S ok s s
  | step {s' s'' : Config schema World AuthError Result} {m : Move S} :
      Guarded S ok s s' → S.exec s' m = some s'' → ok s'.core s''.core → Guarded S ok s s''

namespace Guard

variable (G : Guard)

/-- A call passes its check of the lock. -/
def Passes (c c' : Core Db World) : Prop :=
  ∃ i, c'.store.log = (i, .got G.lock none) :: c.store.log ∧
    G.phase (trace i c.store.log) = .out

/-- A call passes its check only while there is room: nobody owes a lock, and the failures counted
in the window and the calls between their check and their count are fewer than the limit. -/
def Careful (c c' : Core Db World) : Prop :=
  G.Passes c c' → Spare G.limits (G.throttle c)

/-- Nobody clears the counter. -/
def Keeps (c c' : Core Db World) : Prop :=
  ∀ i, c'.store.log ≠ (i, .removed G.counter) :: c.store.log

/-- The guesses, right or wrong, that were compared with the secret. -/
def guesses : List (Nat × Event) → Nat
  | [] => 0
  | (i, e) :: log => guesses log + match G.kind (trace i log) e with
    | .guess _ => 1
    | _ => 0

/-- The calls whose wrong guess is still to be counted. -/
def uncounted (log : List (Nat × Event)) : Nat :=
  (G.standing (· == .guessed) log).card

/-- A move of the machine with its label in the throttle. -/
def Moves (c : Core Db World) (l : Option Label)
    (c' : Core Db World) : Prop :=
  (l = none ∧ c' = c) ∨
  (l = some .tick ∧ ∃ n, c' = ⟨c.db, { c.store with now := c.store.now + n }⟩) ∨
  ∃ i e d, G.Allows (trace i c.store.log) e ∧ e.Answers c ∧
    l = label (G.phase (trace i c.store.log)) (G.kind (trace i c.store.log) e) ∧
    c' = ⟨d, (e.stored c.store).record i e⟩

/-- The throttle as a state of the machine shows it. -/
def view (s : Config schema World AuthError Result) : Throttle Nat :=
  G.throttle s.core

/-- A step of a service with its label in the throttle. -/
def Next (S : Service schema World AuthError Result) (s : Config schema World AuthError Result)
    (l : Option Label) (s' : Config schema World AuthError Result) : Prop :=
  (∃ m, S.exec s m = some s') ∧ G.Moves s.core l s'.core

end Guard

section Runs

variable {G : Guard} {S : Service schema World AuthError Result}
  {ok ok' : Core Db World → Core Db World → Prop}
  {s s' s'' : Config schema World AuthError Result} {c c' : Core Db World} {l : Option Label}

theorem Guarded.mono (h : Guarded S ok s s') (himp : ∀ c c', ok c c' → ok' c c') :
    Guarded S ok' s s' := by
  induction h with
  | refl => exact .refl
  | step _ hexec hok ih => exact ih.step hexec (himp _ _ hok)

theorem Guarded.trans (h : Guarded S ok s s') (h' : Guarded S ok s' s'') : Guarded S ok s s'' := by
  induction h' with
  | refl => exact h
  | step _ hexec hok ih => exact ih.step hexec hok

theorem label_pass {phase : Phase} {kind : Kind} (h : Guard.label phase kind = some .pass) :
    phase = .out ∧ kind = .pass := by
  cases kind with
  | pass => cases phase <;> first | exact ⟨rfl, rfl⟩ | cases h
  | _ => cases phase <;> cases h

theorem label_reset {phase : Phase} {kind : Kind} (h : Guard.label phase kind = some .reset) :
    kind = .reset := by
  cases kind with
  | reset => rfl
  | _ => cases phase <;> cases h

theorem label_lock {phase : Phase} {kind : Kind} (h : Guard.label phase kind = some .lock) :
    kind = .lock := by
  cases kind with
  | lock => rfl
  | _ => cases phase <;> cases h

theorem label_guess (phase : Phase) (right : Bool) :
    Guard.label phase (.guess right) = some .guess := by
  cases phase <;> rfl

theorem label_count (phase : Phase) (n : Nat) :
    Guard.label phase (.count n) = some (.count n) := by
  cases phase <;> rfl

theorem tracks : Tracks G.limits G.view (G.Next S) := by
  rintro s l s' ⟨_, ⟨rfl, heq⟩ | ⟨rfl, n, heq⟩ | ⟨i, e, d, hevent, hanswers, rfl, heq⟩⟩
  · change G.throttle s'.core = G.throttle s.core
    rw [heq]
  · change Step G.limits .tick (G.throttle s.core) (G.throttle s'.core)
    rw [heq]
    exact .tick n
  · have hstep := step_event (d := d) hevent hanswers
    rw [← heq] at hstep
    generalize Guard.label _ _ = l at hstep ⊢
    cases l <;> exact hstep

/-- Every move of orderly calls has its label. -/
theorem moves_of_moved (htick : S.tick = fun n w => { w with now := w.now + n })
    (h : (conduct G.Allows).Moved S c c') : ∃ l, G.Moves c l c' := by
  cases h with
  | still => exact ⟨none, Or.inl ⟨rfl, rfl⟩⟩
  | tick n => exact ⟨some .tick, Or.inr (Or.inl ⟨rfl, n, by rw [htick]⟩)⟩
  | @event i e d w hallowed hdoes =>
      obtain ⟨rfl, hanswers⟩ := hdoes
      exact ⟨_, Or.inr (Or.inr ⟨i, e, d, hallowed, hanswers, rfl, rfl⟩)⟩

/-- A move that is labelled as a pass passes the check. -/
theorem Guard.Moves.passes (h : G.Moves c (some .pass) c') : G.Passes c c' := by
  obtain ⟨heq, _⟩ | ⟨heq, _⟩ | ⟨i, e, d, _, _, heq, rfl⟩ := h
  · cases heq
  · cases heq
  · obtain ⟨hout, hkind⟩ := label_pass heq.symm
    obtain rfl := kind_pass hkind
    exact ⟨i, rfl, hout⟩

theorem Guard.Moves.removed (h : G.Moves c (some .reset) c') :
    G.clears = true ∧ ¬G.Keeps c c' := by
  obtain ⟨heq, _⟩ | ⟨heq, _⟩ | ⟨i, e, d, hallows, _, heq, rfl⟩ := h
  · cases heq
  · cases heq
  · have hkind := label_reset heq.symm
    unfold Guard.Allows at hallows
    rw [hkind] at hallows
    obtain rfl := kind_reset hkind
    exact ⟨hallows.2, fun hkeeps => hkeeps i (congrArg _ (Event.log_stored _ c.store))⟩

theorem Guard.Moves.locks (h : G.Moves c (some .lock) c') :
    ∃ i value ttl, c'.store.log = (i, .put G.lock value ttl) :: c.store.log := by
  obtain ⟨heq, _⟩ | ⟨heq, _⟩ | ⟨i, e, d, _, _, heq, rfl⟩ := h
  · cases heq
  · cases heq
  · obtain ⟨value, ttl, rfl⟩ := kind_lock (label_lock heq.symm)
    exact ⟨i, value, ttl, congrArg _ (Event.log_stored _ c.store)⟩

theorem Guard.Moves.later (h : G.Moves c l c') : c.store.now ≤ c'.store.now := by
  obtain ⟨_, rfl⟩ | ⟨_, n, rfl⟩ | ⟨i, e, d, _, _, _, rfl⟩ := h
  · exact Nat.le_refl _
  · exact Nat.le_add_right _ _
  · change c.store.now ≤ (e.stored c.store).now
    rw [e.now_stored]

/-- A move compares a guess or leaves their number. -/
theorem Guard.Moves.guesses (h : G.Moves c l c') :
    l = some .guess ∨ G.guesses c'.store.log = G.guesses c.store.log := by
  obtain ⟨_, rfl⟩ | ⟨_, n, rfl⟩ | ⟨i, e, d, _, _, rfl, rfl⟩ := h
  · exact Or.inr rfl
  · exact Or.inr rfl
  · cases hkind : G.kind (trace i c.store.log) e with
    | guess right => exact Or.inl (label_guess _ right)
    | _ =>
        refine Or.inr ?_
        have hlog : ((e.stored c.store).record i e).log = (i, e) :: c.store.log :=
          congrArg _ (e.log_stored c.store)
        change G.guesses ((e.stored c.store).record i e).log = _
        rw [hlog, Guard.guesses, hkind]
        rfl

variable (hgoverns : (conduct G.Allows).Governs S .returned)
  (htick : S.tick = fun n w => { w with now := w.now + n })

include hgoverns htick

/-- A guarded run, label by label. -/
theorem Guarded.runs {good : Option Label → Config schema World AuthError Result → Prop}
    (horderly : (conduct G.Allows).Orderly .returned s) (hrun : Guarded S ok s s')
    (hgood : ∀ {c c' l}, G.Moves c l c' → ok c c' → ∀ s, s.core = c → good l s) :
    (conduct G.Allows).Orderly .returned s' ∧ Throttle.Runs (G.Next S) good s s' := by
  induction hrun with
  | refl => exact ⟨horderly, .refl⟩
  | step _ hexec hok ih =>
      obtain ⟨horderly', hruns⟩ := ih
      obtain ⟨horderly'', hmoved⟩ := Conduct.orderly_exec hgoverns horderly' hexec
      obtain ⟨l, hmoves⟩ := moves_of_moved htick hmoved
      exact ⟨horderly'', hruns.step ⟨⟨_, hexec⟩, hmoves⟩ (hgood hmoves hok _ rfl)⟩

omit hgoverns htick in
theorem sound_start (hlog : c.store.log = []) : Sound G.limits (G.throttle c) := by
  have hnone : ∀ phases, G.standing phases c.store.log = ∅ := by
    intro phases
    rw [hlog]
    rfl
  refine ⟨?_, fun hsome => ?_⟩
  · change G.standing _ c.store.log ⊆ G.standing _ c.store.log
    rw [hnone, hnone]
  · have hempty : (G.throttle c).checking = ∅ :=
      hnone fun phase => phase == .checking || phase == .guessed
    rw [hempty] at hsome
    exact absurd hsome Finset.not_nonempty_empty

omit hgoverns htick in
theorem Guarded.of_runs {good : Option Label → Config schema World AuthError Result → Prop}
    (h : Throttle.Runs (G.Next S) good s s') : Guarded S (fun _ _ => True) s s' := by
  induction h with
  | refl => exact .refl
  | step _ hnext _ ih =>
      obtain ⟨⟨m, hexec⟩, _⟩ := hnext
      exact ih.step hexec trivial

omit hgoverns htick in
/-- The counter is gone or expired. -/
theorem closed_of_get (h : c.store.cache.get c.store.now G.counter = none) :
    (G.throttle c).Closed := by
  intro n expiry hcounter halive
  unfold Cache.get at h
  rcases hentry : c.store.cache G.counter with _ | ⟨m, _ | e⟩
  · exact nomatch hcounter.symm.trans hentry
  · rw [hentry] at h
    cases h
  · have hexpiry : expiry = some e :=
      congrArg Prod.snd (Option.some.inj (hcounter.symm.trans hentry))
    have hlive : c.store.now < e := halive e hexpiry
    rw [hentry] at h
    dsimp only at h
    rw [if_pos hlive] at h
    cases h

/-- The step that counts a failure. -/
theorem next_count {i n : Nat} {m : Move S} (horderly : (conduct G.Allows).Orderly .returned s)
    (hexec : S.exec s m = some s') (hcount : s'.core.store.log =
      (i, .counted G.route G.subject G.windowSeconds n) :: s.core.store.log) :
    G.Next S s (some (.count n)) s' := by
  obtain ⟨_, hmoved⟩ := Conduct.orderly_exec hgoverns horderly hexec
  refine ⟨⟨m, hexec⟩, ?_⟩
  generalize hcore : s'.core = c' at hmoved hcount ⊢
  cases hmoved with
  | still => exact absurd hcount.symm (List.cons_ne_self _ _)
  | tick n =>
      rw [htick] at hcount
      exact absurd hcount.symm (List.cons_ne_self _ _)
  | @event j e d w hevent hdoes =>
      obtain ⟨rfl, hanswers⟩ := hdoes
      have hhead : (j, e) = (i, .counted G.route G.subject G.windowSeconds n) := by
        have hlog : ((e.stored s.core.store).record j e).log = (j, e) :: s.core.store.log :=
          congrArg _ (e.log_stored s.core.store)
        exact (List.cons.inj (hlog.symm.trans hcount)).1
      obtain ⟨rfl, rfl⟩ := Prod.mk.inj hhead
      refine Or.inr (Or.inr ⟨j, _, d, hevent, hanswers, ?_, rfl⟩)
      have hkind : G.kind (trace j s.core.store.log)
          (.counted G.route G.subject G.windowSeconds n) = .count n := by
        unfold Guard.kind
        exact if_pos ⟨rfl, rfl⟩
      rw [hkind, label_count]

/-- After a failure is counted.  If it opens a window, the wrong guesses since, with those that
were then still to be counted, are at most the limit until the window closes or the counter is
cleared.  If it is the last one allowed, no guess is compared until a lock that was set since has
expired. -/
theorem Guard.bounds (hlog : c.store.log = []) (hbefore : Guarded S G.Careful (Service.start c) s)
    {m : Move S} (hexec : S.exec s m = some s') {i n : Nat} (hcount : s'.core.store.log =
      (i, .counted G.route G.subject G.windowSeconds n) :: s.core.store.log) :
    (s.core.store.cache.get s.core.store.now G.counter = none → ∀ s'',
      Guarded S (fun c c' => G.Careful c c' ∧ (G.clears = true → G.Keeps c c')) s' s'' →
      s''.core.store.now < s'.core.store.now + seconds G.windowSeconds →
      G.wrongGuesses s''.core.store.log + G.uncounted s.core.store.log ≤
        G.wrongGuesses s.core.store.log + G.limits.limit) ∧
    (G.limits.limit ≤ n → ∀ s'', Guarded S G.Careful s' s'' →
      G.guesses s''.core.store.log = G.guesses s'.core.store.log ∨
      ∃ x y j value ttl, Guarded S (fun _ _ => True) s' x ∧
        y.core.store.log = (j, .put G.lock value ttl) :: x.core.store.log ∧
        Guarded S (fun _ _ => True) y s'' ∧
        y.core.store.now + seconds G.lockSeconds ≤ s''.core.store.now) := by
  have hcareful : ∀ {c c' : Core Db World} {l : Option Label}, G.Moves c l c' →
      G.Careful c c' → ∀ s : Config schema World AuthError Result, s.core = c →
      Throttle.Careful G.limits G.view l s := by
    rintro c c' l hmoves hcareful s rfl rfl
    exact hcareful hmoves.passes
  obtain ⟨horderly, hruns⟩ :=
    hbefore.runs hgoverns htick (Conduct.orderly_start hlog) hcareful
  have htracks := tracks (G := G) (S := S)
  have hsound : Sound G.limits (G.view s) :=
    hruns.sound htracks (sound_start hlog) fun _ _ h => h
  have hnext := next_count hgoverns htick horderly hexec hcount
  have horderly' := (Conduct.orderly_exec hgoverns horderly hexec).1
  constructor
  · intro hnone s'' hrun hwithin
    have hgood : ∀ {c c' : Core Db World} {l : Option Label}, G.Moves c l c' →
        G.Careful c c' ∧ (G.clears = true → G.Keeps c c') →
        ∀ s : Config schema World AuthError Result, s.core = c →
        Throttle.Careful G.limits G.view l s ∧ l ≠ some .reset := by
      rintro c c' l hmoves ⟨hpasses, hkeeps⟩ s rfl
      refine ⟨hcareful hmoves hpasses s rfl, fun hreset => ?_⟩
      subst hreset
      exact hmoves.removed.2 (hkeeps hmoves.removed.1)
    obtain ⟨_, hruns'⟩ := hrun.runs hgoverns htick horderly' hgood
    refine wrong_le htracks hsound (fun _ _ h => h.1) (fun _ _ h => h.2) hnext
      (closed_of_get hnone) hruns' ?_
    rw [G.window_eq]
    exact hwithin
  · intro hlast s'' hrun
    induction hrun with
    | refl => exact Or.inl rfl
    | @step s₁ s₂ m₁ hrun₁ hexec₁ hok₁ ih =>
        obtain ⟨horderly₁, hruns₁⟩ := hrun₁.runs hgoverns htick horderly' hcareful
        obtain ⟨l, hmoves⟩ :=
          moves_of_moved htick (Conduct.orderly_exec hgoverns horderly₁ hexec₁).2
        rcases ih with hsame | ⟨x, y, j, value, ttl, hbefore, hlock, hafter, hexpired⟩
        · rcases hmoves.guesses with rfl | hguesses
          · obtain ⟨x, y, hbefore, ⟨⟨m₂, hexec₂⟩, hmoves₂⟩, hafter, hexpired⟩ :=
              guess_after_lock htracks hsound (fun _ _ h => h) hnext hlast hruns₁
                ⟨⟨m₁, hexec₁⟩, hmoves⟩
            obtain ⟨j, value, ttl, hlock⟩ := hmoves₂.locks
            refine Or.inr ⟨x, y, j, value, ttl, .of_runs hbefore, hlock, ?_, ?_⟩
            · exact (Guarded.of_runs hafter).step hexec₁ trivial
            · rw [← G.ttl_eq]
              exact Nat.le_trans hexpired hmoves.later
          · exact Or.inl (hguesses.trans hsame)
        · exact Or.inr ⟨x, y, j, value, ttl, hbefore, hlock, hafter.step hexec₁ trivial,
            Nat.le_trans hexpired hmoves.later⟩

end Runs

section Samples

variable {S : Service schema World AuthError Result} {G : Guard}
  {s s' : Config schema World AuthError Result} {c c' : Core Db World}

/-- A check that implies `Careful`. -/
def Guard.careful (G : Guard) (c c' : Core Db World) : Bool :=
  match c'.store.log with
  | [] => true
  | (i, e) :: _ => decide (G.kind (trace i c.store.log) e = .pass →
      G.phase (trace i c.store.log) = .out → Spare G.limits (G.throttle c))

theorem careful_of_check (h : G.careful c c' = true) : G.Careful c c' := by
  rintro ⟨i, hlog, hout⟩
  unfold Guard.careful at h
  rw [hlog] at h
  exact of_decide_eq_true h (if_pos ⟨rfl, rfl⟩) hout

/-- A check that implies `Keeps`. -/
def Guard.keeps (G : Guard) (_ c' : Core Db World) : Bool :=
  match c'.store.log with
  | (_, .removed key) :: _ => decide (key ≠ G.counter)
  | _ => true

theorem keeps_of_check (h : G.keeps c c' = true) : G.Keeps c c' := by
  intro i hlog
  unfold Guard.keeps at h
  rw [hlog] at h
  exact of_decide_eq_true h rfl

/-- The state after moves that all pass a check. -/
def guardedRun (S : Service schema World AuthError Result)
    (check : Core Db World → Core Db World → Bool) (s : Config schema World AuthError Result) :
    List (Move S) → Option (Config schema World AuthError Result)
  | [] => some s
  | m :: rest => (S.exec s m).bind fun s' =>
      if check s.core s'.core then guardedRun S check s' rest else none

theorem guarded_of_run {check : Core Db World → Core Db World → Bool}
    {ok : Core Db World → Core Db World → Prop} {moves : List (Move S)}
    (h : guardedRun S check s moves = some s') (hok : ∀ c c', check c c' = true → ok c c') :
    Guarded S ok s s' := by
  have hall : ∀ {r}, Guarded S ok r s → Guarded S ok r s' := by
    induction moves generalizing s with
    | nil =>
        cases h
        exact fun hrun => hrun
    | cons m rest ih =>
        obtain ⟨s₁, hexec, hrest⟩ := Option.bind_eq_some_iff.mp h
        intro r hrun
        split at hrest
        · rename_i hcheck
          exact ih hrest (hrun.step hexec (hok _ _ hcheck))
        · cases hrest
  exact hall .refl

/-- Checked moves, one move and checked moves again. -/
def chain (S : Service schema World AuthError Result)
    (check : Core Db World → Core Db World → Bool) (c : Core Db World) (first : List (Move S))
    (m : Move S) (rest : List (Move S)) : Option (Config schema World AuthError Result ×
      Config schema World AuthError Result × Config schema World AuthError Result) :=
  (guardedRun S check (Service.start c) first).bind fun r =>
    (S.exec r m).bind fun s => (guardedRun S check s rest).map fun s' => (r, s, s')

theorem of_chain_eq {check : Core Db World → Core Db World → Bool}
    {ok : Core Db World → Core Db World → Prop} {first rest : List (Move S)} {m : Move S}
    {r : Config schema World AuthError Result} (h : chain S check c first m rest = some (r, s, s'))
    (hok : ∀ c c', check c c' = true → ok c c') :
    Guarded S ok (Service.start c) r ∧ S.exec r m = some s ∧ Guarded S ok s s' := by
  obtain ⟨_, hfirst, hchain⟩ := Option.bind_eq_some_iff.mp h
  obtain ⟨_, hexec, hchain⟩ := Option.bind_eq_some_iff.mp hchain
  obtain ⟨_, hrest, heq⟩ := Option.map_eq_some_iff.mp hchain
  cases heq
  exact ⟨guarded_of_run hfirst hok, hexec, guarded_of_run hrest hok⟩

theorem of_chain {β : Type} {check : Core Db World → Core Db World → Bool}
    {ok : Core Db World → Core Db World → Prop} {first rest : List (Move S)} {m : Move S}
    {f : Config schema World AuthError Result × Config schema World AuthError Result ×
      Config schema World AuthError Result → β} {b : β}
    (h : (chain S check c first m rest).map f = some b)
    (hok : ∀ c c', check c c' = true → ok c c') :
    ∃ r s s', Guarded S ok (Service.start c) r ∧ S.exec r m = some s ∧ Guarded S ok s s' ∧
      f (r, s, s') = b := by
  obtain ⟨⟨r, s, s'⟩, hchain, hf⟩ := Option.map_eq_some_iff.mp h
  obtain ⟨hbefore, hexec, hrun⟩ := of_chain_eq hchain hok
  exact ⟨r, s, s', hbefore, hexec, hrun, hf⟩

theorem Guarded.orderly {ok : Core Db World → Core Db World → Prop}
    (hgoverns : (conduct G.Allows).Governs S .returned)
    (horderly : (conduct G.Allows).Orderly .returned s) (h : Guarded S ok s s') :
    (conduct G.Allows).Orderly .returned s' := by
  induction h with
  | refl => exact horderly
  | step _ hexec _ ih => exact (Conduct.orderly_exec hgoverns ih hexec).1

/-- The failure that the last entry of a log counts. -/
def Guard.lastCount (G : Guard) : List (Nat × Event) → Option (Nat × Nat)
  | (i, .counted route subject window n) :: _ =>
      if route = G.route ∧ subject = G.subject ∧ window = G.windowSeconds then some (i, n) else none
  | _ => none

theorem log_of_lastCount {i n : Nat} {m : Move S}
    (hgoverns : (conduct G.Allows).Governs S .returned)
    (horderly : (conduct G.Allows).Orderly .returned s) (hexec : S.exec s m = some s')
    (hcount : G.lastCount s'.core.store.log = some (i, n))
    (hnew : s'.core.store.log.length = s.core.store.log.length + 1) : s'.core.store.log =
      (i, .counted G.route G.subject G.windowSeconds n) :: s.core.store.log := by
  obtain ⟨_, hmoved⟩ := Conduct.orderly_exec hgoverns horderly hexec
  generalize hcore : s'.core = c' at hmoved hcount hnew ⊢
  cases hmoved with
  | still => exact absurd hnew (Nat.ne_of_lt (Nat.lt_succ_self _))
  | tick n =>
      have hlog := hgoverns.tick n s.core.store
      change (S.tick n s.core.store).log.length = _ at hnew
      change (S.tick n s.core.store).log = _ at hlog
      rw [hlog] at hnew
      exact absurd hnew (Nat.ne_of_lt (Nat.lt_succ_self _))
  | @event j e d w _ hdoes =>
      have hlog : w.log = (j, e) :: s.core.store.log := (conduct G.Allows).log_does hdoes
      change G.lastCount w.log = _ at hcount
      change w.log = _
      rw [hlog] at hcount ⊢
      unfold Guard.lastCount at hcount
      split at hcount
      · rename_i heq
        obtain ⟨hentry, rfl⟩ := List.cons.inj heq
        split at hcount
        · rename_i hsame
          obtain ⟨rfl, rfl, rfl⟩ := hsame
          obtain ⟨rfl, rfl⟩ := Prod.mk.inj (Option.some.inj hcount)
          rw [hentry]
        · cases hcount
      · cases hcount

end Samples

section Rules

variable {α β : Type} {allowed : List Event → Event → Prop} {i : Nat} {t : List Event}
  {after : List Event → Except AuthError β → Prop}

theorem obeys_step {f : Db → World → β × World} {event : β → Event} (h : ∀ d w,
    (f d w).2 = (event (f d w).1).stored w ∧ (event (f d w).1).Answers ⟨d, w⟩)
    (hallowed : ∀ b, allowed t (event b) ∧ after (event b :: t) (.ok b)) :
    (conduct allowed).Obeys i after t (step f event) := by
  intro d w answer hanswer
  obtain rfl := List.mem_singleton.mp hanswer
  obtain ⟨hstored, hanswers⟩ := h d w
  refine ⟨_, (hallowed _).1, ⟨?_, hanswers⟩, (hallowed _).2⟩
  dsimp only
  rw [hstored]

theorem obeys_clock {after : List Event → Except AuthError Time → Prop}
    (h : ∀ now, allowed t (.clock now) ∧ after (.clock now :: t) (.ok now)) :
    (conduct allowed).Obeys i after t clock :=
  obeys_step (fun _ _ => ⟨rfl, trivial⟩) h

theorem obeys_look {query : Db → β} {event : β → Event}
    (hplain : ∀ b w, (event b).stored w = w ∧ ∀ c, (event b).Answers c)
    (h : ∀ b, allowed t (event b) ∧ after (event b :: t) (.ok b)) :
    (conduct allowed).Obeys i after t (look query event) :=
  obeys_step (fun _ w => ⟨(hplain _ w).1.symm, (hplain _ w).2 _⟩) h

theorem obeys_get {key : CacheKey} {after : List Event → Except AuthError (Option key.Value) → Prop}
    (h : ∀ value, allowed t (.got key value) ∧ after (.got key value :: t) (.ok value)) :
    (conduct allowed).Obeys i after t (Redis.get key) :=
  obeys_step (fun _ _ => ⟨rfl, rfl⟩) h

theorem obeys_set {key : CacheKey} {value : key.Value} {ttl : Nat}
    {after : List Event → Except AuthError Unit → Prop}
    (h : allowed t (.put key value ttl) ∧ after (.put key value ttl :: t) (.ok ())) :
    (conduct allowed).Obeys i after t (Redis.set key value ttl) :=
  obeys_step (fun _ _ => ⟨rfl, trivial⟩) fun _ => h

theorem obeys_getdel {key : CacheKey}
    {after : List Event → Except AuthError (Option key.Value) → Prop}
    (h : ∀ value, allowed t (.taken key value) ∧ after (.taken key value :: t) (.ok value)) :
    (conduct allowed).Obeys i after t (Redis.getdel key) :=
  obeys_step (fun _ _ => ⟨rfl, trivial⟩) h

theorem obeys_delete {key : CacheKey} {after : List Event → Except AuthError Unit → Prop}
    (h : allowed t (.removed key) ∧ after (.removed key :: t) (.ok ())) :
    (conduct allowed).Obeys i after t (Redis.delete key) :=
  obeys_step (fun _ _ => ⟨rfl, trivial⟩) fun _ => h

theorem obeys_count {route : String} {subject : Subject} {window : Nat}
    {after : List Event → Except AuthError Nat → Prop}
    (h : ∀ n, allowed t (.counted route subject window n) ∧
      after (.counted route subject window n :: t) (.ok n)) :
    (conduct allowed).Obeys i after t (Redis.incrementRateLimit route subject window) :=
  obeys_step (fun _ _ => ⟨rfl, rfl⟩) h

theorem obeys_verifyAndConsumeOtp {user : Uuid} {purpose : OtpPurpose} {candidate : Digest}
    {attempts : Nat} {after : List Event → Except AuthError Int → Prop}
    (h : ∀ outcome, allowed t (.otpTried user purpose candidate attempts outcome) ∧
      after (.otpTried user purpose candidate attempts outcome :: t) (.ok outcome)) :
    (conduct allowed).Obeys i after t
      (Redis.verifyAndConsumeOtp user purpose candidate attempts) :=
  obeys_step (fun _ _ => ⟨rfl, trivial⟩) h

/-- The body of a transaction that only locks and writes, and records one event. -/
theorem txObeys_event {event : β → Event} {body : Trans β}
    {after : List Event → Except (Fault AuthError) β → Prop} (hbody : body.LockOnly)
    (hplain : ∀ b w, (event b).stored w = w ∧ ∀ c, (event b).Answers c)
    (h : ∀ b, allowed t (event b) ∧ after (event b :: t) (.ok b))
    (hfault : ∀ fault, after t (.error fault)) :
    (conduct allowed).TxObeys i (fun i b w => w.record i (event b)) after t body := by
  refine Conduct.txObeys_of_lockOnly hbody (fun b => ?_) hfault
  refine ⟨event b, (h b).1, fun d w => ⟨?_, (hplain b w).2 _⟩, (h b).2⟩
  rw [(hplain b w).1]

theorem obeys_transact {event : β → Event} {body : Trans β} (hbody : body.LockOnly)
    (hplain : ∀ b w, (event b).stored w = w ∧ ∀ c, (event b).Answers c)
    (h : ∀ b, allowed t (event b) ∧ after (event b :: t) (.ok b))
    (hfault : after t (.error .unhandled)) :
    (conduct allowed).Obeys i after t (transact event body) :=
  txObeys_event hbody hplain h fun _ => hfault

theorem obeys_attempt {event : β → Event} {body : Trans β}
    {after : List Event → Except AuthError (Except (Fault AuthError) β) → Prop}
    (hbody : body.LockOnly) (hplain : ∀ b w, (event b).stored w = w ∧ ∀ c, (event b).Answers c)
    (h : ∀ b, allowed t (event b) ∧ after (event b :: t) (.ok (.ok b)))
    (hfault : ∀ fault, after t (.ok (.error fault))) :
    (conduct allowed).Obeys i after t (attempt event body) :=
  txObeys_event hbody hplain h hfault

theorem obeys_audit {event outcome : String} {user : Option Uuid}
    {after : List Event → Except AuthError Unit → Prop}
    (h : ∀ entry, allowed t (.audited entry) ∧ after (.audited entry :: t) (.ok ()))
    (hfault : after t (.error .unhandled)) :
    (conduct allowed).Obeys i after t (LoginRepository.audit event outcome user) :=
  obeys_transact trivial (fun _ _ => ⟨rfl, fun _ => trivial⟩) (fun _ => h _) hfault

end Rules

/-- The event means nothing to the guard, whoever records it. -/
structure Guard.Mute (G : Guard) (e : Event) : Prop where
  kind : ∀ t, G.kind t e = .other
  lock : e.touches ≠ some G.lock
  counter : e.touches ≠ some G.counter

section Mute

variable {G : Guard} {t : List Event} {e : Event}

theorem Guard.Mute.allows (h : G.Mute e) : G.Allows t e := by
  unfold Guard.Allows
  rw [h.kind]
  exact ⟨h.lock, h.counter⟩

theorem Guard.Mute.phase (h : G.Mute e) : G.phase (e :: t) = G.phase t := by
  rw [Guard.phase, h.kind]

/-- A part of a call that means nothing to the guard. -/
def Guard.Rests {α : Type} (G : Guard) (i : Nat) (p : Proc α) : Prop :=
  ∀ t, (conduct G.Allows).Obeys i (fun t' _ => G.phase t' = G.phase t) t p

variable {α β : Type} {i : Nat}

theorem Guard.Mute.rests (h : G.Mute e) :
    G.Allows t e ∧ G.phase (e :: t) = G.phase t :=
  ⟨h.allows, h.phase⟩

theorem rests_pure (a : α) : G.Rests i (pure a : Proc α) :=
  fun _ => rfl

theorem rests_fail (error : AuthError) : G.Rests i (fail error : Proc α) :=
  fun _ => rfl

theorem Guard.Rests.bind {p : Proc α} {k : α → Proc β} (h : G.Rests i p)
    (hk : ∀ a, G.Rests i (k a)) : G.Rests i (p >>= k) := by
  intro t
  refine .bind ((h t).mono fun t' result hphase => ?_)
  cases result with
  | ok a => exact (hk a t').mono fun _ _ hphase' => hphase'.trans hphase
  | error e => exact hphase

theorem rests_set {key : CacheKey} {value : key.Value} {ttl : Nat}
    (h : G.Mute (.put key value ttl)) : G.Rests i (Redis.set key value ttl) :=
  fun _ => obeys_set h.rests

theorem rests_look {query : Db → β} {event : β → Event}
    (hplain : ∀ b w, (event b).stored w = w ∧ ∀ c, (event b).Answers c)
    (h : ∀ b, G.Mute (event b)) : G.Rests i (look query event) :=
  fun _ => obeys_look hplain fun b => (h b).rests

theorem rests_attempt {event : β → Event} {body : Trans β} (hbody : body.LockOnly)
    (hplain : ∀ b w, (event b).stored w = w ∧ ∀ c, (event b).Answers c)
    (h : ∀ b, G.Mute (event b)) : G.Rests i (attempt event body) :=
  fun _ => obeys_attempt hbody hplain (fun b => (h b).rests) fun _ => rfl

/-- A transaction that looks for its rows and then locks and writes. -/
theorem rests_txn {γ : Type} {query : Db → γ} {seen : γ → Event} {event : β → Event}
    {body : γ → Trans β} {k : Except (Fault AuthError) β → Proc α}
    (hbody : ∀ found, (body found).LockOnly)
    (hseen : ∀ b w, (seen b).stored w = w ∧ ∀ c, (seen b).Answers c)
    (hplain : ∀ b w, (event b).stored w = w ∧ ∀ c, (event b).Answers c)
    (hmute : ∀ b, G.Mute (seen b)) (hmute' : ∀ b, G.Mute (event b))
    (hk : ∀ result, G.Rests i (k result)) :
    G.Rests i (.txn (fun i b w => w.record i (event b)) (ask query seen >>= body) k) := by
  intro t found
  refine ⟨seen found, (hmute found).allows, fun d w => ⟨?_, (hseen found w).2 _⟩, ?_⟩
  · rw [(hseen found w).1]
  · refine txObeys_event (hbody found) hplain (fun b => ⟨(hmute' b).allows, ?_⟩) fun fault => ?_
    · refine (hk (.ok b) _).mono fun t' _ hphase => hphase.trans ?_
      rw [(hmute' b).phase, (hmute found).phase]
    · exact (hk (.error fault) _).mono fun t' _ hphase => hphase.trans (hmute found).phase

theorem rests_audit {event outcome : String} {user : Option Uuid}
    (h : ∀ entry, G.Mute (.audited entry)) :
    G.Rests i (LoginRepository.audit event outcome user) :=
  fun _ => obeys_audit (fun entry => (h entry).rests) rfl

theorem mute_got {key : CacheKey} {value : Option key.Value} (h : key ≠ G.lock) :
    G.Mute (.got key value) := by
  refine ⟨fun t => ?_, (fun heq => nomatch heq), fun heq => nomatch heq⟩
  unfold Guard.kind
  exact if_neg fun hboth => h hboth.1

theorem mute_got_some {key : CacheKey} {value : key.Value} : G.Mute (.got key (some value)) := by
  refine ⟨fun t => ?_, (fun heq => nomatch heq), fun heq => nomatch heq⟩
  unfold Guard.kind
  exact if_neg fun hboth => nomatch hboth.2

theorem mute_put {key : CacheKey} {value : key.Value} {ttl : Nat} (h : key ≠ G.lock)
    (h' : key ≠ G.counter) : G.Mute (.put key value ttl) := by
  refine ⟨fun t => ?_, fun heq => h (Option.some.inj heq), fun heq => h' (Option.some.inj heq)⟩
  unfold Guard.kind
  exact if_neg h

theorem mute_counted {route : String} {subject : Subject} {window n : Nat}
    (h : CacheKey.rateLimit route subject ≠ G.lock)
    (h' : CacheKey.rateLimit route subject ≠ G.counter) :
    G.Mute (.counted route subject window n) := by
  refine ⟨fun t => ?_, fun heq => h (Option.some.inj heq), fun heq => h' (Option.some.inj heq)⟩
  unfold Guard.kind
  exact if_neg fun hboth => h' (by rw [hboth.1, hboth.2])

end Mute

section Allowed

variable {G : Guard} {t : List Event}

theorem allows_pass (h : G.phase t = .out ∨ G.phase t = .checking) :
    G.Allows t (.got G.lock none) ∧ G.phase (.got G.lock none :: t) = .checking := by
  have hkind : G.kind t (.got G.lock none) = .pass := if_pos ⟨rfl, rfl⟩
  unfold Guard.Allows
  rw [Guard.phase, hkind]
  exact ⟨h, rfl⟩

theorem allows_guess {e : Event} {right : Bool} (hkind : G.kind t e = .guess right)
    (h : G.phase t = .checking) (htouches : e.touches = none) :
    G.Allows t e ∧ G.phase (e :: t) = if right then .checking else .guessed := by
  unfold Guard.Allows
  rw [Guard.phase, hkind]
  cases right with
  | true => exact ⟨⟨h, htouches⟩, h⟩
  | false => exact ⟨⟨h, htouches⟩, rfl⟩

theorem allows_count {n : Nat} (h : G.phase t = .checking ∨ G.phase t = .guessed) :
    G.Allows t (.counted G.route G.subject G.windowSeconds n) ∧
      G.phase (.counted G.route G.subject G.windowSeconds n :: t) =
        if G.limits.limit ≤ n then .owing else .out := by
  have hkind : G.kind t (.counted G.route G.subject G.windowSeconds n) = .count n :=
    if_pos ⟨rfl, rfl⟩
  unfold Guard.Allows
  rw [Guard.phase, hkind]
  refine ⟨⟨h, fun route subject window n heq => ?_⟩, rfl⟩
  cases heq
  rfl

theorem allows_put {value : G.lock.Value} (h : G.phase t = .owing ∨ G.phase t = .out) :
    G.Allows t (.put G.lock value G.lockSeconds) ∧
      G.phase (.put G.lock value G.lockSeconds :: t) = .out := by
  have hkind : G.kind t (.put G.lock value G.lockSeconds) = .lock := if_pos rfl
  unfold Guard.Allows
  rw [Guard.phase, hkind]
  refine ⟨⟨h, fun key value ttl heq => ?_⟩, rfl⟩
  cases heq
  rfl

theorem allows_removed (h : G.phase t = .checking) (hclears : G.clears = true) :
    G.Allows t (.removed G.counter) ∧ G.phase (.removed G.counter :: t) = .out := by
  have hkind : G.kind t (.removed G.counter) = .reset := if_pos rfl
  unfold Guard.Allows
  rw [Guard.phase, hkind]
  exact ⟨⟨h, hclears⟩, rfl⟩

/-- A call ends before its guess or after the guess has been settled. -/
theorem ends_returned (h : G.phase t = .out ∨ G.phase t = .checking)
    (result : Except AuthError Result) : (conduct G.Allows).Ends Event.returned t result := by
  have hsettled : G.phase t ≠ .guessed ∧ G.phase t ≠ .owing := by
    rcases h with h | h
    · simp [h]
    · simp [h]
  exact hsettled

theorem allows_other {e : Event} {phase : Phase} (hkind : G.kind t e = .other)
    (htouches : e.touches = none) (h : G.phase t = phase) :
    G.Allows t e ∧ G.phase (e :: t) = phase := by
  unfold Guard.Allows
  rw [Guard.phase, hkind, htouches]
  constructor
  · constructor
    · intro heq
      cases heq
    · intro heq
      cases heq
  · exact h

theorem out_of_mute {e : Event} (hmute : G.Mute e) {phase : Phase} (h : G.phase t = phase) :
    G.Allows t e ∧ G.phase (e :: t) = phase :=
  ⟨hmute.allows, hmute.phase.trans h⟩

end Allowed

end AuthCore
