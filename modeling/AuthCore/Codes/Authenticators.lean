/-
The codes of authenticators.  A factor remembers the last step that it has accepted; over a
run that step only grows, so that no code is accepted again.
-/
import AuthCore.Accounts.Factors
import AuthCore.Model.Sample

namespace AuthCore

open Interleave Relational

/-- The time step that an event accepts for the factor `g`. -/
def Event.acceptsStep (g : Uuid) : Event → Option Nat
  | mfa (.totpActivated _ id step _ true) => if id = g then some step else none
  | mfa (.totpAdvanced id _ step _ true) => if id = g then some step else none
  | _ => none

/-- The event accepts the first code of the factor `g`. -/
def Event.confirms (g : Uuid) : Event → Bool
  | mfa (.totpActivated _ id _ _ result) => result && id == g
  | _ => false

/-- The step that an active authenticator has accepted last. -/
def lastAccepted (row : MFADevice) : Option Nat :=
  if row.status = .active then row.lastTotpStep else none

/-- The steps that the factor `g` has accepted, the last one first. -/
def acceptedSteps (g : Uuid) (d : Db) (log : List (Nat × Event)) : List Nat :=
  log.filterMap (fun entry => entry.2.acceptsStep g) ++ ((d.mfaDevices.get g).bind lastAccepted).toList

/-- What has been presented to the factor `g` by a call, and the clock that it read. -/
inductive Shown (env : Env) (g : Uuid) (t : List Event) : String → String → Time → Prop
  | intro {u : Uuid} {row : MFADevice} {token : Token} {code secret : String} {now : Time} :
      .mfa (.factor u g (some row)) ∈ t → MFAControl.openSecret env u row = some (some secret) →
      .called (.confirmTotp token code) ∈ t ∨ .called (.verifyChallenge token code) ∈ t →
      .clock now ∈ t → Shown env g t secret code now

/-- A step that is accepted after the steps `before`: it is a new one, and the code of that
step was presented in time. -/
structure AcceptedAfter (env : Env) (g : Uuid) (t : List Event) (before : List Nat) (e : Event)
    (step : Nat) : Prop where
  later : ∀ last ∈ before, last < step
  first : e.confirms g = true → before = []
  shown : ∃ secret code now, Shown env g t secret code now ∧
    step ∈ candidateSteps now ∧ env.totpAt secret step = code

/-- The identifier of a sealed secret: it was there at first or has been drawn for it. -/
def Sealed (g : Uuid) (d : Db) (log : List (Nat × Event)) : Prop :=
  d.mfaDevices.get g ≠ none ∨ ∃ i owner secret label now found,
    (i, .mfa (.pendingTotpCreated owner secret label g now found)) ∈ log

section Steps

variable {env : Env} {g : Uuid} {d : Db} {log : List (Nat × Event)} {i : Nat} {e : Event}
  {step : Nat} {m : Core Db World}

theorem Sealed.cons (h : Sealed g d log) : Sealed g d ((i, e) :: log) := by
  rcases h with hfirst | ⟨j, owner, secret, label, now, found, hmem⟩
  · exact Or.inl hfirst
  · exact Or.inr ⟨j, owner, secret, label, now, found, List.mem_cons_of_mem _ hmem⟩

theorem Sealed.later (h : Sealed g d log) (after : List (Nat × Event)) (entry : Nat × Event) :
    Sealed g d (after ++ entry :: log) := by
  induction after with
  | nil => exact h.cons
  | cons head rest ih => exact ih.cons

theorem acceptedSteps_cons : acceptedSteps g d ((i, e) :: log) =
    (e.acceptsStep g).toList ++ acceptedSteps g d log := by
  unfold acceptedSteps
  rw [List.filterMap_cons]
  cases e.acceptsStep g with
  | none => rfl
  | some step => rfl

/-- What the factor was when it accepts a step, and what it is then. -/
theorem changed_of_accepts (h : e.Agrees m) (haccepts : e.acceptsStep g = some step) :
    ∃ row, m.db.mfaDevices.get g = some row ∧
      (e.confirms g = true ∧ row.status = .pending ∨
        e.confirms g = false ∧ ∃ now, e = .mfa (.totpAdvanced g row.lastTotpStep step now true)) ∧
      ∃ row', (e.change m.db).mfaDevices.get g = some row' ∧ row'.status ≠ .pending ∧
        row'.lastTotpStep = some step := by
  have hset : ∀ {condition : MFADevice → Bool} {f : MFADevice → MFADevice} {change : Db → Db},
      (MFARepository.changeFactor g condition f).alone m.db id = .ok (true, change) →
      e.change m.db = change m.db →
      ∃ row, m.db.mfaDevices.get g = some row ∧ condition row = true ∧
        (e.change m.db).mfaDevices.get g = some (f row) := by
    intro condition f change halone hchange
    rcases alone_changeFactor halone with heq | ⟨row, hrow, hcondition, heq⟩
    · cases heq
    · cases heq
      refine ⟨row, hrow, hcondition, ?_⟩
      rw [hchange]
      change ((DbChange.setFactor g f).apply m.db).mfaDevices.get g = _
      rw [get_setFactor, hrow, Option.map_some, if_pos rfl]
  unfold Event.acceptsStep at haccepts
  split at haccepts
  · rename_i owner id accepted now
    by_cases hid : id = g
    · subst hid
      rw [if_pos rfl, Option.some.injEq] at haccepts
      subst haccepts
      obtain ⟨change, halone, hchange⟩ := h.commits rfl
      obtain ⟨row, hrow, hcondition, hnew⟩ := hset halone hchange
      simp only [Bool.and_eq_true, beq_iff_eq] at hcondition
      refine ⟨row, hrow, Or.inl ⟨by simp [Event.confirms], hcondition.2⟩, _, hnew, ?_, rfl⟩
      simp
    · rw [if_neg hid] at haccepts
      cases haccepts
  · rename_i id previous accepted now
    by_cases hid : id = g
    · subst hid
      rw [if_pos rfl, Option.some.injEq] at haccepts
      subst haccepts
      obtain ⟨change, halone, hchange⟩ := h.commits rfl
      obtain ⟨row, hrow, hcondition, hnew⟩ := hset halone hchange
      simp only [Bool.and_eq_true, beq_iff_eq] at hcondition
      obtain ⟨hactive, rfl⟩ := hcondition
      refine ⟨row, hrow, Or.inr ⟨rfl, now, rfl⟩, _, hnew, ?_, rfl⟩
      simp [hactive]
    · rw [if_neg hid] at haccepts
      cases haccepts
  · cases haccepts

/-- Apart from the codes that are accepted, a factor keeps its last step. -/
theorem kept_of_other {f : Option MFADevice} {row' : MFADevice}
    (h : FactorStep g f e (some row')) (hnone : e.acceptsStep g = none) :
    f = none ∧ e.newFactor = some g ∨ ∃ row, f = some row ∧
      row'.lastTotpStep = row.lastTotpStep ∧ (row.status ≠ .pending → row'.status ≠ .pending) := by
  generalize hf' : some row' = f' at h
  cases h with
  | same => exact Or.inr ⟨row', hf'.symm, rfl, id⟩
  | pending hf => exact Or.inl ⟨hf, rfl⟩
  | codes hf => exact Or.inl ⟨hf, rfl⟩
  | passkey hf => exact Or.inl ⟨hf, rfl⟩
  | activated hf => simp [Event.acceptsStep] at hnone
  | advanced hf => simp [Event.acceptsStep] at hnone
  | dropped hf | removed hf | reset hf =>
      cases hf'
      exact Or.inr ⟨_, hf, rfl, fun _ => by simp [RecoveryRepository.revokedFactor]⟩
  | recoded hf =>
      cases hf'
      exact Or.inr ⟨_, hf, rfl, id⟩
  | used hf =>
      cases hf'
      refine Or.inr ⟨_, hf, ?_, ?_⟩
      all_goals unfold MFARepository.useCode
      · split
        · rfl
        · rfl
      · intro hpending
        split
        · simp only
          split
          · simp
          · exact hpending
        · exact hpending
  | erased hf => cases hf'

/-- A secret that is there after an event was there before it, or the event has put it there. -/
theorem sealed_of_step {f : Option MFADevice} {row' : MFADevice} {secret : String}
    (h : FactorStep g f e (some row')) (hsecret : row'.encryptedSecret = some (.sealed secret))
    (hbefore : ∀ row secret, f = some row → row.encryptedSecret = some (.sealed secret) →
      Sealed g d log) : Sealed g d ((i, e) :: log) := by
  generalize hf' : some row' = f' at h
  cases h with
  | same => exact (hbefore row' secret hf'.symm hsecret).cons
  | @pending owner secret label now found hf =>
      exact Or.inr ⟨i, owner, secret, label, now, found, List.mem_cons_self⟩
  | dropped hf | removed hf | reset hf | activated hf | advanced hf =>
      cases hf'
      exact (hbefore _ secret hf hsecret).cons
  | used hf _ hcode =>
      cases hf'
      refine (hbefore _ secret hf ?_).cons
      unfold MFARepository.useCode at hsecret
      split at hsecret
      · cases hsecret
      · exact hsecret
  | codes | recoded | passkey =>
      cases hf'
      cases hsecret
  | erased hf => cases hf'

end Steps

section Runs

variable {env : Env} {g : Uuid} {c m : Core Db World} {i : Nat} {e : Event}

/-- A sealed secret was there at first or has been created. -/
theorem sealed_of_row (h : History env c m) (hempty : c.store.log = []) :
    ∀ row secret, m.db.mfaDevices.get g = some row →
      row.encryptedSecret = some (.sealed secret) → Sealed g c.db m.store.log := by
  have hlog : m.store.log = [] ++ (m.store.log ++ []) := by simp
  have hall := h.along (P := fun log d => ∀ row secret, d.mfaDevices.get g = some row →
    row.encryptedSecret = some (.sealed secret) → Sealed g c.db log) hempty hlog ?_ ?_
  · rw [List.append_nil, ← h.db_eq hempty] at hall
    exact hall
  · intro row secret hrow _
    exact Or.inl (by rw [show replay c.db [] = c.db from rfl] at hrow; simp [hrow])
  · intro m i e _ before _ _ _ _ hagrees hbefore row secret hrow hsecret
    have hstep := factorStep_of_agrees (g := g) hagrees
    rw [hrow] at hstep
    exact sealed_of_step hstep hsecret hbefore

/-- No event puts a factor under the identifier of a sealed secret again. -/
theorem not_new_of_sealed (h : History env c m) (hempty : c.store.log = [])
    (hdrawn : ∀ j n, c.db.mfaDevices.get (.drawn j n) = none)
    (hsealed : Sealed g c.db m.store.log) (hfollows : e.Follows env i (trace i m.store.log)) :
    e.newFactor ≠ some g := by
  intro hnew
  have hplace : ∃ n, g = .drawn i n ∧ (n = 1 → ∀ e ∈ trace i m.store.log, e.newFactor = none) := by
    unfold Event.newFactor at hnew
    split at hnew
    · cases hnew
      exact ⟨1, hfollows.1, fun _ => hfollows.2⟩
    · cases hnew
      exact ⟨10, hfollows, fun hten => absurd hten (by decide)⟩
    · cases hnew
      exact ⟨0, hfollows.2, fun hzero => absurd hzero (by decide)⟩
    · cases hnew
  obtain ⟨n, rfl, honce⟩ := hplace
  rcases hsealed with hfirst | ⟨j, owner, secret, label, now, found, hmem⟩
  · exact hfirst (hdrawn i n)
  · obtain ⟨later, earlier, hsplit⟩ := List.append_of_mem hmem
    obtain ⟨_, _, _, hfirst, _⟩ := h.around hempty hsplit
    have hdraw : (Uuid.drawn i n) = .drawn j 1 := hfirst.1
    cases hdraw
    have hnone := honce rfl _ (mem_trace_iff.mpr hmem)
    cases hnone

/-- What a call has done before it accepts a step. -/
theorem shown_of_accepts {t : List Event} {step : Nat} (hfollows : e.Follows env i t)
    (haccepts : e.acceptsStep g = some step) :
    ∃ u row secret code now last, .mfa (.factor u g (some row)) ∈ t ∧
      MFAControl.openSecret env u row = some (some secret) ∧ Shown env g t secret code now ∧
      env.totpVerify secret code last now = some step ∧
      ∀ previous now', e = .mfa (.totpAdvanced g previous step now' true) → last = previous := by
  unfold Event.acceptsStep at haccepts
  split at haccepts
  · rename_i owner id accepted now
    split at haccepts
    · rename_i hid
      cases haccepts
      subst hid
      obtain @⟨token, code, secret, payload, _, row, _, _, _, _, _, hopen, hverify⟩ := hfollows
      exact ⟨payload.userId, row, secret, code, now, none, by simp, hopen,
        @Shown.intro _ _ _ _ _ token _ _ _ (by simp) hopen (Or.inl (by simp)) (by simp), hverify, by simp⟩
    · cases haccepts
  · rename_i id previous accepted now
    split at haccepts
    · rename_i hid
      cases haccepts
      subst hid
      obtain @⟨token, code, secret, payload, _, row, _, _, _, _, _, _, hopen, hverify⟩ := hfollows
      refine ⟨payload.userId, row, secret, code, now, row.lastTotpStep, by simp, hopen,
        @Shown.intro _ _ _ _ _ token _ _ _ (by simp) hopen (Or.inr (by simp)) (by simp), hverify, ?_⟩
      intro previous now' heq
      cases heq
      rfl
    · cases haccepts
  · cases haccepts

/-- An accepted code is the code of one of the candidates, after the last accepted step. -/
theorem candidate_of_verified {secret code : String} {last : Option Nat} {now : Time} {step : Nat}
    (h : env.totpVerify secret code last now = some step) :
    step ∈ candidateSteps now ∧ env.totpAt secret step = code ∧ ∀ l, last = some l → l < step := by
  unfold Env.totpVerify at h
  have hmatch := List.find?_some h
  simp only [Bool.and_eq_true, beq_iff_eq] at hmatch
  refine ⟨List.mem_of_find?_eq_some h, hmatch.2, ?_⟩
  intro l hl
  subst hl
  simpa using hmatch.1

/-- The accepted steps of a factor and what it remembers of them. -/
structure Grows (g : Uuid) (d : Db) (log : List (Nat × Event)) (d' : Db) : Prop where
  decreasing : (acceptedSteps g d log).Pairwise (· > ·)
  latest : ∀ row, d'.mfaDevices.get g = some row → ∀ last ∈ (acceptedSteps g d log).head?,
    row.status ≠ .pending ∧ row.lastTotpStep = some last
  sealed : acceptedSteps g d log ≠ [] → Sealed g d log

theorem Grows.start (g : Uuid) (d : Db) : Grows g d [] d where
  decreasing := by
    unfold acceptedSteps
    cases (d.mfaDevices.get g).bind lastAccepted with
    | none => simp
    | some step => simp
  latest := by
    intro row hrow last hlast
    unfold acceptedSteps lastAccepted at hlast
    rw [hrow] at hlast
    by_cases hactive : row.status = .active
    · cases hstep : row.lastTotpStep with
      | none => simp [hactive, hstep] at hlast
      | some step => simpa [hactive, hstep] using hlast
    · simp [hactive] at hlast
  sealed := by
    intro hsome
    refine Or.inl fun hnone => hsome ?_
    simp [acceptedSteps, hnone]

/-- A step that is accepted is later than those before it. -/
theorem later_of_accepts {step : Nat} (hbefore : Grows g c.db m.store.log m.db) (hfollows : e.Follows env i (trace i m.store.log))
    (hagrees : e.Agrees m) (haccepts : e.acceptsStep g = some step) :
    AcceptedAfter env g (trace i m.store.log) (acceptedSteps g c.db m.store.log) e step := by
  obtain ⟨row, hrow, hkind, _⟩ := changed_of_accepts hagrees haccepts
  obtain ⟨u, read, secret, code, now, last, _, _, hshown, hverify, hprevious⟩ :=
    shown_of_accepts hfollows haccepts
  obtain ⟨hcandidate, hcode, hlater⟩ := candidate_of_verified hverify
  have hpending : row.status = .pending → acceptedSteps g c.db m.store.log = [] := by
    intro hpending
    cases hsteps : acceptedSteps g c.db m.store.log with
    | nil => rfl
    | cons last rest =>
        have hlatest := hbefore.latest row hrow last (by rw [hsteps]; rfl)
        exact absurd hpending hlatest.1
  refine ⟨?_, ?_, secret, code, now, hshown, hcandidate, hcode⟩
  · rcases hkind with ⟨_, hstatus⟩ | ⟨_, now', heq⟩
    · rw [hpending hstatus]
      simp
    · have hlast := hprevious _ now' heq
      cases hsteps : acceptedSteps g c.db m.store.log with
      | nil => simp
      | cons head rest =>
          have hlatest := hbefore.latest row hrow head (by rw [hsteps]; rfl)
          have hhead : head < step := hlater head (hlast.trans hlatest.2)
          have hrest := hbefore.decreasing
          rw [hsteps, List.pairwise_cons] at hrest
          intro old hold
          rcases List.mem_cons.mp hold with rfl | hold
          · exact hhead
          · exact Nat.lt_trans (hrest.1 old hold) hhead
  · intro hconfirms
    rcases hkind with ⟨_, hstatus⟩ | ⟨hnot, _⟩
    · exact hpending hstatus
    · rw [hnot] at hconfirms
      cases hconfirms

/-- The secret that the code of an accepted step was compared with. -/
theorem sealed_of_accepts (h : History env c m) (hempty : c.store.log = []) {step : Nat}
    (hfollows : e.Follows env i (trace i m.store.log)) (haccepts : e.acceptsStep g = some step) :
    Sealed g c.db m.store.log := by
  obtain ⟨u, row, secret, _, _, _, hread, hopen, _⟩ := shown_of_accepts hfollows haccepts
  obtain ⟨later, earlier, hsplit⟩ := List.append_of_mem (mem_trace_iff.mp hread)
  obtain ⟨m₀, hm₀, rfl, _, hagrees, _⟩ := h.around hempty hsplit
  have hfound : some row = MFARepository.factorOf u g m₀.db := hagrees.tells
  obtain ⟨hrow, _⟩ := Option.filter_eq_some_iff.mp hfound.symm
  have hsealed : ∃ bytes, row.encryptedSecret = some (.sealed bytes) := by
    unfold MFAControl.openSecret at hopen
    split at hopen
    · rename_i bytes hbytes
      exact ⟨bytes, hbytes⟩
    · cases hopen
    · cases hopen
  obtain ⟨bytes, hbytes⟩ := hsealed
  have hbefore := sealed_of_row hm₀ hempty row bytes hrow hbytes
  rw [hsplit]
  exact hbefore.later _ _

theorem Grows.event (h : History env c m) (hempty : c.store.log = [])
    (hdrawn : ∀ j n, c.db.mfaDevices.get (.drawn j n) = none)
    (hbefore : Grows g c.db m.store.log m.db) (hfollows : e.Follows env i (trace i m.store.log))
    (hagrees : e.Agrees m) : Grows g c.db ((i, e) :: m.store.log) (e.change m.db) := by
  cases haccepts : e.acceptsStep g with
  | none =>
      have hsteps : acceptedSteps g c.db ((i, e) :: m.store.log) =
          acceptedSteps g c.db m.store.log := by
        rw [acceptedSteps_cons, haccepts]
        rfl
      refine ⟨by rw [hsteps]; exact hbefore.decreasing, ?_, ?_⟩
      · intro row hrow last hlast
        rw [hsteps] at hlast
        have hstep := factorStep_of_agrees (g := g) hagrees
        rw [hrow] at hstep
        rcases kept_of_other hstep haccepts with ⟨_, hnew⟩ | ⟨old, hold, hkept, hstays⟩
        · have hsealed : Sealed g c.db m.store.log := by
            refine hbefore.sealed fun hnil => ?_
            rw [hnil] at hlast
            cases hlast
          exact absurd hnew (not_new_of_sealed h hempty hdrawn hsealed hfollows)
        · obtain ⟨hstatus, hlatest⟩ := hbefore.latest old hold last hlast
          exact ⟨hstays hstatus, hkept.trans hlatest⟩
      · rw [hsteps]
        exact fun hsome => (hbefore.sealed hsome).cons
  | some step =>
      have hsteps : acceptedSteps g c.db ((i, e) :: m.store.log) =
          step :: acceptedSteps g c.db m.store.log := by
        rw [acceptedSteps_cons, haccepts]
        rfl
      have hlater := later_of_accepts hbefore hfollows hagrees haccepts
      refine ⟨?_, ?_, fun _ => (sealed_of_accepts h hempty hfollows haccepts).cons⟩
      · rw [hsteps, List.pairwise_cons]
        exact ⟨hlater.later, hbefore.decreasing⟩
      · intro row hrow last hlast
        rw [hsteps] at hlast
        obtain rfl := Option.some.inj hlast
        obtain ⟨_, _, _, row', hrow', hstatus, hlatest⟩ := changed_of_accepts hagrees haccepts
        rw [hrow] at hrow'
        cases hrow'
        exact ⟨hstatus, hlatest⟩

theorem grows (h : History env c m) (hempty : c.store.log = [])
    (hdrawn : ∀ j n, c.db.mfaDevices.get (.drawn j n) = none) :
    Grows g c.db m.store.log m.db := by
  have hlog : m.store.log = [] ++ (m.store.log ++ []) := by simp
  have hall : Grows g c.db m.store.log (replay c.db (m.store.log ++ [])) := by
    refine h.along (P := Grows g c.db) hempty hlog (.start g c.db) ?_
    intro m' i e _ before _ hm hbefore hfollows hagrees hP
    rw [List.append_nil] at hbefore
    subst hbefore
    exact hP.event hm hempty hdrawn hfollows hagrees
  rwa [List.append_nil, ← h.db_eq hempty] at hall

/-- The steps that an authenticator accepts grow, whatever calls run at once. -/
theorem accepted_steps_grow (hempty : c.store.log = [])
    (hdrawn : ∀ j n, c.db.mfaDevices.get (.drawn j n) = none)
    {s : Config schema World AuthError Result} (h : (application env).Reachable c s) :
    (acceptedSteps g c.db s.core.store.log).Pairwise (· > ·) ∧
      ∀ later i e earlier step, s.core.store.log = later ++ (i, e) :: earlier →
        e.acceptsStep g = some step →
        AcceptedAfter env g (trace i earlier) (acceptedSteps g c.db earlier) e step := by
  have hhistory := history_of_reachable hempty h
  refine ⟨(grows hhistory hempty hdrawn).decreasing, ?_⟩
  intro later i e earlier step hlog haccepts
  obtain ⟨m, hm, rfl, hfollows, hagrees, _⟩ := hhistory.around hempty hlog
  exact later_of_accepts (grows hm hempty hdrawn) hfollows hagrees haccepts

end Runs

/-- Ann enrols an authenticator and logs in with the code of its next step. -/
def authenticatorMoves : List SampleMove :=
  perform 0 (.loginPassword "ann" "pw" "phone" none) 16 ++
    perform 1 (.setupTotp (.drawn 0 0) "totp") 12 ++
    perform 2 (.confirmTotp (.drawn 1 2) "code") 19 ++
    perform 3 (.loginPassword "ann" "pw" "phone" none) 16 ++
    perform 4 (.issueChallenge (.drawn 3 0) .totp) 7 ++
    perform 5 (.verifyChallenge (.drawn 4 0) "later") 14

theorem accepted_steps_grow_twice :
    ∃ s, (application sampleEnv).Reachable sampleCore s ∧
      acceptedSteps (.drawn 1 1) sampleCore.db s.core.store.log = [1, 0] ∧
      [1, 0].Pairwise (· > ·) ∧
      ∀ later i e earlier step, s.core.store.log = later ++ (i, e) :: earlier →
        e.acceptsStep (.drawn 1 1) = some step →
        AcceptedAfter sampleEnv (.drawn 1 1) (trace i earlier)
          (acceptedSteps (.drawn 1 1) sampleCore.db earlier) e step := by
  obtain ⟨s, hreach, hrun⟩ := Service.reachable_of_run
    (show ((application sampleEnv).run (Service.start sampleCore) authenticatorMoves).map (fun s =>
        acceptedSteps (.drawn 1 1) sampleCore.db s.core.store.log) = some [1, 0] by
      decide +kernel)
  have hgrow := accepted_steps_grow (g := .drawn 1 1) rfl (fun _ _ => rfl) hreach
  rw [hrun] at hgrow
  exact ⟨s, hreach, hrun, hgrow⟩

end AuthCore
