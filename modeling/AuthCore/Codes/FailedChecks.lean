/-
Checks that fail.  A code is used up, or a new authenticator activated, before the challenge is
taken and the identity linked; a call that fails there has changed the credentials of the user.
-/
import AuthCore.Codes.BoundFactor
import AuthCore.Interleave.Amid

namespace AuthCore

open Interleave Relational MFAControl

def AuthError.IsMfa : AuthError → Prop
  | .mfa .. => True
  | _ => False

/-- What an MFA check may not change about a factor: its status and its secret or codes. -/
def MFADevice.standing (row : MFADevice) : FactorStatus × Option FactorSecret :=
  (row.status, row.encryptedSecret)

/-- The identities, the factors and the recovery codes are the same. -/
structure SameCredentials (d d' : Db) : Prop where
  identities : d'.identities = d.identities
  factors : ∀ g, (d'.mfaDevices.get g).map MFADevice.standing =
    (d.mfaDevices.get g).map MFADevice.standing

/-- What others do meanwhile: the challenge is consumed before the steps that `gone` names. -/
def consumedAt (token : Token) (gone : Nat → Bool) (n : Nat) (w : World) : World :=
  if gone n then { w with cache := w.cache.remove (.mfaChallenge token) } else w

/-- The identity that a workflow asks to link can be linked. -/
def Linkable (workflow : Workflow) (d : Db) : Prop :=
  workflow.decision = .collisionProofRequired → ∃ provider subject,
    workflow.oidc = some (provider, subject) ∧ (IndexKey.identity provider subject).entries d = []

theorem SameCredentials.refl (d : Db) : SameCredentials d d :=
  ⟨rfl, fun _ => rfl⟩

section Yields

variable {env : Env} {me : Nat} {α β : Type} {d : Db} {u g : Uuid} {code : String}

abbrev Yields (Q : Except AuthError α → Db → Prop) (p : Proc α) (d : Db) : Prop :=
  Prog.Yields Q p d

/-- A failed check leaves the credentials of `d₀`. -/
def Spared (d₀ : Db) (result : Except AuthError α) (d : Db) : Prop :=
  ∀ error, result = .error error → error.IsMfa → SameCredentials d₀ d

variable {Q : Except AuthError α → Db → Prop}

theorem yields_step {f : Db → World → β × World} {event : β → Event} {k : β → Proc α}
    (h : ∀ b, Yields Q (k b) d) : Yields Q (step f event >>= k) d :=
  h

theorem yields_look {query : Db → β} {event : β → Event} {k : β → Proc α}
    (h : ∀ b, Yields Q (k b) d) : Yields Q (look query event >>= k) d :=
  h

theorem yields_transact {event : β → Event} {body : Trans β} {k : β → Proc α}
    (hok : ∀ b change, body.alone d id = .ok (b, change) → Yields Q (k b) (change d))
    (herror : Q (.error .unhandled) d) : Yields Q (transact event body >>= k) d :=
  ⟨hok, fun _ _ => herror⟩

theorem yields_fail {error : AuthError} (h : Q (.error error) d) : Yields Q (fail error) d :=
  h

theorem spared_unhandled {d₀ : Db} : Spared d₀ (.error .unhandled : Except AuthError α) d := by
  intro error herror hmfa
  cases herror
  exact hmfa.elim

theorem spared_ok {d₀ : Db} {a : α} : Spared d₀ (.ok a) d :=
  fun _ herror => nomatch herror

theorem Spared.of_same {d₀ : Db} (h : SameCredentials d₀ d) {result : Except AuthError α} :
    Spared d₀ result d :=
  fun _ _ _ => h

theorem sameCredentials_setFactor {f : MFADevice → MFADevice}
    (h : ∀ row, (f row).standing = row.standing) :
    SameCredentials d ((DbChange.setFactor g f).apply d) := by
  refine ⟨rfl, fun k => ?_⟩
  rw [get_setFactor]
  cases d.mfaDevices.get k with
  | none => rfl
  | some row =>
      by_cases hk : k = g
      · simp [hk, h]
      · simp [hk]

/-- An accepted code of an authenticator advances its step and nothing else. -/
theorem yields_advanceTotpStep {last : Option Nat} {step : Nat} {now : Time} {k : Bool → Proc α}
    (h : ∀ b d', SameCredentials d d' → Yields Q (k b) d') (hfailed : Q (.error .unhandled) d) :
    Yields Q (MFARepository.advanceTotpStep g last step now >>= k) d := by
  refine yields_transact (fun b change halone => ?_) hfailed
  rcases alone_changeFactor halone with heq | ⟨row, _, _, heq⟩
  · cases heq
    exact h _ _ (.refl d)
  · cases heq
    exact h _ _ (sameCredentials_setFactor fun _ => rfl)

theorem yields_verifyTotp {k : Bool → Proc α}
    (h : ∀ b d', SameCredentials d d' → Yields Q (k b) d')
    (hfailed : ∀ error, Q (.error error) d) :
    Yields Q (verifyTotp env u g code >>= k) d := by
  unfold verifyTotp Redis.factorIsLocked
  rw [Prog.bind_assoc, Prog.bind_assoc]
  refine yields_step fun locked => ?_
  change Yields Q ((if locked.isSome = true then fail factorLocked else _) >>= k) d
  split
  · exact hfailed _
  · rw [MFARepository.factor, Prog.bind_assoc]
    refine yields_look fun found => ?_
    cases found with
    | none => exact h false d (.refl d)
    | some row =>
        dsimp only
        split
        · exact h false d (.refl d)
        · rcases openSecret env u row with _ | _ | secret
          · exact h false d (.refl d)
          · exact hfailed _
          · dsimp only
            rw [clock, Prog.bind_assoc]
            refine yields_step fun now => ?_
            cases env.totpVerify secret code row.lastTotpStep now with
            | none => exact h false d (.refl d)
            | some step => exact yields_advanceTotpStep h (hfailed _)

theorem yields_recordFailure {challenge : Token} {payload : Challenge} {k : Unit → Proc α}
    (h : Yields Q (k ()) d) : Yields Q (recordFailure challenge payload >>= k) d := by
  unfold recordFailure
  split
  · unfold recordFactorFailure
    rw [Prog.bind_assoc]
    refine yields_step fun count => ?_
    split
    · exact fun _ => h
    · exact h
  · rw [Prog.bind_assoc]
    refine yields_step fun count => ?_
    split
    · exact fun _ => h
    · exact h

theorem alone_link_free {user id : Uuid} {provider : IdentityProvider} {subject : String}
    (h : (IndexKey.identity provider subject).entries d = []) :
    ∃ change, (MFARepository.link user provider subject id).alone d (fun d => d) =
      .ok ((), change) := by
  unfold MFARepository.link
  rw [Tx.alone_bind_ok (alone_reserve_of_free h [] _)]
  exact ⟨_, rfl⟩

theorem alone_link_taken {user id : Uuid} {provider : IdentityProvider} {subject : String}
    (h : (IndexKey.identity provider subject).entries d ≠ []) :
    (MFARepository.link user provider subject id).alone d (fun d => d) = .error .integrity := by
  rcases (@faults_link user id provider subject).alone d fun d => d with
    ⟨_, change, hok⟩ | ⟨fault, herror, rfl⟩
  · obtain ⟨_, _, hreserved, _⟩ := Tx.alone_bind_eq_ok hok
    exact absurd (entries_of_reserve hreserved).1 h
  · exact herror

/-- How a completed check ends: only a link that is not possible fails, and changes nothing. -/
def Completes (workflow : Workflow) (d : Db) (result : Except AuthError α) (d' : Db) : Prop :=
  (Linkable workflow d ∧ ∃ a, result = .ok a) ∨
    (¬Linkable workflow d ∧ result = .error workflowInvalid ∧ d' = d)

theorem yields_audit {eventType outcome : String} {user : Option Uuid} {k : Unit → Proc α}
    (h : ∀ d', Yields Q (k ()) d') :
    Yields Q (LoginRepository.audit eventType outcome user >>= k) d := by
  refine ⟨fun b change _ => h _, fun fault halone => ?_⟩
  cases halone

theorem yields_complete {user : Uuid} {workflow : Workflow} {method : String} :
    Yields (Completes workflow d) (complete me user workflow method) d := by
  unfold complete
  by_cases hcollision : workflow.decision = .collisionProofRequired
  · rw [if_pos hcollision]
    cases hoidc : workflow.oidc with
    | none =>
        refine Or.inr ⟨fun hlinkable => ?_, rfl, rfl⟩
        obtain ⟨_, _, hsome, _⟩ := hlinkable hcollision
        rw [hoidc] at hsome
        cases hsome
    | some found =>
        obtain ⟨provider, subject⟩ := found
        by_cases hfree : (IndexKey.identity provider subject).entries d = []
        · have hlinkable : Linkable workflow d := fun _ => ⟨provider, subject, hoidc, hfree⟩
          obtain ⟨change, halone⟩ := @alone_link_free d user (.drawn me 8) _ _ hfree
          refine ⟨fun b change' _ => ?_, fun fault herror => ?_⟩
          · exact yields_audit fun d' => Or.inl ⟨hlinkable, _, rfl⟩
          · rw [show (MFARepository.link _ _ _ _).alone d id = _ from halone] at herror
            cases herror
        · have htaken := @alone_link_taken d user (.drawn me 8) _ _ hfree
          refine ⟨fun b change' hok => ?_, fun fault herror => ?_⟩
          · rw [show (MFARepository.link _ _ _ _).alone d id = _ from htaken] at hok
            cases hok
          · rw [show (MFARepository.link _ _ _ _).alone d id = _ from htaken] at herror
            cases herror
            refine Or.inr ⟨fun hlinkable => ?_, rfl, rfl⟩
            obtain ⟨_, _, hsome, hempty⟩ := hlinkable hcollision
            rw [hoidc] at hsome
            cases hsome
            exact hfree hempty
  · rw [if_neg hcollision]
    refine fun _ => yields_audit fun d' => Or.inl ⟨fun h => absurd h hcollision, _, rfl⟩

/-- A completed check spares what it began with. -/
theorem Completes.spared {workflow : Workflow} {d₀ d' : Db} {result : Except AuthError α}
    (h : Completes workflow d result d') (hsame : SameCredentials d₀ d) :
    Spared d₀ result d' := by
  rcases h with ⟨_, a, rfl⟩ | ⟨_, _, rfl⟩
  · exact spared_ok
  · exact .of_same hsame

variable {challenge : Token} {payload : Challenge} {d₀ : Db}

/-- The part of `verify_challenge` after the challenge is consumed. -/
def finishVerify (me : Nat) (payload consumed : Challenge) : Proc Result := do
  return .completion (← complete me payload.userId consumed.workflow payload.method.value)

/-- The part of `verify_challenge` after the code is checked. -/
def concludeVerify (me : Nat) (challenge : Token) (payload : Challenge) (valid : Bool) :
    Proc Result :=
  if ¬valid then do
    recordFailure challenge payload
    fail codeInvalid
  else do
    let some consumed ← Redis.consumeMfaChallenge challenge | fail challengeInvalid
    finishVerify me payload consumed

theorem concludeVerify_accepted : concludeVerify me challenge payload true =
    (Redis.consumeMfaChallenge challenge >>= fun found => match found with
      | none => fail challengeInvalid
      | some consumed => finishVerify me payload consumed) := by
  refine congrArg (Bind.bind _) (funext fun found => ?_)
  cases found with
  | none => rfl
  | some consumed => rfl

theorem yields_finishVerify {consumed : Challenge} :
    Yields (Completes consumed.workflow d) (finishVerify me payload consumed) d := by
  refine Prog.yields_bind (yields_complete.imp ?_)
  rintro result d' (⟨hlinkable, a, rfl⟩ | ⟨hblocked, rfl, rfl⟩)
  · exact Or.inl ⟨hlinkable, _, rfl⟩
  · exact Or.inr ⟨hblocked, rfl, rfl⟩

theorem spared_concludeVerify {valid : Bool} (hsame : SameCredentials d₀ d) :
    Yields (Spared d₀) (concludeVerify me challenge payload valid) d := by
  unfold concludeVerify
  cases valid with
  | false => exact yields_recordFailure (yields_fail (.of_same hsame))
  | true =>
      refine yields_step fun consumed => ?_
      cases consumed with
      | none => exact Spared.of_same hsame
      | some consumed => exact yields_finishVerify.imp fun _ _ h => h.spared hsame

/-- Only a recovery code is used up. -/
theorem spared_verify (hmethod : payload.method ≠ .backupCode) :
    Yields (Spared d) (checkCode env challenge payload code >>=
      concludeVerify me challenge payload) d := by
  unfold checkCode
  cases hcase : payload.method with
  | totp =>
      cases payload.factorId with
      | none => exact spared_unhandled
      | some factor =>
          refine yields_verifyTotp (fun _ _ hsame => spared_concludeVerify hsame) fun error => ?_
          exact Spared.of_same (.refl d)
  | emailOtp => exact yields_step fun _ => spared_concludeVerify (.refl d)
  | smsOtp => exact yields_step fun _ => spared_concludeVerify (.refl d)
  | backupCode => exact absurd hcase hmethod
  | passkey =>
      change Yields (Spared d) (concludeVerify me challenge payload false) d
      exact spared_concludeVerify (.refl d)

/-- What the creation of recovery codes leaves alone. -/
structure Beside (g : Uuid) (d d' : Db) : Prop where
  identities : d'.identities = d.identities
  status : ∀ row, d.mfaDevices.get g = some row →
    ∃ row', d'.mfaDevices.get g = some row' ∧ row'.status = row.status

theorem beside_addFactor {k : Uuid} {new : MFADevice} :
    Beside g d ((DbChange.addFactor k new).apply d) := by
  refine ⟨rfl, fun row hrow => ⟨row, ?_, rfl⟩⟩
  rw [get_addFactor, hrow]
  rfl

theorem Beside.trans {d' d'' : Db} (h : Beside g d d') (h' : Beside g d' d'') :
    Beside g d d'' := by
  refine ⟨h'.identities.trans h.identities, fun row hrow => ?_⟩
  obtain ⟨row', hrow', hstatus⟩ := h.status row hrow
  obtain ⟨row'', hrow'', hstatus'⟩ := h'.status row' hrow'
  exact ⟨row'', hrow'', hstatus'.trans hstatus⟩

theorem beside_putBackupCodes {user id : Uuid} {hashes : List Digest} {now : Time}
    {found : Option Uuid} {result : Unit × (Db → Db)}
    (h : (MFARepository.putBackupCodes user hashes id now found).alone d (fun d => d) =
      .ok result) : Beside g d (result.2 d) := by
  cases found with
  | none =>
      cases h
      exact beside_addFactor
  | some k =>
      unfold MFARepository.putBackupCodes at h
      obtain ⟨changed, pending, hchanged, hrest⟩ := Tx.alone_bind_eq_ok h
      rcases alone_changeFactor hchanged with heq | ⟨row, _, _, heq⟩
      · cases heq
        cases hrest
        exact beside_addFactor
      · cases heq
        cases hrest
        refine ⟨rfl, fun row hrow => ?_⟩
        change ∃ row', ((DbChange.setFactor k _).apply d).mfaDevices.get g = some row' ∧ _
        rw [get_setFactor, hrow]
        by_cases hk : g = k
        · refine ⟨{ row with
            encryptedSecret := some (.codes hashes), lastUsedAt := none }, ?_, rfl⟩
          simp [hk]
        · exact ⟨row, by simp [hk], rfl⟩

theorem faults_changeFactor {id : Uuid} {condition : MFADevice → Bool}
    {f : MFADevice → MFADevice} :
    (MFARepository.changeFactor id condition f).Faults fun _ => False := by
  refine (faults_lockRow _ _).bind fun factor => ?_
  split
  · trivial
  · split
    · exact (faults_write _ _).bind fun _ => trivial
    · trivial

theorem faults_putBackupCodes {user id : Uuid} {hashes : List Digest} {now : Time}
    {found : Option Uuid} :
    (MFARepository.putBackupCodes user hashes id now found).Faults fun _ => False := by
  cases found with
  | none => exact faults_write _ _
  | some g =>
      refine faults_changeFactor.bind fun changed => ?_
      split
      · trivial
      · exact faults_write _ _

theorem faults_storeCodes {user id : Uuid} {hashes : List Digest} {now : Time} :
    (do
      let found ← ask (MFARepository.backupFactor user) fun found => .mfa (.backupFactor user found)
      MFARepository.putBackupCodes user hashes id now found
      return found : Trans (Option Uuid)).Faults fun _ => False :=
  fun _ => faults_putBackupCodes.bind fun _ => trivial

theorem yields_ensureBackupCodes {user : Uuid} :
    Yields (fun result d' => (∃ codes, result = .ok codes) ∧ Beside g d d')
      (ensureBackupCodes env me user) d := by
  have hsame : Beside g d d := ⟨rfl, fun row hrow => ⟨row, hrow, rfl⟩⟩
  unfold ensureBackupCodes MFARepository.activeFactors
  refine yields_look fun factors => ?_
  split
  · exact ⟨⟨_, rfl⟩, hsame⟩
  · refine yields_step fun now => ?_
    refine ⟨fun found change halone => ?_, fun fault herror => ?_⟩
    · obtain ⟨found', pending, hasked, hrest⟩ := Tx.alone_bind_eq_ok halone
      cases hasked
      obtain ⟨_, pending', hput, hdone⟩ := Tx.alone_bind_eq_ok hrest
      cases hdone
      exact ⟨⟨_, rfl⟩, beside_putBackupCodes hput⟩
    · rcases faults_storeCodes.alone d (fun d => d) with ⟨_, _, hok⟩ | ⟨_, _, hfalse⟩
      · rw [show Tx.alone d id _ = _ from hok] at herror
        cases herror
      · exact hfalse.elim

theorem linkable_congr {workflow : Workflow} {d' : Db} (h : d'.identities = d.identities) :
    Linkable workflow d' ↔ Linkable workflow d := by
  unfold Linkable IndexKey.entries
  rw [h]

/-- The part of `confirm_totp` after the challenge is consumed. -/
def finishConfirm (env : Env) (me : Nat) (user : Uuid) (consumed : Challenge) : Proc Result := do
  let backupCodes ← ensureBackupCodes env me user
  let completion ← complete me user consumed.workflow "totp_enrollment"
  return .completion { completion with backupCodes := backupCodes }

theorem yields_finishConfirm {user : Uuid} {consumed : Challenge} :
    Yields (fun result d' => (Linkable consumed.workflow d ∧ ∃ a, result = .ok a) ∨
        (¬Linkable consumed.workflow d ∧ result = .error workflowInvalid ∧ Beside g d d'))
      (finishConfirm env me user consumed) d := by
  have hcodes := @yields_ensureBackupCodes env me d g user
  refine Prog.yields_bind (hcodes.imp ?_)
  rintro result d' ⟨⟨codes, rfl⟩, hbeside⟩
  refine Prog.yields_bind (yields_complete.imp ?_)
  rintro result d'' (⟨hlinkable, a, rfl⟩ | ⟨hblocked, rfl, rfl⟩)
  · exact Or.inl ⟨(linkable_congr hbeside.identities).mp hlinkable, _, rfl⟩
  · exact Or.inr ⟨fun h => hblocked ((linkable_congr hbeside.identities).mpr h), rfl, hbeside⟩

theorem spared_wrong :
    Yields (Spared d) (recordFactorFailure g >>= fun _ => (fail codeInvalid : Proc Result)) d := by
  unfold recordFactorFailure
  rw [Prog.bind_assoc]
  refine yields_step fun count => ?_
  split
  · exact fun _ => Spared.of_same (.refl d)
  · exact Spared.of_same (.refl d)

end Yields

section Amid

/-- The challenge that is stored under a token. -/
def held (token : Token) (w : World) : Option Challenge :=
  w.cache.get w.now (.mfaChallenge token)

/-- The challenge is not consumed before any of the first `n` steps. -/
def untouched (gone : Nat → Bool) : Nat → Bool
  | 0 => true
  | n + 1 => untouched gone n && !gone n

variable {env : Env} {me i n : Nat} {α β : Type} {providers : Providers} {token : Token}
  {gone : Nat → Bool} {x : Option Challenge} {now : Time} {c : Core Db World}

theorem untouched_iff : untouched gone n = true ↔ ∀ m < n, gone m = false := by
  induction n with
  | zero => simp [untouched]
  | succ n ih =>
      rw [untouched, Bool.and_eq_true, ih, Bool.not_eq_true']
      constructor
      · rintro ⟨hbefore, hlast⟩ m hm
        rcases Nat.lt_succ_iff_lt_or_eq.mp hm with hless | rfl
        · exact hbefore m hless
        · exact hlast
      · intro h
        exact ⟨fun m hm => h m (Nat.lt_succ_of_lt hm), h n (Nat.lt_succ_self n)⟩

/-- What is left of the challenge before step `n`, and the time of the call. -/
structure Along (token : Token) (gone : Nat → Bool) (x : Option Challenge) (now : Time) (n : Nat)
    (w : World) : Prop where
  remains : held token w = if untouched gone n then x else none
  now : w.now = now

theorem Along.start (w : World) : Along token gone (held token w) w.now 0 w :=
  ⟨rfl, rfl⟩

theorem Along.consumed {w : World} (h : Along token gone x now n w) :
    Along token gone x now (n + 1) (consumedAt token gone n w) := by
  unfold consumedAt
  cases hgone : gone n with
  | true =>
      refine ⟨?_, h.now⟩
      rw [if_pos rfl, untouched, hgone, Bool.not_true, Bool.and_false, if_neg Bool.false_ne_true]
      simp only [held, Cache.get, Cache.remove, Function.update_self]
      rfl
  | false =>
      refine ⟨?_, h.now⟩
      rw [if_neg Bool.false_ne_true, untouched, hgone, Bool.not_false, Bool.and_true]
      exact h.remains

abbrev disturbed (providers : Providers) (token : Token) (gone : Nat → Bool) (i n : Nat)
    (p : Proc α) (c : Core Db World) : Option (Except AuthError α × Core Db World × Nat) :=
  p.amid i providers.allow (consumedAt token gone) n c

theorem disturbed_step {f : Db → World → β × World} {event : β → Event} {k : β → Proc α}
    (hpass : ∀ (b : β) (w : World), providers.allow (w.record i (event b)) = true) :
    disturbed providers token gone i n (step f event >>= k) c =
      disturbed providers token gone i (n + 1) (k (f c.db (consumedAt token gone n c.store)).1)
        ⟨c.db, (f c.db (consumedAt token gone n c.store)).2.record i
          (event (f c.db (consumedAt token gone n c.store)).1)⟩ := by
  have hfind : List.find? (fun answer : β × World => providers.allow answer.2)
      [((f c.db (consumedAt token gone n c.store)).1,
        (f c.db (consumedAt token gone n c.store)).2.record i
          (event (f c.db (consumedAt token gone n c.store)).1))] = some _ :=
    List.find?_cons_of_pos (hpass _ _)
  change Option.bind (List.find? _ [_]) _ = _
  rw [hfind]
  rfl

/-- A command that leaves the store as it is. -/
theorem disturbed_read {q : Db → World → β} {event : β → Event} {k : β → Proc α}
    (hpass : ∀ (b : β) (w : World), providers.allow (w.record i (event b)) = true)
    (h : Along token gone x now n c.store) : ∃ w,
    disturbed providers token gone i n (step (fun d w => (q d w, w)) event >>= k) c =
      disturbed providers token gone i (n + 1)
        (k (q c.db (consumedAt token gone n c.store))) ⟨c.db, w⟩ ∧
    Along token gone x now (n + 1) w :=
  ⟨_, disturbed_step hpass, ⟨h.consumed.remains, h.consumed.now⟩⟩

theorem disturbed_look {query : Db → β} {event : β → Event} {k : β → Proc α}
    (hpass : ∀ (b : β) (w : World), providers.allow (w.record i (event b)) = true)
    (h : Along token gone x now n c.store) : ∃ w,
    disturbed providers token gone i n (look query event >>= k) c =
      disturbed providers token gone i (n + 1) (k (query c.db)) ⟨c.db, w⟩ ∧
    Along token gone x now (n + 1) w :=
  disturbed_read hpass h

theorem disturbed_clock {k : Time → Proc α} (h : Along token gone x now n c.store) : ∃ w,
    disturbed providers token gone i n (clock >>= k) c =
      disturbed providers token gone i (n + 1) (k now) ⟨c.db, w⟩ ∧
    Along token gone x now (n + 1) w := by
  obtain ⟨w, hrun, hafter⟩ := @disturbed_read i n α Time providers token gone x now c
    (fun _ w => w.now) .clock k (fun _ _ => rfl) h
  refine ⟨w, hrun.trans ?_, hafter⟩
  rw [h.consumed.now]

theorem disturbed_get {k : Option Challenge → Proc α} (h : Along token gone x now n c.store) :
    ∃ w, disturbed providers token gone i n (Redis.getMfaChallenge token >>= k) c =
      disturbed providers token gone i (n + 1)
        (k (if untouched gone (n + 1) then x else none)) ⟨c.db, w⟩ ∧
    Along token gone x now (n + 1) w := by
  obtain ⟨w, hrun, hafter⟩ := @disturbed_read i n α (Option Challenge) providers token gone x now c
    (fun _ w => w.cache.get w.now (.mfaChallenge token)) (.got (.mfaChallenge token)) k
    (fun _ _ => rfl) h
  refine ⟨w, hrun.trans ?_, hafter⟩
  exact congrArg (fun found => disturbed providers token gone i (n + 1) (k found) ⟨c.db, w⟩)
    h.consumed.remains

theorem disturbed_take {k : Option Challenge → Proc α} (h : Along token gone x now n c.store) :
    ∃ w, disturbed providers token gone i n (Redis.consumeMfaChallenge token >>= k) c =
      disturbed providers token gone i (n + 1)
        (k (if untouched gone (n + 1) then x else none)) ⟨c.db, w⟩ := by
  have hstep : disturbed providers token gone i n (Redis.consumeMfaChallenge token >>= k) c =
      disturbed providers token gone i (n + 1)
        (k (held token (consumedAt token gone n c.store))) _ :=
    disturbed_step fun _ _ => rfl
  rw [h.consumed.remains] at hstep
  exact ⟨_, hstep⟩

theorem disturbed_transact {event : β → Event} {body : Trans β} {k : β → Proc α} {b : β}
    {change : Db → Db} (hlocks : body.LockOnly) (halone : body.alone c.db id = .ok (b, change))
    (h : Along token gone x now n c.store) : ∃ w,
    disturbed providers token gone i n (transact event body >>= k) c =
      disturbed providers token gone i (n + 1) (k b) ⟨change c.db, w⟩ ∧
    Along token gone x now (n + 1) w := by
  refine ⟨World.record (consumedAt token gone n c.store) i (event b), ?_,
    ⟨h.consumed.remains, h.consumed.now⟩⟩
  unfold disturbed transact
  change (Prog.txn _ body _).amid i providers.allow _ n c = _
  rw [Prog.amid_txn, halone, Tx.solo_snd i c.db id _ hlocks]
  rfl

/-- The user has the recovery code left. -/
def codeLeft (user : Uuid) (candidate : Digest) (d : Db) : Bool :=
  ((MFARepository.backupFactor user d).bind d.mfaDevices.get).any
    (MFARepository.hasCode candidate)

variable {payload : Challenge} {code : String} {d : Db} {g : Uuid}

theorem alone_change {condition : MFADevice → Bool} {f : MFADevice → MFADevice} :
    (MFARepository.changeFactor g condition f).alone d id =
      if (d.mfaDevices.get g).any condition then .ok (true, (DbChange.setFactor g f).apply)
      else .ok (false, id) := by
  rw [changeFactor_alone]
  cases d.mfaDevices.get g with
  | none => rfl
  | some row =>
      dsimp only [Option.any_some]
      by_cases h : condition row = true
      · rw [if_pos h, if_pos h]
        rfl
      · rw [if_neg h, if_neg h]
        rfl

theorem standing_useCode {candidate : Digest} {row : MFADevice}
    (h : MFARepository.hasCode candidate row = true) :
    (MFARepository.useCode candidate now row).standing ≠ row.standing := by
  unfold MFARepository.hasCode at h
  split at h
  · rename_i hashes hsecret
    intro heq
    have hcodes : some (FactorSecret.codes (hashes.erase candidate)) = some (.codes hashes) := by
      have hsecond := congrArg Prod.snd heq
      rw [MFADevice.standing, MFADevice.standing, MFARepository.useCode, hsecret] at hsecond
      exact hsecond
    have hmem : candidate ∈ hashes := List.contains_iff_mem.mp h
    have hlength := List.length_erase_of_mem hmem
    have hpositive := List.length_pos_of_mem hmem
    rw [show hashes.erase candidate = hashes by simpa using hcodes] at hlength
    omega
  · cases h

theorem backup_of_found {user : Uuid} (h : MFARepository.backupFactor user d = some g) :
    ∃ row, d.mfaDevices.get g = some row ∧ MFARepository.isBackup user row = true := by
  unfold MFARepository.backupFactor at h
  rw [List.head?_map] at h
  obtain ⟨⟨g', row⟩, hhead, rfl⟩ := Option.map_eq_some_iff.mp h
  exact ⟨row, Table.mem_select.mp (List.mem_of_head? hhead)⟩

/-- A recovery code that is left is used up; nothing else is. -/
theorem alone_takeCode {user : Uuid} {candidate : Digest} : ∃ change,
    (MFARepository.takeCode user candidate now (MFARepository.backupFactor user d)).alone d id =
      .ok (codeLeft user candidate d, change) ∧
    (change d).identities = d.identities ∧
    (codeLeft user candidate d = true → ¬SameCredentials d (change d)) ∧
    (codeLeft user candidate d = false → change d = d) := by
  unfold codeLeft
  cases hfound : MFARepository.backupFactor user d with
  | none => exact ⟨id, rfl, rfl, fun h => (nomatch h), fun _ => rfl⟩
  | some g =>
      obtain ⟨row, hrow, hbackup⟩ := backup_of_found hfound
      rw [Option.bind_some, hrow, Option.any_some, MFARepository.takeCode, alone_change, hrow,
        Option.any_some, hbackup, Bool.true_and]
      by_cases hcode : MFARepository.hasCode candidate row = true
      · rw [if_pos hcode, hcode]
        refine ⟨_, rfl, rfl, fun _ hsame => ?_, fun h => nomatch h⟩
        have hstanding := hsame.factors g
        rw [get_setFactor, hrow] at hstanding
        simp only [Option.map_some, if_true, Option.some.injEq] at hstanding
        exact standing_useCode hcode hstanding
      · rw [if_neg hcode, Bool.eq_false_of_not_eq_true hcode]
        exact ⟨id, rfl, rfl, fun h => (nomatch h), fun _ => rfl⟩

theorem disturbed_consumeBackup {k : Bool → Proc α} {user : Uuid} {candidate : Digest} {at' : Time}
    (h : Along token gone x now n c.store) : ∃ d' w,
    disturbed providers token gone i n
        (MFARepository.consumeBackupCode user candidate at' >>= k) c =
      disturbed providers token gone i (n + 1) (k (codeLeft user candidate c.db)) ⟨d', w⟩ ∧
    Along token gone x now (n + 1) w ∧ d'.identities = c.db.identities ∧
    (codeLeft user candidate c.db = true → ¬SameCredentials c.db d') ∧
    (codeLeft user candidate c.db = false → d' = c.db) := by
  obtain ⟨change, htake, hidentities, hused, hunused⟩ := @alone_takeCode at' c.db user candidate
  have halone : Tx.alone c.db id (do
      let found ← ask (MFARepository.backupFactor user) fun found => .mfa (.backupFactor user found)
      let used ← MFARepository.takeCode user candidate at' found
      return (found, used)) =
        .ok ((MFARepository.backupFactor user c.db, codeLeft user candidate c.db), change) := by
    change Tx.alone c.db id (MFARepository.takeCode user candidate at'
      (MFARepository.backupFactor user c.db) >>= fun used =>
        (return (MFARepository.backupFactor user c.db, used) : Trans _)) = _
    rw [Tx.alone_bind_ok htake]
    rfl
  have hnoted : (Tx.solo i c.db id (consumedAt token gone n c.store) (do
      let found ← ask (MFARepository.backupFactor user) fun found => .mfa (.backupFactor user found)
      let used ← MFARepository.takeCode user candidate at' found
      return (found, used) : Trans (Option Uuid × Bool))).2 =
        (consumedAt token gone n c.store).record i
          (.mfa (.backupFactor user (MFARepository.backupFactor user c.db))) :=
    Tx.solo_snd i c.db id _ (Tx.LockOnly.bind
      (f := fun used => .ret (MFARepository.backupFactor user c.db, used))
      (lockOnly_takeCode user candidate at' (MFARepository.backupFactor user c.db))
      fun _ => trivial)
  refine ⟨change c.db, World.record ((consumedAt token gone n c.store).record i
    (.mfa (.backupFactor user (MFARepository.backupFactor user c.db)))) i
      (.mfa (.backupConsumed user candidate at' (MFARepository.backupFactor user c.db)
        (codeLeft user candidate c.db))), ?_, ⟨h.consumed.remains, h.consumed.now⟩,
    hidentities, hused, hunused⟩
  unfold disturbed MFARepository.consumeBackupCode
  change (Prog.txn _ _ _).amid i providers.allow _ n c = _
  rw [Prog.amid_txn, halone, hnoted]
  rfl

theorem disturbed_backup (env : Env) (code : String) {k : Bool → Proc α} (hmethod : payload.method = .backupCode)
    (h : Along token gone x now n c.store) : ∃ d' w,
    disturbed providers token gone i n (checkCode env token payload code >>= k) c =
      disturbed providers token gone i (n + 2)
        (k (codeLeft payload.userId (env.backupHash code) c.db)) ⟨d', w⟩ ∧
    Along token gone x now (n + 2) w ∧ d'.identities = c.db.identities ∧
    (codeLeft payload.userId (env.backupHash code) c.db = true → ¬SameCredentials c.db d') ∧
    (codeLeft payload.userId (env.backupHash code) c.db = false → d' = c.db) := by
  unfold checkCode
  rw [hmethod]
  dsimp only
  rw [Prog.bind_assoc]
  obtain ⟨w, hclock, hafter⟩ := @disturbed_clock i n α providers token gone x now c
    (fun now => MFARepository.consumeBackupCode payload.userId (env.backupHash code) now >>= k) h
  obtain ⟨d', w', htake, hfinal⟩ := @disturbed_consumeBackup i (n + 1) α providers token gone x now
    ⟨c.db, w⟩ k payload.userId (env.backupHash code) now hafter
  exact ⟨d', w', hclock.trans htake, hfinal⟩

theorem answered_step {f : Db → World → β × World} {event : β → Event} {k : β → Proc α}
    (hpass : ∀ (b : β) (w : World), providers.allow (w.record i (event b)) = true)
    (h : ∀ b, (k b).Answered i providers.allow) :
    (step f event >>= k).Answered i providers.allow :=
  ⟨fun _ _ => ⟨_, List.mem_cons_self, hpass _ _⟩, h⟩

theorem answered_complete {user : Uuid} {workflow : Workflow} {method : String} :
    (complete me user workflow method).Answered i providers.allow := by
  unfold complete
  split
  · split
    · trivial
    · intro linked
      cases linked with
      | error fault => cases fault <;> trivial
      | ok _ => exact fun audited => by cases audited <;> trivial
  · unfold Redis.storeLoginWorkflow Redis.set
    refine answered_step (fun _ _ => rfl) fun _ => ?_
    exact fun audited => by cases audited <;> trivial

theorem answered_ensureBackupCodes {user : Uuid} :
    (ensureBackupCodes env me user).Answered i providers.allow := by
  unfold ensureBackupCodes MFARepository.activeFactors look clock
  refine answered_step (fun _ _ => rfl) fun factors => ?_
  split
  · trivial
  · refine answered_step (fun _ _ => rfl) fun now => ?_
    exact fun stored => by cases stored <;> trivial

/-- A failure after the credentials of `d₀` have changed. -/
theorem harmless_take {d₀ : Db} {error : AuthError} {rest : Challenge → Proc Result}
    (herror : error.IsMfa) (hharmed : ¬SameCredentials d₀ c.db)
    (h : Along token gone (some payload) now n c.store)
    (hrest : Yields (fun result d => (Linkable payload.workflow c.db ∧ ∃ a, result = .ok a) ∨
      (¬Linkable payload.workflow c.db ∧ result = .error workflowInvalid ∧
        ¬SameCredentials d₀ d)) (rest payload) c.db)
    (hanswered : (rest payload).Answered i providers.allow) :
    (∀ error' c' n', disturbed providers token gone i n
        (Redis.consumeMfaChallenge token >>= fun found => match found with
          | none => fail error
          | some consumed => rest consumed) c = some (.error error', c', n') →
      error'.IsMfa → SameCredentials d₀ c'.db) ↔
    untouched gone (n + 1) = true ∧ Linkable payload.workflow c.db := by
  obtain ⟨w, htaken⟩ := disturbed_take (k := fun found => match found with
    | none => fail error
    | some consumed => rest consumed) h
  rw [htaken]
  by_cases hstill : untouched gone (n + 1) = true
  · rw [if_pos hstill]
    obtain ⟨result, c', n', hrun⟩ := hanswered.amid (consumedAt token gone) (n + 1) ⟨c.db, w⟩
    dsimp only
    rcases Prog.Yields.amid (c := ⟨c.db, w⟩) hrest hrun with
      ⟨hlinkable, a, rfl⟩ | ⟨hblocked, rfl, hharmed'⟩
    · refine iff_of_true (fun error' c'' n'' hrun' _ => ?_) ⟨hstill, hlinkable⟩
      cases hrun.symm.trans hrun'
    · refine iff_of_false (fun hsame => ?_) fun h => hblocked h.2
      exact hharmed' (hsame _ _ _ hrun trivial)
  · rw [if_neg hstill]
    refine iff_of_false (fun hsame => ?_) fun h => hstill h.1
    exact hharmed (hsame error ⟨c.db, w⟩ (n + 1) rfl herror)

/-- Whenever the call raises an MFA error, the credentials are those it began with. -/
def Harmless (env : Env) (providers : Providers) (i : Nat) (token : Token) (gone : Nat → Bool)
    (call : Call) (c : Core Db World) : Prop :=
  ∀ error c' n, disturbed providers token gone i 0 (program env i call)
      ⟨c.db, c.store.record i (.called call)⟩ = some (.error error, c', n) →
    error.IsMfa → SameCredentials c.db c'.db

theorem harmless_of_refused {error : AuthError} {w : World} {d₀ : Db}
    (hsame : SameCredentials d₀ d) :
    ∀ error' c' n', disturbed providers token gone i n (fail error : Proc Result) ⟨d, w⟩ =
      some (.error error', c', n') → error'.IsMfa → SameCredentials d₀ c'.db := by
  rintro error' c' n' hrun -
  cases hrun
  exact hsame

theorem harmless_of_spared {p : Proc Result} {w : World} {d₀ : Db} (h : Yields (Spared d₀) p d) :
    ∀ error' c' n', disturbed providers token gone i n p ⟨d, w⟩ =
      some (.error error', c', n') → error'.IsMfa → SameCredentials d₀ c'.db :=
  fun error' _ _ hrun hmfa => Prog.Yields.amid (c := ⟨d, w⟩) h hrun error' rfl hmfa

/-- A call that begins by reading the challenge. -/
theorem harmless_iff {call : Call} (rest : Option Challenge → Proc Result) {error : AuthError}
    {Clean : Challenge → Prop}
    (hprogram : program env i call = Redis.getMfaChallenge token >>= rest)
    (hnone : rest none = fail error)
    (hrest : ∀ payload w, gone 0 = false → Along token gone (some payload) c.store.now 1 w →
      ((∀ error c' n, disturbed providers token gone i 1 (rest (some payload)) ⟨c.db, w⟩ =
          some (.error error, c', n) → error.IsMfa → SameCredentials c.db c'.db) ↔
        Clean payload)) :
    Harmless env providers i token gone call c ↔
      ∀ payload, held token c.store = some payload → gone 0 = false → Clean payload := by
  have hstart : Along token gone (held token c.store) c.store.now 0
      (c.store.record i (.called call)) := ⟨rfl, rfl⟩
  obtain ⟨w, hget, hafter⟩ := @disturbed_get i 0 Result providers token gone _ _
    ⟨c.db, c.store.record i (.called call)⟩ rest hstart
  unfold Harmless
  rw [hprogram, hget]
  cases hgone : gone 0 with
  | true =>
      rw [untouched, hgone, Bool.not_true, Bool.and_false, if_neg Bool.false_ne_true, hnone]
      exact iff_of_true (harmless_of_refused (.refl _)) fun _ _ hfalse => nomatch hfalse
  | false =>
      have huntouched : untouched gone 1 = true := by
        rw [untouched, hgone]
        rfl
      rw [if_pos huntouched]
      cases hheld : held token c.store with
      | none =>
          rw [hnone]
          exact iff_of_true (harmless_of_refused (.refl _)) fun _ hnone => nomatch hnone
      | some payload =>
          rw [hheld] at hafter
          refine (hrest payload w hgone hafter).trans ⟨fun h _ heq _ => ?_, fun h => h _ rfl rfl⟩
          cases heq
          exact h

/-- The part of `verify_challenge` after the challenge is read. -/
def resumeVerify (env : Env) (me : Nat) (token : Token) (code : String) :
    Option Challenge → Proc Result
  | none => fail challengeInvalid
  | some payload =>
      if payload.purpose ≠ .verify then fail challengeInvalid
      else checkCode env token payload code >>= concludeVerify me token payload

theorem harmless_verify : Harmless env providers i token gone (.verifyChallenge token code) c ↔
    ∀ payload, held token c.store = some payload → gone 0 = false →
      payload.purpose = .verify → payload.method = .backupCode →
      codeLeft payload.userId (env.backupHash code) c.db = true →
      (∀ n < 4, gone n = false) ∧ Linkable payload.workflow c.db := by
  refine harmless_iff (resumeVerify env i token code) ?_ rfl ?_
  · refine congrArg (Bind.bind _) (funext fun found => ?_)
    cases found with
    | none => rfl
    | some payload => rfl
  · intro payload w _ hafter
    unfold resumeVerify
    dsimp only
    by_cases hpurpose : payload.purpose = .verify
    · rw [if_neg (not_not.mpr hpurpose)]
      by_cases hmethod : payload.method = .backupCode
      · obtain ⟨d', w', hrun, hafter', hidentities, hused, hunused⟩ :=
          disturbed_backup env code (k := concludeVerify i token payload) (c := ⟨c.db, w⟩) hmethod
            hafter
        rw [hrun]
        cases hleft : codeLeft payload.userId (env.backupHash code) c.db with
        | false =>
            have hsame : d' = c.db := hunused hleft
            rw [hsame]
            exact iff_of_true (harmless_of_spared (spared_concludeVerify (.refl _)))
              fun _ _ hfalse => nomatch hfalse
        | true =>
            have hrest : Yields (fun result d => (Linkable payload.workflow d' ∧
                ∃ a, result = .ok a) ∨ (¬Linkable payload.workflow d' ∧
                  result = .error workflowInvalid ∧ ¬SameCredentials c.db d))
                (finishVerify i payload payload) d' := by
              refine yields_finishVerify.imp ?_
              rintro result d (⟨hlinkable, hok⟩ | ⟨hblocked, herror, rfl⟩)
              · exact Or.inl ⟨hlinkable, hok⟩
              · exact Or.inr ⟨hblocked, herror, hused hleft⟩
            have htake := @harmless_take i 3 providers token gone c.store.now ⟨d', w'⟩ payload
              c.db challengeInvalid (finishVerify i payload) trivial (hused hleft) hafter' hrest
              (answered_complete.bind fun _ => trivial)
            rw [concludeVerify_accepted]
            refine htake.trans ?_
            rw [untouched_iff, linkable_congr hidentities]
            exact ⟨fun h _ _ _ => h, fun h => h hpurpose hmethod rfl⟩
      · refine iff_of_true (harmless_of_spared (spared_verify hmethod)) fun _ h => ?_
        exact absurd h hmethod
    · rw [if_pos hpurpose]
      exact iff_of_true (harmless_of_refused (.refl _)) fun h => absurd h hpurpose

/-- The part of `confirm_totp` after the factor is activated. -/
def concludeConfirm (env : Env) (me : Nat) (token : Token) (user : Uuid) (activated : Bool) :
    Proc Result :=
  if ¬activated then
    fail enrollmentInvalid
  else do
    let found ← Redis.consumeMfaChallenge token
    match found with
    | none => fail enrollmentInvalid
    | some consumed => finishConfirm env me user consumed

/-- The part of `confirm_totp` after the factor is looked up. -/
def confirmWith (env : Env) (me : Nat) (token : Token) (code : String) (user g : Uuid) :
    Option MFADevice → Proc Result
  | none => fail enrollmentInvalid
  | some row =>
      if row.status ≠ .pending then fail enrollmentInvalid
      else match openSecret env user row with
        | none => fail enrollmentInvalid
        | some none => fail .unhandled
        | some (some secret) => do
            let now ← clock
            match env.totpVerify secret code none now with
            | none => do
                recordFactorFailure g
                fail codeInvalid
            | some step => MFARepository.activateTotp user g step now >>=
                concludeConfirm env me token user

/-- The part of `confirm_totp` after the challenge is read. -/
def resumeConfirm (env : Env) (me : Nat) (token : Token) (code : String) :
    Option Challenge → Proc Result
  | none => fail enrollmentInvalid
  | some payload =>
      if payload.purpose ≠ .enrollTotp then fail enrollmentInvalid
      else match payload.factorId with
        | none => fail .unhandled
        | some g => MFARepository.factor payload.userId g >>=
            confirmWith env me token code payload.userId g

/-- The code confirms the authenticator that the challenge enrols. -/
def confirms (env : Env) (payload : Challenge) (code : String) (now : Time) (d : Db) : Bool :=
  match payload.factorId.bind fun g => MFARepository.factorOf payload.userId g d with
  | none => false
  | some row => row.factorType == .totp && row.status == .pending &&
      match openSecret env payload.userId row with
      | some (some secret) => (env.totpVerify secret code none now).isSome
      | _ => false

theorem confirmTotp_eq :
    confirmTotp env me token code =
      Redis.getMfaChallenge token >>= resumeConfirm env me token code := by
  refine congrArg (Bind.bind _) (funext fun found => ?_)
  cases found with
  | none => rfl
  | some payload =>
      unfold resumeConfirm
      dsimp only
      split
      · rfl
      · cases payload.factorId with
        | none => rfl
        | some g =>
            refine congrArg (Bind.bind _) (funext fun found => ?_)
            cases found with
            | none => rfl
            | some row =>
                unfold confirmWith
                dsimp only
                split
                · rfl
                · rcases openSecret env payload.userId row with _ | _ | secret
                  · rfl
                  · rfl
                  · refine congrArg (Bind.bind _) (funext fun now => ?_)
                    cases env.totpVerify secret code none now with
                    | none => rfl
                    | some step =>
                        refine congrArg (Bind.bind _) (funext fun activated => ?_)
                        cases activated with
                        | false => rfl
                        | true =>
                            refine congrArg (Bind.bind _) (funext fun found => ?_)
                            cases found with
                            | none => rfl
                            | some consumed => rfl

theorem not_same_of_activated {row row' : MFADevice} {d' : Db}
    (hrow : d.mfaDevices.get g = some row) (hpending : row.status = .pending)
    (hrow' : d'.mfaDevices.get g = some row') (hactive : row'.status = .active) :
    ¬SameCredentials d d' := by
  intro hsame
  have hstanding := hsame.factors g
  rw [hrow, hrow'] at hstanding
  have hstatus : row'.status = row.status :=
    congrArg Prod.fst (Option.some.inj hstanding)
  rw [hactive, hpending] at hstatus
  cases hstatus

theorem harmed_finishConfirm {row row' : MFADevice} {d₀ : Db} {user : Uuid} {consumed : Challenge}
    (hrow : d₀.mfaDevices.get g = some row) (hpending : row.status = .pending)
    (hrow' : d.mfaDevices.get g = some row') (hactive : row'.status = .active) :
    Yields (fun result d' => (Linkable consumed.workflow d ∧ ∃ a, result = .ok a) ∨
        (¬Linkable consumed.workflow d ∧ result = .error workflowInvalid ∧ ¬SameCredentials d₀ d'))
      (finishConfirm env me user consumed) d := by
  have hfinish := @yields_finishConfirm env me d g user consumed
  refine hfinish.imp ?_
  rintro result d' (⟨hlinkable, hok⟩ | ⟨hblocked, herror, hbeside⟩)
  · exact Or.inl ⟨hlinkable, hok⟩
  · obtain ⟨row'', hrow'', hstatus⟩ := hbeside.status row' hrow'
    exact Or.inr ⟨hblocked, herror,
      not_same_of_activated hrow hpending hrow'' (hstatus.trans hactive)⟩

theorem disturbed_activate {k : Bool → Proc α} {user : Uuid} {step : Nat} {at' : Time} {b : Bool}
    {change : Db → Db}
    (halone : (MFARepository.activate user g step at').alone c.db id = .ok (b, change))
    (h : Along token gone x now n c.store) : ∃ w,
    disturbed providers token gone i n (MFARepository.activateTotp user g step at' >>= k) c =
      disturbed providers token gone i (n + 1) (k b) ⟨change c.db, w⟩ ∧
    Along token gone x now (n + 1) w :=
  disturbed_transact (lockOnly_changeFactor _ _ _) halone h

/-- An authenticator that is still pending is activated before the rest can fail. -/
theorem harmless_activate {row : MFADevice} {step : Nat} {at' : Time}
    (h : Along token gone (some payload) now n c.store)
    (hrow : MFARepository.factorOf payload.userId g c.db = some row)
    (hpending : row.status = .pending) :
    (∀ error c' n', disturbed providers token gone i n
        (MFARepository.activateTotp payload.userId g step at' >>=
          concludeConfirm env me token payload.userId) c = some (.error error, c', n') →
      error.IsMfa → SameCredentials c.db c'.db) ↔
    (row.factorType = .totp → untouched gone (n + 2) = true ∧ Linkable payload.workflow c.db) := by
  obtain ⟨hget, howner⟩ := Option.filter_eq_some_iff.mp hrow
  have halone : (MFARepository.activate payload.userId g step at').alone c.db id = _ := alone_change
  rw [hget, Option.any_some, howner, hpending] at halone
  by_cases htotp : row.factorType = .totp
  · rw [if_pos (by simp [htotp])] at halone
    obtain ⟨w, hrun, hafter⟩ := @disturbed_activate i n Result providers token gone _ _ c g
      (concludeConfirm env me token payload.userId) _ _ _ _ _ halone h
    rw [hrun]
    have hactive : ∃ row', ((DbChange.setFactor g fun row => { row with
        status := .active, verifiedAt := some at', lastUsedAt := some at',
        lastTotpStep := some step }).apply c.db).mfaDevices.get g = some row' ∧
        row'.status = .active := by
      rw [get_setFactor, hget]
      simp
    obtain ⟨row', hrow', hactive⟩ := hactive
    have htake := @harmless_take i (n + 1) providers token gone now ⟨_, w⟩ payload c.db
      enrollmentInvalid (finishConfirm env me payload.userId) trivial
      (not_same_of_activated hget hpending hrow' hactive) hafter
      (harmed_finishConfirm hget hpending hrow' hactive)
      (answered_ensureBackupCodes.bind fun _ => answered_complete.bind fun _ => trivial)
    exact htake.trans ⟨fun h _ => h, fun h => h htotp⟩
  · rw [if_neg (by simp [htotp])] at halone
    obtain ⟨w, hrun, hafter⟩ := @disturbed_activate i n Result providers token gone _ _ c g
      (concludeConfirm env me token payload.userId) _ _ _ _ _ halone h
    rw [hrun]
    exact iff_of_true (harmless_of_refused (.refl _)) fun heq => absurd heq htotp

theorem harmless_confirm : Harmless env providers i token gone (.confirmTotp token code) c ↔
    ∀ payload, held token c.store = some payload → gone 0 = false →
      payload.purpose = .enrollTotp → confirms env payload code c.store.now c.db = true →
      (∀ n < 5, gone n = false) ∧ Linkable payload.workflow c.db := by
  refine harmless_iff (resumeConfirm env i token code) confirmTotp_eq rfl ?_
  intro payload w _ hafter
  unfold resumeConfirm confirms
  dsimp only
  by_cases hpurpose : payload.purpose = .enrollTotp
  · rw [if_neg (not_not.mpr hpurpose)]
    cases hfactor : payload.factorId with
    | none => exact iff_of_true (harmless_of_spared spared_unhandled) fun _ hfalse => nomatch hfalse
    | some g =>
        dsimp only [Option.bind_some]
        obtain ⟨w', hlook, hafter'⟩ := @disturbed_look i 1 Result (Option MFADevice) providers token
          gone _ _ ⟨c.db, w⟩ (MFARepository.factorOf payload.userId g)
          (fun answer => .mfa (.factor payload.userId g answer))
          (confirmWith env i token code payload.userId g) (fun _ _ => rfl) hafter
        unfold MFARepository.factor
        rw [hlook]
        unfold confirmWith
        cases hrow : MFARepository.factorOf payload.userId g c.db with
        | none =>
            exact iff_of_true (harmless_of_refused (.refl _)) fun _ hfalse => nomatch hfalse
        | some row =>
            dsimp only
            by_cases hpending : row.status = .pending
            · rw [if_neg (not_not.mpr hpending)]
              rcases openSecret env payload.userId row with _ | _ | secret
              · refine iff_of_true (harmless_of_refused (.refl _)) fun _ hfalse => ?_
                simp at hfalse
              · refine iff_of_true (harmless_of_spared spared_unhandled) fun _ hfalse => ?_
                simp at hfalse
              · obtain ⟨w'', hclock, hafter''⟩ := @disturbed_clock i 2 Result providers token gone
                  _ _ ⟨c.db, w'⟩ (fun now => match env.totpVerify secret code none now with
                    | none => do
                        recordFactorFailure g
                        fail codeInvalid
                    | some step => MFARepository.activateTotp payload.userId g step now >>=
                        concludeConfirm env i token payload.userId) hafter'
                dsimp only
                rw [hclock]
                dsimp only
                cases env.totpVerify secret code none c.store.now with
                | none =>
                    refine iff_of_true (harmless_of_spared spared_wrong) fun _ hfalse => ?_
                    simp at hfalse
                | some step =>
                    refine (harmless_activate (c := ⟨c.db, w''⟩) hafter'' hrow hpending).trans ?_
                    rw [untouched_iff]
                    simp [hpurpose, hpending]
            · rw [if_pos hpending]
              refine iff_of_true (harmless_of_refused (.refl _)) fun _ hconfirms => ?_
              simp [hpending] at hconfirms
  · rw [if_pos hpurpose]
    exact iff_of_true (harmless_of_refused (.refl _)) fun h => absurd h hpurpose

end Amid

/-- A failed check of a code changes no credentials, unless it has used up a recovery code or
activated an authenticator before somebody else consumed the challenge or before the link of the
identity failed. -/
theorem failed_checks (env : Env) (providers : Providers) (i : Nat) (token : Token) (code : String)
    (gone : Nat → Bool) (c : Core Db World) :
    (Harmless env providers i token gone (.verifyChallenge token code) c ↔
      ∀ payload, held token c.store = some payload → gone 0 = false →
        payload.purpose = .verify → payload.method = .backupCode →
        codeLeft payload.userId (env.backupHash code) c.db = true →
        (∀ n < 4, gone n = false) ∧ Linkable payload.workflow c.db) ∧
    (Harmless env providers i token gone (.confirmTotp token code) c ↔
      ∀ payload, held token c.store = some payload → gone 0 = false →
        payload.purpose = .enrollTotp → confirms env payload code c.store.now c.db = true →
        (∀ n < 5, gone n = false) ∧ Linkable payload.workflow c.db) :=
  ⟨harmless_verify, harmless_confirm⟩

/-- Ann enrols an authenticator, which gives her recovery codes, and asks for a challenge. -/
def codeCalls : List (Nat × Call) :=
  [(3, .issueChallenge (.drawn 2 9) .backupCode), (2, .confirmTotp (.drawn 1 2) "phone"),
    (1, .setupTotp (.drawn 0 0) "phone"), (0, .loginPassword "ann" "pw" "phone" none)]

def codeCore : Core Db World :=
  (inTurn deviceEnv codeCalls sampleCore).getD sampleCore

def lostRun : Option (Except AuthError Result × Core Db World × Nat) :=
  disturbed ⟨some true, some false, true⟩ (.drawn 3 0) (· == 3) 4 0
    (program deviceEnv 4 (.verifyChallenge (.drawn 3 0) "backup"))
    ⟨codeCore.db, codeCore.store.record 4 (.called (.verifyChallenge (.drawn 3 0) "backup"))⟩

/-- The challenge is consumed between the use of a recovery code and the end of the call. -/
theorem recovery_code_lost :
    Service.Sequential (application deviceEnv) sampleCore codeCalls codeCore ∧
      ∃ c' n, lostRun = some (.error challengeInvalid, c', n) ∧
        ¬SameCredentials codeCore.db c'.db := by
  have hreached : (inTurn deviceEnv codeCalls sampleCore).isSome = true := by
    decide +kernel
  have hlost : lostRun.map (fun run => (run.1, decide (
      (run.2.1.db.mfaDevices.get (.drawn 2 10)).map MFADevice.standing =
        (codeCore.db.mfaDevices.get (.drawn 2 10)).map MFADevice.standing))) =
      some (.error challengeInvalid, false) := by
    decide +kernel
  obtain ⟨c, hc⟩ := Option.isSome_iff_exists.mp hreached
  have hsame : codeCore = c := by
    rw [codeCore, hc, Option.getD_some]
  obtain ⟨⟨result, c', n⟩, hrun, hresult⟩ := Option.map_eq_some_iff.mp hlost
  obtain ⟨hrefused, hchanged⟩ := Prod.mk.inj hresult
  obtain rfl : result = .error challengeInvalid := hrefused
  refine ⟨hsame ▸ sequential_inTurn hc (by decide), c', n, hrun, fun hkept => ?_⟩
  exact of_decide_eq_false hchanged (hkept.factors (.drawn 2 10))

end AuthCore
