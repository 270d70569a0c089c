/-
The calls on challenges, enrolment and passkeys keep to the ledger.
-/
import AuthCore.History.Logins

namespace AuthCore

open Interleave MFARepository MFAControl

variable {env : Env} {start : Core Db World} {i : Nat} {t : List Event}

theorem lockOnly_changeFactor (id : Uuid) (condition : MFADevice → Bool)
    (g : MFADevice → MFADevice) : (changeFactor id condition g).LockOnly := by
  refine (lockOnly_lockRow _).bind fun factor => ?_
  split
  · trivial
  · split <;> trivial

theorem lockOnly_dropPending (user : Uuid) (now : Time) (id : Uuid) :
    (dropPending user now id).LockOnly := by
  refine (lockOnly_lockRow _).bind fun factor => ?_
  split
  · trivial
  · split <;> trivial

theorem lockOnly_insertPendingTotp (user : Uuid) (secret label : String) (id : Uuid) (now : Time)
    (found : List Uuid) : (insertPendingTotp user secret label id now found).LockOnly :=
  (Tx.lockOnly_each (lockOnly_dropPending _ _) _).bind fun _ => trivial

theorem lockOnly_putBackupCodes (user : Uuid) (hashes : List Digest) (id : Uuid) (now : Time)
    (found : Option Uuid) : (putBackupCodes user hashes id now found).LockOnly := by
  cases found with
  | none => trivial
  | some factor =>
      refine (lockOnly_changeFactor _ _ _).bind fun changed => ?_
      split <;> trivial

theorem lockOnly_takeCode (user : Uuid) (candidate : Digest) (now : Time)
    (found : Option Uuid) : (takeCode user candidate now found).LockOnly := by
  cases found with
  | none => trivial
  | some factor => exact lockOnly_changeFactor _ _ _

theorem lockOnly_insertPasskey (user : Uuid) (label credential key : String) (count : Nat)
    (id : Uuid) (now : Time) :
    (insertPasskey user label credential key count id now).LockOnly := by
  refine (lockOnly_write _).bind fun _ => (lockOnly_lockRow _).bind fun taken => ?_
  split <;> trivial

theorem lockOnly_setCounter (credential : String) (previous new : Nat) (backupState : Bool) :
    (setCounter credential previous new backupState).LockOnly := by
  refine (lockOnly_lockRow _).bind fun row => ?_
  split
  · trivial
  · split <;> trivial

theorem lockOnly_link (user : Uuid) (provider : IdentityProvider) (subject : String)
    (id : Uuid) : (link user provider subject id).LockOnly :=
  (lockOnly_reserve _ _).bind fun _ => trivial

theorem runs_getWorkflow {token : Token} {k : Workflow → Proc Result}
    (ht : t.all Event.plain = true)
    (h : ∀ workflow : Workflow,
      Runs env start i (.got (.loginWorkflow token) (some workflow) :: t) (k workflow)) :
    Runs env start i t (getWorkflow token >>= k) := by
  unfold getWorkflow
  rw [Prog.bind_assoc]
  exact runs_getLoginWorkflow (runs_fail_bind (plain_append [_] rfl ht)) h

/-- A profile shows an address only when an identity of the user verifies it. -/
theorem runs_activeProfile {user : Uuid} {k : MFAUserProfile → Proc Result}
    (ht : t.all Event.plain = true)
    (h : ∀ (row : User) (identities : List (Uuid × Identity)) (profile : MFAUserProfile),
      (∀ email, profile.email = some email → row.email = some email ∧
        (identities.any fun entry => isEmailProvider entry.2.provider) = true) →
      (∀ phone, profile.phoneE164 = some phone → row.phoneE164 = some phone ∧
        (identities.any fun entry => entry.2.provider == .phone) = true) →
      Runs env start i (.login (.verifiedIdentities user identities) ::
        .mfa (.user user (some row)) :: t) (k profile)) :
    Runs env start i t (activeProfile user >>= k) := by
  unfold activeProfile userProfile
  rw [Prog.bind_assoc, Prog.bind_assoc]
  refine runs_look (fun _ => rfl) (fun _ _ => rfl) (fun _ => rfl) (fun _ => trivial) ?_
  intro found
  cases found with
  | none => exact runs_fail (plain_append [_] rfl ht)
  | some row =>
      dsimp only
      split
      · exact runs_fail (plain_append [_] rfl ht)
      · rw [Prog.bind_assoc]
        refine runs_look (fun _ => rfl) (fun _ _ => rfl) (fun _ => rfl) (fun _ => trivial) ?_
        intro identities
        rw [Prog.pure_bind]
        dsimp only
        split
        · exact runs_fail (plain_append [_, _] rfl ht)
        · refine h row identities _ ?_ ?_
          · intro email hemail
            dsimp only at hemail
            split at hemail
            · rename_i hverified
              exact ⟨hemail, hverified⟩
            · cases hemail
          · intro phone hphone
            dsimp only at hphone
            split at hphone
            · rename_i hverified
              exact ⟨hphone, hverified⟩
            · cases hphone

theorem runs_activeFactors {user : Uuid} {k : List (Uuid × MFADevice) → Proc Result}
    (h : ∀ factors, Runs env start i (.mfa (.activeFactors user factors) :: t) (k factors)) :
    Runs env start i t (MFARepository.activeFactors user >>= k) :=
  runs_look (fun _ => rfl) (fun _ _ => rfl) (fun _ => rfl) (fun _ => trivial) h

theorem runs_requireMfaAssurance {workflow : Workflow} {k : Unit → Proc Result}
    (ht : t.all Event.plain = true)
    (h : workflow.assurance = some "mfa" → Runs env start i t (k ())) :
    Runs env start i t (requireMfaAssurance workflow >>= k) := by
  unfold requireMfaAssurance
  split
  · rename_i hassurance
    exact h hassurance
  · exact runs_fail ht

theorem runs_requireEnrollmentAssurance {workflow : Workflow} {user : Uuid}
    {k : Unit → Proc Result} (ht : t.all Event.plain = true)
    (h : ∀ factors : List (Uuid × MFADevice),
      ((factors.any fun entry => isStrong entry.2) = true → workflow.assurance = some "mfa") →
      Runs env start i (.mfa (.activeFactors user factors) :: t) (k ())) :
    Runs env start i t (requireEnrollmentAssurance workflow user >>= k) := by
  unfold requireEnrollmentAssurance
  rw [Prog.bind_assoc]
  refine runs_activeFactors fun factors => ?_
  split
  · exact runs_requireMfaAssurance (plain_append [_] rfl ht) fun hassurance =>
      h factors fun _ => hassurance
  · rename_i hnone
    exact h factors fun hany => absurd hany hnone

/-- The end of a completed check. -/
theorem runs_complete {user : Uuid} {workflow : Workflow} {method : String}
    {k : MFACompletion → Proc Result} (ht : t.all Event.plain = true)
    (hchecked : Checked env i t user workflow method)
    (h : ∀ (t : List Event) completion, t.all Event.plain = true →
      Runs env start i t (k completion)) :
    Runs env start i t (complete i user workflow method >>= k) := by
  unfold complete
  by_cases hcollision : workflow.decision = .collisionProofRequired
  · rw [if_pos hcollision]
    cases hoidc : workflow.oidc with
    | none => exact runs_fail ht
    | some context =>
        obtain ⟨provider, subject⟩ := context
        dsimp only
        rw [Prog.bind_assoc]
        refine runs_attempt (lockOnly_link _ _ _ _) (fun _ => rfl) (fun _ _ => rfl) ?_ ?_ ?_ ?_
        · exact fun _ _ => trivial
        · exact fun _ => ⟨workflow, method, hchecked, hcollision, hoidc⟩
        · intro _
          dsimp only
          rw [Prog.bind_assoc]
          exact runs_loginAudit (fun _ => h _ _ (plain_append [_, _] rfl ht))
            (runs_fail (plain_append [_] rfl ht))
        · intro fault
          cases fault with
          | integrity => exact runs_fail ht
          | deadlock => exact runs_fail ht
          | thrown error => exact runs_fail ht
  · rw [if_neg hcollision]
    dsimp only
    rw [Prog.bind_assoc]
    refine runs_set (Or.inr ⟨rfl, user, workflow, method, hchecked, hcollision, rfl⟩) ?_
    rw [Prog.bind_assoc]
    exact runs_loginAudit (fun _ => h _ _ (plain_append [_, _] rfl ht))
      (runs_fail (plain_append [_] rfl ht))

theorem runs_availableMethods (token : Token) :
    Runs env start i [.called (.availableMethods token)] (availableMethods token) := by
  unfold availableMethods
  refine runs_getWorkflow rfl fun workflow => runs_activeProfile rfl fun row ids profile _ _ => ?_
  exact runs_activeFactors fun _ => runs_done rfl trivial

theorem runs_listFactors (token : Token) :
    Runs env start i [.called (.listFactors token)] (listFactors token) := by
  unfold listFactors
  refine runs_getWorkflow rfl fun workflow => runs_requireMfaAssurance rfl fun _ => ?_
  refine runs_activeProfile rfl fun row ids profile _ _ => ?_
  exact runs_activeFactors fun _ => runs_done rfl trivial

/-- A transaction on one factor. -/
theorem runs_factorTx {β : Type} {event : β → MFAEvent} {body : Trans β} {k : β → Proc Result}
    (hbody : body.LockOnly) (hcommit : ∀ b, (event b).commit = some ⟨β, body, b⟩)
    (htells : ∀ b d, (event b).Tells d) (hfollows : ∀ b, (event b).Follows env i t)
    (hok : ∀ b, Runs env start i (.mfa (event b) :: t) (k b))
    (hfault : Runs env start i t (.raise .unhandled)) :
    Runs env start i t (transact (fun b => .mfa (event b)) body >>= k) := by
  refine runs_transact hbody ?_ ?_ ?_ ?_ hok hfault
  · exact hcommit
  · exact fun _ _ => rfl
  · exact fun b c => htells b c.db
  · exact hfollows

theorem runs_revokeFactor (token : Token) (factor : Uuid) :
    Runs env start i [.called (.revokeFactor token factor)] (revokeFactor i token factor) := by
  unfold MFAControl.revokeFactor
  refine runs_getWorkflow rfl fun workflow => runs_requireMfaAssurance rfl fun hassurance => ?_
  refine runs_activeFactors fun factors => ?_
  split
  · exact runs_fail rfl
  · rename_i target htarget
    split
    · exact runs_fail rfl
    · rename_i hguard
      have hothers : isStrong target.2 = true →
          1 < (factors.filter fun entry => isStrong entry.2).length := by
        intro hstrong
        rw [hstrong] at hguard
        simpa using hguard
      refine runs_consumeLoginWorkflow (Unspent.of_all rfl) (runs_fail rfl) fun consumed => ?_
      refine runs_clock fun now => ?_
      refine runs_factorTx (lockOnly_changeFactor _ _ _) (fun _ => rfl) (fun _ _ => trivial)
        (fun _ => .intro hassurance htarget hothers) (fun revoked => ?_) (runs_fail rfl)
      cases revoked with
      | false => exact runs_fail rfl
      | true =>
          refine runs_loginAudit (fun entry => ?_) (runs_fail rfl)
          exact runs_complete rfl (.management hassurance) fun t _ ht => runs_done ht trivial

/-- A code is stored and sent to a verified address. -/
theorem runs_sendOtp {token : Token} {user : Uuid} {method : MFAMethod} {subject : String}
    {k : Unit → Proc Result} (ht : t.all Event.plain = true)
    (hstored : ∀ other code hash, .otpStored other (.mfa code) hash ∉ t)
    (haddressed : Addressed user subject t)
    (h : ∀ pre : List Event, pre.all Event.idle = true →
      Runs env start i (pre ++ t) (k ())) :
    Runs env start i t (sendOtp env i token user method subject >>= k) := by
  unfold sendOtp
  rw [Prog.bind_assoc]
  refine runs_count fun count => ?_
  split
  · exact runs_fail (plain_append [_] rfl ht)
  · rw [Prog.bind_assoc]
    have hlater : ∀ pre : List Event, Addressed user subject (pre ++ t) := by
      intro pre
      obtain ⟨row, identities, hrow, hidentities, hverified⟩ := haddressed
      exact .intro row identities (List.mem_append_right _ hrow)
        (List.mem_append_right _ hidentities) hverified
    refine runs_storeOtp ⟨subject, hlater [_]⟩ ?_
    rw [Prog.bind_assoc]
    refine runs_send ?_ fun delivered => ?_
    · intro other code hash hmem
      simp only [List.mem_cons, reduceCtorEq, false_or, Event.otpStored.injEq] at hmem
      rcases hmem with ⟨rfl, _⟩ | hold
      · exact hlater [_, _, _]
      · exact absurd hold (hstored _ _ _)
    · cases delivered with
      | true => exact h [_, _, _, _] rfl
      | false =>
          simp only [Bool.false_eq_true, if_false]
          rw [Prog.bind_assoc]
          exact runs_delete trivial (runs_fail (plain_append [_, _, _, _, _] rfl ht))

/-- Codes are delivered for the methods that need one. -/
theorem runs_deliver {token : Token} {user : Uuid} {method : MFAMethod}
    {profile : MFAUserProfile} {k : Unit → Proc Result} (ht : t.all Event.plain = true)
    (hstored : ∀ other code hash, .otpStored other (.mfa code) hash ∉ t)
    (hemail : ∀ email, profile.email = some email → Addressed user email t)
    (hphone : ∀ phone, profile.phoneE164 = some phone → Addressed user phone t)
    (h : ∀ pre : List Event, pre.all Event.idle = true →
      Runs env start i (pre ++ t) (k ())) :
    Runs env start i t (deliver env i token user method profile >>= k) := by
  unfold deliver
  split
  · rename_i email hvalue _
    exact runs_sendOtp ht hstored (hemail _ (by assumption)) h
  · exact runs_sendOtp ht hstored (hphone _ (by assumption)) h
  · exact h [] rfl

theorem runs_issueChallenge (token : Token) (method : MFAMethod) :
    Runs env start i [.called (.issueChallenge token method)]
      (issueChallenge env i token method) := by
  unfold issueChallenge
  refine runs_getWorkflow rfl fun workflow => ?_
  dsimp only
  refine runs_activeProfile rfl fun row ids profile hemail hphone => ?_
  refine runs_activeFactors fun factors => ?_
  split
  · exact runs_fail rfl
  · refine runs_consumeLoginWorkflow (Unspent.of_all rfl) (runs_fail rfl) fun consumed => ?_
    refine runs_deliver rfl (by simp) (fun email hvalue => ?_) (fun phone hvalue => ?_)
      fun pre hpre => ?_
    · exact .intro row ids (by simp) (by simp) (Or.inl (hemail email hvalue))
    · exact .intro row ids (by simp) (by simp) (Or.inr (hphone phone hvalue))
    · refine runs_set ⟨⟨_, rfl⟩, ?_, nofun⟩ (runs_done ?_ trivial)
      · exact .intro token workflow (by simp) rfl (by simp)
          ((Fresh.of_idle hpre).append (Fresh.of_all rfl))
      · exact plain_append [_] rfl (plain_append _ (plain_of_idle hpre) rfl)

theorem runs_resendChallenge (token : Token) :
    Runs env start i [.called (.resendChallenge token)] (resendChallenge env i token) := by
  unfold resendChallenge
  refine runs_getMfaChallenge (runs_fail rfl) fun payload => ?_
  dsimp only
  split
  · exact runs_fail rfl
  · split
    · exact runs_fail rfl
    · refine runs_activeProfile rfl fun row ids profile hemail hphone => ?_
      split
      · exact runs_fail rfl
      · rename_i subject hsubject
        refine runs_sendOtp rfl (by simp) (.intro row ids (by simp) (by simp) ?_) fun pre hpre =>
          runs_done (plain_append _ (plain_of_idle hpre) rfl) trivial
        split at hsubject
        · exact Or.inl (hemail subject hsubject)
        · exact Or.inr (hphone subject hsubject)

theorem runs_recordFactorFailure {factor : Uuid} {k : Unit → Proc Result}
    (ht : t.all Event.plain = true)
    (h : ∀ t : List Event, t.all Event.plain = true → Runs env start i t (k ())) :
    Runs env start i t (recordFactorFailure factor >>= k) := by
  unfold recordFactorFailure
  rw [Prog.bind_assoc]
  refine runs_count fun count => ?_
  split
  · exact runs_set trivial (h _ (plain_append [_, _] rfl ht))
  · exact h _ (plain_append [_] rfl ht)

theorem runs_recordFailure {token : Token} {payload : Challenge} {k : Unit → Proc Result}
    (ht : t.all Event.idle = true)
    (h : ∀ t : List Event, t.all Event.plain = true → Runs env start i t (k ())) :
    Runs env start i t (recordFailure token payload >>= k) := by
  have hplain := plain_of_idle ht
  unfold recordFailure
  split
  · exact runs_recordFactorFailure hplain h
  · rw [Prog.bind_assoc]
    refine runs_count fun count => ?_
    split
    · rw [Prog.bind_assoc]
      refine runs_consumeMfaChallenge (Unspent.of_idle (idle_append [_] rfl ht)) ?_ fun _ => ?_
      · exact h _ (plain_append [_, _] rfl hplain)
      · exact h _ (plain_append [_, _] rfl hplain)
    · exact h _ (plain_append [_] rfl hplain)

theorem runs_factor {user id : Uuid} {k : Option MFADevice → Proc Result}
    (h : ∀ found, Runs env start i (.mfa (.factor user id found) :: t) (k found)) :
    Runs env start i t (MFARepository.factor user id >>= k) :=
  runs_look (fun _ => rfl) (fun _ _ => rfl) (fun _ => rfl) (fun _ => trivial) h

theorem runs_verifyTotp {user id : Uuid} {code : String} {k : Bool → Proc Result}
    (ht : t.all Event.plain = true)
    (hfalse : ∀ pre : List Event, pre.all Event.idle = true →
      Runs env start i (pre ++ t) (k false))
    (hadvances : ∀ row step now secret, row.status = .active →
      openSecret env user row = some (some secret) →
      env.totpVerify secret code row.lastTotpStep now = some step →
      Advances env (.clock now :: .mfa (.factor user id (some row)) ::
        .got (.factorLock id) none :: t) id row.lastTotpStep step now)
    (htrue : ∀ row step now secret, row.status = .active →
      openSecret env user row = some (some secret) →
      env.totpVerify secret code row.lastTotpStep now = some step →
      Runs env start i (.mfa (.totpAdvanced id row.lastTotpStep step now true) :: .clock now ::
        .mfa (.factor user id (some row)) :: .got (.factorLock id) none :: t) (k true)) :
    Runs env start i t (verifyTotp env user id code >>= k) := by
  unfold verifyTotp
  rw [Prog.bind_assoc]
  refine runs_mark ?_ fun _ => runs_fail (plain_append [_] rfl ht)
  simp only [Bool.false_eq_true, if_false]
  rw [Prog.bind_assoc]
  refine runs_factor fun found => ?_
  cases found with
  | none => exact hfalse [_, _] rfl
  | some row =>
      dsimp only
      split
      · exact hfalse [_, _] rfl
      · rename_i hstatus
        cases hsecret : openSecret env user row with
        | none => exact hfalse [_, _] rfl
        | some opened =>
            cases opened with
            | none => exact runs_fail (plain_append [_, _] rfl ht)
            | some secret =>
                dsimp only
                rw [Prog.bind_assoc]
                refine runs_clock fun now => ?_
                cases hstep : env.totpVerify secret code row.lastTotpStep now with
                | none => exact hfalse [_, _, _] rfl
                | some step =>
                    have hactive : row.status = .active := not_not.mp hstatus
                    refine runs_factorTx (lockOnly_changeFactor _ _ _) (fun _ => rfl)
                      (fun _ _ => trivial)
                      (fun _ => hadvances row step now secret hactive hsecret hstep)
                      (fun advanced => ?_) (runs_fail (plain_append [_, _, _] rfl ht))
                    cases advanced with
                    | false => exact hfalse [_, _, _, _] rfl
                    | true => exact htrue row step now secret hactive hsecret hstep

/-- An accepted code is exchanged for a completion, if the challenge is still there. -/
theorem runs_accepted {payload : Challenge} (ht : t.all Event.idle = true)
    (hchecked : ∀ consumed : Challenge, Checked env i
      (.taken (.mfaChallenge token) (some consumed) :: t) payload.userId consumed.workflow
      payload.method.value) :
    Runs env start i t (do
      let some consumed ← Redis.consumeMfaChallenge token | fail challengeInvalid
      return .completion
        (← complete i payload.userId consumed.workflow payload.method.value)) := by
  have hplain := plain_of_idle ht
  refine runs_consumeMfaChallenge (Unspent.of_idle ht)
    (runs_fail (plain_append [_] rfl hplain)) fun consumed => ?_
  exact runs_complete (plain_append [_] rfl hplain) (hchecked consumed) fun t _ ht =>
    runs_done ht trivial

theorem runs_verifyChallenge (token : Token) (code : String) :
    Runs env start i [.called (.verifyChallenge token code)]
      (verifyChallenge env i token code) := by
  unfold verifyChallenge
  refine runs_getMfaChallenge (runs_fail rfl) fun payload => ?_
  dsimp only
  split
  · exact runs_fail rfl
  · rename_i hpurpose
    have hverify : payload.purpose = .verify := not_not.mp hpurpose
    -- a refused code is counted; an accepted one is exchanged for a completion
    have hrefused : ∀ t : List Event, t.all Event.idle = true →
        Runs env start i t (recordFailure token payload >>= fun _ => fail codeInvalid) :=
      fun t ht => runs_recordFailure ht fun t ht => runs_fail ht
    have haccepted := fun t => @runs_accepted env start i t token payload
    generalize hvalue : payload.method.value = value at haccepted ⊢
    unfold checkCode
    cases hmethod : payload.method with
    | totp =>
        dsimp only
        cases hfactor : payload.factorId with
        | none => exact runs_fail rfl
        | some id =>
            refine runs_verifyTotp rfl (fun pre hpre => ?_) ?_ ?_
            · exact hrefused _ (idle_append _ hpre rfl)
            · intro row step now secret hactive hsecret hstep
              exact .intro hverify hmethod hfactor hactive hsecret hstep
            · intro row step now secret hactive hsecret hstep
              refine haccepted _ rfl fun consumed => ?_
              exact hvalue ▸ .totp hverify hmethod hfactor hactive hsecret hstep
    | emailOtp =>
        dsimp only
        rw [Prog.bind_assoc]
        refine runs_tryOtp fun outcome => ?_
        rw [Prog.pure_bind]
        by_cases houtcome : outcome = 1
        · subst houtcome
          refine haccepted _ rfl fun consumed => ?_
          exact hvalue ▸ .otp hverify (Or.inl hmethod)
        · simp only [houtcome, decide_false, Bool.false_eq_true, not_false_iff, if_true]
          exact hrefused _ rfl
    | smsOtp =>
        dsimp only
        rw [Prog.bind_assoc]
        refine runs_tryOtp fun outcome => ?_
        rw [Prog.pure_bind]
        by_cases houtcome : outcome = 1
        · subst houtcome
          refine haccepted _ rfl fun consumed => ?_
          exact hvalue ▸ .otp hverify (Or.inr hmethod)
        · simp only [houtcome, decide_false, Bool.false_eq_true, not_false_iff, if_true]
          exact hrefused _ rfl
    | backupCode =>
        dsimp only
        rw [Prog.bind_assoc]
        refine runs_clock fun now => ?_
        refine runs_lookup (lockOnly_takeCode _ _ _) (fun _ => rfl) (fun _ _ => rfl)
          (fun _ => rfl) (fun _ => trivial) (fun _ _ => rfl) (fun _ _ => rfl)
          (fun _ _ => trivial) (fun _ _ => .intro hverify hmethod) ?_ fun _ _ => runs_fail rfl
        intro found used
        cases used with
        | false => exact hrefused _ rfl
        | true =>
            refine haccepted _ rfl fun consumed => ?_
            exact hvalue ▸ .backup hverify hmethod
    | passkey => exact hrefused _ rfl

theorem runs_setupTotp (token : Token) (label : String) :
    Runs env start i [.called (.setupTotp token label)] (setupTotp env i token label) := by
  unfold setupTotp
  refine runs_getWorkflow rfl fun workflow => ?_
  dsimp only
  refine runs_activeProfile rfl fun row ids profile _ _ => ?_
  refine runs_requireEnrollmentAssurance rfl fun factors hstrong => ?_
  refine runs_consumeLoginWorkflow (Unspent.of_all rfl) (runs_fail rfl) fun consumed => ?_
  refine runs_clock fun now => ?_
  refine runs_lookup (lockOnly_insertPendingTotp _ _ _ _ _) (fun _ => rfl) (fun _ _ => rfl)
    (fun _ => trivial) (fun _ => trivial) (fun _ _ => rfl) (fun _ _ => rfl) (fun _ _ => trivial)
    (fun _ _ => ⟨rfl, by simp [Event.newFactor]⟩) ?_ fun _ _ => runs_fail rfl
  intro found _
  refine runs_set ⟨⟨_, rfl⟩, ?_, fun _ => ?_⟩ (runs_done rfl trivial)
  · exact .intro token workflow (by simp) rfl (by simp) (Fresh.of_all rfl)
  · exact .intro token workflow factors (by simp) (by simp) (by simp) hstrong

theorem runs_ensureBackupCodes {user : Uuid} {k : List Token → Proc Result}
    (ht : t.all Event.plain = true)
    (h : ∀ codes tokens, Codes user codes → codes.all Event.plain = true →
      Runs env start i (codes ++ t) (k tokens)) :
    Runs env start i t (ensureBackupCodes env i user >>= k) := by
  unfold ensureBackupCodes
  rw [Prog.bind_assoc]
  refine runs_activeFactors fun factors => ?_
  split
  · exact h [_] _ .kept rfl
  · rw [Prog.bind_assoc]
    refine runs_clock fun now => ?_
    dsimp only
    rw [Prog.bind_assoc]
    refine runs_lookup (lockOnly_putBackupCodes _ _ _ _) (fun _ => rfl) (fun _ _ => rfl)
      (fun _ => rfl) (fun _ => trivial) (fun _ _ => rfl) (fun _ _ => rfl)
      (fun _ _ => trivial) (fun _ _ => rfl) ?_ fun _ _ =>
        runs_fail (plain_append [_, _, _] rfl ht)
    intro found _
    exact h [_, _, _, _] _ .stored rfl

theorem runs_confirmTotp (token : Token) (code : String) :
    Runs env start i [.called (.confirmTotp token code)] (confirmTotp env i token code) := by
  unfold confirmTotp
  refine runs_getMfaChallenge (runs_fail rfl) fun payload => ?_
  dsimp only
  split
  · exact runs_fail rfl
  · rename_i hpurpose
    cases hfactor : payload.factorId with
    | none => exact runs_fail rfl
    | some id =>
        refine runs_factor fun found => ?_
        cases found with
        | none => exact runs_fail rfl
        | some row =>
            dsimp only
            split
            · exact runs_fail rfl
            · rename_i hstatus
              split
              · exact runs_fail rfl
              · exact runs_fail rfl
              · rename_i hsecret
                refine runs_clock fun now => ?_
                split
                · exact runs_recordFactorFailure rfl fun t ht => runs_fail ht
                · rename_i step hstep
                  refine runs_factorTx (lockOnly_changeFactor _ _ _) (fun _ => rfl)
                    (fun _ _ => trivial)
                    (fun _ =>
                      .intro (not_not.mp hpurpose) hfactor (not_not.mp hstatus) hsecret hstep)
                    (fun activated => ?_) (runs_fail rfl)
                  cases activated with
                  | false => exact runs_fail rfl
                  | true =>
                      refine runs_consumeMfaChallenge (Unspent.of_all rfl) (runs_fail rfl)
                        fun consumed => ?_
                      refine runs_ensureBackupCodes rfl fun codes tokens hcodes hplain => ?_
                      refine runs_complete (plain_append _ hplain rfl)
                        (.enrollTotp (not_not.mp hpurpose) hfactor hcodes) fun t _ ht => ?_
                      exact runs_done ht trivial

theorem runs_passkeys {user : Uuid} {k : List StoredPasskey → Proc Result}
    (h : ∀ found, Runs env start i (.mfa (.passkeys user found) :: t) (k found)) :
    Runs env start i t (MFARepository.passkeys user >>= k) :=
  runs_look (fun _ => rfl) (fun _ _ => rfl) (fun _ => trivial) (fun _ => trivial) h

theorem runs_passkeyRegistrationOptions (token : Token) (label : String) :
    Runs env start i [.called (.passkeyRegistrationOptions token label)]
      (passkeyRegistrationOptions i token label) := by
  unfold passkeyRegistrationOptions
  refine runs_getWorkflow rfl fun workflow => ?_
  dsimp only
  refine runs_activeProfile rfl fun row ids profile _ _ => ?_
  refine runs_requireEnrollmentAssurance rfl fun factors hstrong => ?_
  refine runs_consumeLoginWorkflow (Unspent.of_all rfl) (runs_fail rfl) fun consumed => ?_
  refine runs_passkeys fun _ => runs_set ⟨⟨_, rfl⟩, ?_, ?_⟩ (runs_done rfl trivial)
  · exact .intro token workflow (by simp) rfl (by simp) (Fresh.of_all rfl)
  · exact .intro token workflow factors (by simp) (by simp) (by simp) hstrong

theorem runs_confirmPasskeyRegistration (token : Token) (credential : String) :
    Runs env start i [.called (.confirmPasskeyRegistration token credential)]
      (confirmPasskeyRegistration env i token credential) := by
  unfold confirmPasskeyRegistration
  refine runs_consumeWebauthnChallenge (Unspent.of_all rfl) (runs_fail rfl) fun payload => ?_
  cases payload with
  | authenticate challenge workflow => exact runs_fail rfl
  | register user label challenge workflow =>
      dsimp only
      split
      · exact runs_fail rfl
      · refine runs_clock fun now => ?_
        refine runs_attempt (lockOnly_insertPasskey _ _ _ _ _ _ _) (fun _ => rfl)
          (fun _ _ => rfl) ?_ ?_ (fun _ => ?_) fun fault => ?_
        · exact fun _ _ => trivial
        · exact fun _ => ⟨.intro, rfl⟩
        · refine runs_ensureBackupCodes rfl fun codes tokens hcodes hplain => ?_
          exact runs_complete (plain_append _ hplain rfl) (.enrollPasskey hcodes) fun t _ ht =>
            runs_done ht trivial
        · exact runs_fail rfl

theorem runs_passkeyAuthenticationOptions (token : Option Token) :
    Runs env start i [.called (.passkeyAuthenticationOptions token)]
      (passkeyAuthenticationOptions i token) := by
  unfold passkeyAuthenticationOptions
  cases token with
  | none => exact runs_set trivial (runs_done rfl trivial)
  | some token =>
      refine runs_getWorkflow rfl fun workflow => runs_passkeys fun credentials => ?_
      split
      · exact runs_fail rfl
      · refine runs_consumeLoginWorkflow (Unspent.of_all rfl) (runs_fail rfl) fun consumed => ?_
        refine runs_set ⟨⟨_, rfl⟩, workflow.userId, ?_⟩ (runs_done rfl trivial)
        exact .intro token workflow (by simp) rfl (by simp) (Fresh.of_all rfl)

theorem runs_verifyPasskey (token : Token) (credential : String) :
    Runs env start i [.called (.verifyPasskey token credential)]
      (verifyPasskey env i token credential) := by
  unfold verifyPasskey
  refine runs_consumeWebauthnChallenge (Unspent.of_all rfl) (runs_fail rfl) fun payload => ?_
  cases payload with
  | register user label challenge workflow => exact runs_fail rfl
  | authenticate challenge workflow =>
      dsimp only
      refine runs_look (fun _ => rfl) (fun _ _ => rfl) (fun _ => rfl) (fun _ => trivial) ?_
      intro found
      cases found with
      | none => exact runs_fail rfl
      | some stored =>
          dsimp only
          split
          · exact runs_fail rfl
          · rename_i hbelongs
            split
            · exact runs_fail rfl
            · rename_i count backupState hverified
              refine runs_attempt (lockOnly_setCounter _ _ _ _) (fun _ => rfl) (fun _ _ => rfl)
                ?_ ?_ (fun updated => ?_) fun fault => runs_fail rfl
              · exact fun _ _ => trivial
              · exact fun _ => trivial
              · cases updated with
                | false => exact runs_fail rfl
                | true =>
                    cases workflow with
                    | none =>
                        exact runs_complete rfl (.passkeyPrimary hverified) fun t _ ht =>
                          runs_done ht trivial
                    | some workflow =>
                        have huser : workflow.userId = stored.userId := by
                          simpa [belongsTo] using hbelongs
                        exact runs_complete rfl (.passkey hverified huser) fun t _ ht =>
                          runs_done ht trivial

theorem runs_proveCollisionPassword (token : Token) (password : String) :
    Runs env start i [.called (.proveCollisionPassword token password)]
      (proveCollisionPassword env i token password) := by
  unfold proveCollisionPassword
  refine runs_getWorkflow rfl fun workflow => ?_
  split
  · exact runs_fail rfl
  · rename_i hdecision
    refine runs_look (fun _ => rfl) (fun _ _ => rfl) (fun _ => rfl) (fun _ => trivial) ?_
    intro hash
    cases hash with
    | none => exact runs_fail rfl
    | some hash =>
        split
        · exact runs_fail rfl
        · rename_i hverified
          refine runs_consumeLoginWorkflow (Unspent.of_all rfl) (runs_fail rfl)
            fun consumed => ?_
          refine runs_complete rfl (.password (not_not.mp hdecision) ?_) fun t _ ht =>
            runs_done ht trivial
          simpa using hverified

end AuthCore
