/-
Guesses of a TOTP code.  The lock of the factor is checked before the code is compared and set
after the third failure is counted, so calls can be between the two.
-/
import AuthCore.Codes.Guarded
import AuthCore.History.Factors
import AuthCore.Model.Sample

namespace AuthCore

open Interleave Throttle

/-- The comparison is the step after the factor is read: the code of the call against the opened
secret, at the time the clock shows. -/
def factorGuess (env : Env) (factor : Uuid) : List Event → Option Bool
  | .clock now :: .mfa (.factor user id (some row)) :: t =>
      match MFAControl.openSecret env user row, t.getLast? with
      | some (some secret), some (.called (.verifyChallenge _ code)) =>
          if id = factor then some (env.totpVerify secret code row.lastTotpStep now).isSome
          else none
      | _, _ => none
  | _ => none

/-- The lock of a TOTP factor. -/
def factorGuard (env : Env) (factor : Uuid) : Guard where
  lock := .factorLock factor
  route := "mfa_factor_failure"
  subject := .id factor
  limits := ⟨MFAControl.mfaFailureLimit, seconds MFAControl.mfaFailureWindow,
    seconds factorLockTtlSeconds, by decide⟩
  windowSeconds := MFAControl.mfaFailureWindow
  lockSeconds := factorLockTtlSeconds
  guess := factorGuess env factor
  clears := false
  window_eq := rfl
  ttl_eq := rfl
  lock_ne h := nomatch h

/-- The application with calls of `verify_challenge` only. -/
def verifications (env : Env) : Service schema World AuthError Result :=
  (application env).only fun call => ∃ token code, call = .verifyChallenge token code

section Calls

variable {env : Env} {factor : Uuid} {i : Nat} {t : List Event} {token : Token} {code : String}

theorem mute_taken (key : CacheKey) (value : Option key.Value) (h : key ≠ .factorLock factor)
    (h' : key ≠ (factorGuard env factor).counter) :
    (factorGuard env factor).Mute (.taken key value) :=
  ⟨fun _ => rfl, fun heq => h (Option.some.inj heq), fun heq => h' (Option.some.inj heq)⟩

/-- What follows a completed check means nothing to the lock. -/
theorem rests_complete (user : Uuid) (workflow : Workflow) (method : String) :
    (factorGuard env factor).Rests i (MFAControl.complete i user workflow method) := by
  have haudit : ∀ entry, (factorGuard env factor).Mute (.audited entry) :=
    fun _ => ⟨fun _ => rfl, (fun heq => nomatch heq), fun heq => nomatch heq⟩
  unfold MFAControl.complete
  split
  · split
    · exact rests_fail _
    · refine .bind (rests_attempt (lockOnly_link _ _ _ _)
        (fun _ _ => ⟨rfl, fun _ => trivial⟩) fun _ => ?_) fun result => ?_
      · exact ⟨fun _ => rfl, (fun heq => nomatch heq), fun heq => nomatch heq⟩
      · split
        · exact rests_fail _
        · exact rests_fail _
        · exact .bind (rests_audit haudit) fun _ => rests_pure _
  · refine .bind (rests_set (mute_put (fun heq => nomatch heq) fun heq => nomatch heq))
      fun _ => ?_
    exact .bind (rests_audit haudit) fun _ => rests_pure _

/-- The events of another factor, and of the other methods, mean nothing to the lock. -/
theorem mute_otpTried (user : Uuid) (purpose : OtpPurpose) (candidate : Digest) (n : Nat)
    (outcome : Int) : (factorGuard env factor).Mute (.otpTried user purpose candidate n outcome) :=
  ⟨fun _ => rfl, (fun heq => nomatch heq), fun heq => nomatch heq⟩

theorem mute_mfa (event : MFAEvent) : (factorGuard env factor).Mute (.mfa event) :=
  ⟨fun _ => rfl, (fun heq => nomatch heq), fun heq => nomatch heq⟩

/-- Where a check of a code leaves the call; `bound` says that the code is for this factor. -/
def Compared (env : Env) (factor : Uuid) (bound : Prop) (t : List Event) :
    Except AuthError Bool → Prop
  | .ok false => ¬bound ∧ (factorGuard env factor).phase t = .out ∨
      bound ∧ ((factorGuard env factor).phase t = .checking ∨
        (factorGuard env factor).phase t = .guessed)
  | _ => (factorGuard env factor).phase t = .out ∨ (factorGuard env factor).phase t = .checking

theorem obeys_factorIsLocked {id : Uuid} {allowed : List Event → Event → Prop}
    {after : List Event → Except AuthError Bool → Prop}
    (h : ∀ value, allowed t (.got (.factorLock id) value) ∧
      after (.got (.factorLock id) value :: t) (.ok value.isSome)) :
    (conduct allowed).Obeys i after t (Redis.factorIsLocked id) :=
  .bind (obeys_get h)

/-- The comparison of a code with the factor it is for. -/
theorem clock_guess (factor : Uuid) (now : Time) {user : Uuid} {row : MFADevice} {secret : String}
    (hsecret : MFAControl.openSecret env user row = some (some secret))
    (hcall : t.getLast? = some (.called (.verifyChallenge token code))) :
    (factorGuard env factor).kind (.mfa (.factor user factor (some row)) :: t) (.clock now) =
      .guess (env.totpVerify secret code row.lastTotpStep now).isSome := by
  have hguess : (factorGuard env factor).guess
      (.clock now :: .mfa (.factor user factor (some row)) :: t) =
        some (env.totpVerify secret code row.lastTotpStep now).isSome := by
    unfold factorGuard factorGuess
    dsimp only
    rw [hsecret, hcall]
    exact if_pos rfl
  rw [Guard.kind_clock, hguess]

theorem clock_other (now : Time) {e : Event}
    (h : ∀ user row, e ≠ .mfa (.factor user factor (some row))) :
    (factorGuard env factor).kind (e :: t) (.clock now) = .other := by
  have hguess : (factorGuard env factor).guess (.clock now :: e :: t) = none := by
    change factorGuess env factor (.clock now :: e :: t) = none
    unfold factorGuess
    split
    · rename_i user id row t' heq
      obtain ⟨rfl, rfl⟩ := List.cons.inj (List.cons.inj heq).2
      split
      · exact if_neg fun hid => h user row (by rw [hid])
      · rfl
    · rfl
  rw [Guard.kind_clock, hguess]

/-- A check of a code against this factor. -/
theorem obeys_verifyTotp {user : Uuid} (hout : (factorGuard env factor).phase t = .out)
    (hcall : t.getLast? = some (.called (.verifyChallenge token code))) :
    (conduct (factorGuard env factor).Allows).Obeys i (Compared env factor True) t
      (MFAControl.verifyTotp env user factor code) := by
  unfold MFAControl.verifyTotp
  refine .bind (obeys_factorIsLocked fun value => ?_)
  cases value with
  | some value =>
      obtain ⟨hallows, hphase⟩ := out_of_mute (t := t) mute_got_some hout
      exact ⟨hallows, Or.inl hphase⟩
  | none =>
      obtain ⟨hallows, hphase⟩ := allows_pass (Or.inl hout)
      refine ⟨hallows, Conduct.Obeys.bind (obeys_look (fun _ _ => ⟨rfl, fun _ => trivial⟩)
        fun found => ?_)⟩
      obtain ⟨hallows', hphase'⟩ := out_of_mute (mute_mfa (.factor user factor found)) hphase
      refine ⟨hallows', ?_⟩
      have hfalse : Compared env factor True (.mfa (.factor user factor found) ::
          .got (.factorLock factor) none :: t) (.ok false) := Or.inr ⟨trivial, Or.inl hphase'⟩
      cases found with
      | none => exact hfalse
      | some row =>
          change (conduct _).Obeys _ _ _ (ite (row.status ≠ .active) _ _)
          split
          · exact hfalse
          · split
            · exact hfalse
            · exact Or.inr hphase'
            · rename_i secret hsecret
              refine Conduct.Obeys.bind (obeys_clock fun now => ?_)
              have hcall' : (.got (.factorLock factor) none :: t).getLast? =
                  some (.called (.verifyChallenge token code)) := by
                rw [List.getLast?_cons, hcall]
                rfl
              have hguess := clock_guess factor now hsecret hcall'
              obtain ⟨hallows'', hphase''⟩ := allows_guess hguess hphase' rfl
              refine ⟨hallows'', ?_⟩
              rw [Conduct.then_ok]
              cases hverify : env.totpVerify secret code row.lastTotpStep now with
              | none =>
                  rw [hverify] at hphase''
                  exact Or.inr ⟨trivial, Or.inr hphase''⟩
              | some step =>
                  rw [hverify] at hphase''
                  refine obeys_transact (lockOnly_changeFactor _ _ _)
                    (fun _ _ => ⟨rfl, fun _ => trivial⟩) (fun advanced => ?_) (Or.inr hphase'')
                  obtain ⟨hallows₃, hphase₃⟩ := out_of_mute (mute_mfa
                    (.totpAdvanced factor row.lastTotpStep step now advanced)) hphase''
                  refine ⟨hallows₃, ?_⟩
                  cases advanced with
                  | false => exact Or.inr ⟨trivial, Or.inl hphase₃⟩
                  | true => exact Or.inr hphase₃

theorem compared_of_out {bound : Prop} (hbound : ¬bound)
    (h : (factorGuard env factor).phase t = .out) (result : Except AuthError Bool) :
    Compared env factor bound t result := by
  match result with
  | .ok false => exact Or.inl ⟨hbound, h⟩
  | .ok true => exact Or.inl h
  | .error _ => exact Or.inl h

/-- A check against another factor means nothing to the lock of this one. -/
theorem rests_verifyTotp {user id : Uuid} (hid : id ≠ factor) :
    (factorGuard env factor).Rests i (MFAControl.verifyTotp env user id code) := by
  intro t
  unfold MFAControl.verifyTotp
  refine .bind (obeys_factorIsLocked fun value => ?_)
  have hmute : (factorGuard env factor).Mute (.got (.factorLock id) value) :=
    mute_got fun heq => hid (CacheKey.factorLock.inj heq)
  refine ⟨hmute.allows, ?_⟩
  cases value with
  | some value => exact hmute.phase
  | none =>
      refine Conduct.Obeys.bind (obeys_look (fun _ _ => ⟨rfl, fun _ => trivial⟩) fun found => ?_)
      obtain ⟨hallows, hphase⟩ :=
        out_of_mute (mute_mfa (.factor user id found)) (hmute.phase (t := t))
      refine ⟨hallows, ?_⟩
      cases found with
      | none => exact hphase
      | some row =>
          change (conduct _).Obeys _ _ _ (ite (row.status ≠ .active) _ _)
          split
          · exact hphase
          · split
            · exact hphase
            · exact hphase
            · refine Conduct.Obeys.bind (obeys_clock fun now => ?_)
              have hkind : (factorGuard env factor).kind (.mfa (.factor user id (some row)) ::
                  .got (.factorLock id) none :: t) (.clock now) = .other :=
                clock_other now fun user' row' heq => by
                  cases heq
                  exact hid rfl
              obtain ⟨hallows', hphase'⟩ := allows_other hkind rfl hphase
              refine ⟨hallows', ?_⟩
              rw [Conduct.then_ok]
              split
              · exact hphase'
              · refine obeys_transact (lockOnly_changeFactor _ _ _)
                  (fun _ _ => ⟨rfl, fun _ => trivial⟩) (fun advanced => ?_) hphase'
                exact out_of_mute (mute_mfa _) hphase'

/-- A failed check is counted, and the third one sets the lock. -/
theorem obeys_recordFailure {payload : Challenge} (h : Compared env factor
    (payload.method = .totp ∧ payload.factorId = some factor) t (.ok false)) :
    (conduct (factorGuard env factor).Allows).Obeys i
      (fun t' _ => (factorGuard env factor).phase t' = .out) t
      (MFAControl.recordFailure token payload) := by
  unfold MFAControl.recordFailure
  split
  · rename_i id hmethod hid
    unfold MFAControl.recordFactorFailure
    refine .bind (obeys_count fun n => ?_)
    rcases h with ⟨hbound, hout⟩ | ⟨⟨_, hsome⟩, hphase⟩
    · have hne : id ≠ factor := fun heq => hbound ⟨hmethod, heq ▸ hid⟩
      have hcounted : (factorGuard env factor).Mute
          (.counted "mfa_factor_failure" (.id id) MFAControl.mfaFailureWindow n) :=
        mute_counted (fun heq => nomatch heq) fun heq =>
          hne (Subject.id.inj (CacheKey.rateLimit.inj heq).2)
      obtain ⟨hallows, hphase⟩ := out_of_mute hcounted hout
      refine ⟨hallows, ?_⟩
      change (conduct _).Obeys _ _ _ (ite (MFAControl.mfaFailureLimit ≤ n) _ _)
      split
      · have hput : (factorGuard env factor).Mute (.put (.factorLock id) () factorLockTtlSeconds) :=
          mute_put (fun heq => hne (CacheKey.factorLock.inj heq)) fun heq => nomatch heq
        exact obeys_set (out_of_mute hput hphase)
      · exact hphase
    · obtain rfl : factor = id := Option.some.inj (hsome.symm.trans hid)
      obtain ⟨hallows, hphase'⟩ := allows_count (n := n) hphase
      refine ⟨hallows, ?_⟩
      change (conduct _).Obeys _ _ _ (ite (MFAControl.mfaFailureLimit ≤ n) _ _)
      split
      · rename_i hlast
        exact obeys_set (allows_put (Or.inl (hphase'.trans (if_pos hlast))))
      · rename_i hless
        exact hphase'.trans (if_neg hless)
  · rename_i hother
    rcases h with ⟨_, hout⟩ | ⟨⟨hmethod, hsome⟩, _⟩
    · refine Conduct.Obeys.bind (obeys_count fun n => ?_)
      have hcounted : (factorGuard env factor).Mute
          (.counted "mfa_challenge_failure" (.id payload.userId) MFAControl.mfaFailureWindow n) :=
        mute_counted (fun heq => nomatch heq) fun heq => by
          have hroute : "mfa_challenge_failure" = "mfa_factor_failure" :=
            (CacheKey.rateLimit.inj heq).1
          exact absurd hroute (by decide)
      obtain ⟨hallows, hphase⟩ := out_of_mute hcounted hout
      refine ⟨hallows, ?_⟩
      change (conduct _).Obeys _ _ _ (ite (MFAControl.mfaFailureLimit ≤ n) _ _)
      split
      · refine Conduct.Obeys.bind (obeys_getdel fun value => ?_)
        have htaken : (factorGuard env factor).Mute (.taken (.mfaChallenge token) value) :=
          mute_taken _ _ (fun heq => nomatch heq) fun heq => nomatch heq
        exact out_of_mute htaken hphase
      · exact hphase
    · exact absurd hsome (hother factor hmethod)

/-- The check that the challenge asks for. -/
theorem obeys_checkCode {payload : Challenge} {value : Option Challenge}
    (ht : t = [.got (.mfaChallenge token) value, .called (.verifyChallenge token code)])
    (hout : (factorGuard env factor).phase t = .out) :
    (conduct (factorGuard env factor).Allows).Obeys i
      (Compared env factor (payload.method = .totp ∧ payload.factorId = some factor)) t
      (MFAControl.checkCode env token payload code) := by
  have hcall : t.getLast? = some (.called (.verifyChallenge token code)) := by
    rw [ht]
    rfl
  unfold MFAControl.checkCode
  split
  · split
    · exact Or.inl hout
    · rename_i hmethod _ id hid
      by_cases heq : id = factor
      · subst heq
        refine (obeys_verifyTotp hout hcall).mono fun t' result h => ?_
        match result, h with
        | .ok false, Or.inr ⟨_, hphase⟩ => exact Or.inr ⟨⟨hmethod, hid⟩, hphase⟩
        | .ok true, h => exact h
        | .error _, h => exact h
      · refine (rests_verifyTotp heq t).mono fun t' result hphase => ?_
        refine compared_of_out (fun hbound => heq ?_) (hphase.trans hout) result
        exact Option.some.inj (hid.symm.trans hbound.2)
  · rename_i hmethod
    refine .bind (obeys_verifyAndConsumeOtp fun outcome => ?_)
    obtain ⟨hallows, hphase⟩ := out_of_mute (mute_otpTried _ _ _ _ outcome) hout
    refine ⟨hallows, compared_of_out (fun hbound => ?_) hphase _⟩
    rw [hmethod] at hbound
    exact nomatch hbound.1
  · rename_i hmethod
    refine .bind (obeys_verifyAndConsumeOtp fun outcome => ?_)
    obtain ⟨hallows, hphase⟩ := out_of_mute (mute_otpTried _ _ _ _ outcome) hout
    refine ⟨hallows, compared_of_out (fun hbound => ?_) hphase _⟩
    rw [hmethod] at hbound
    exact nomatch hbound.1
  · rename_i hmethod
    have hnone : ¬(payload.method = .totp ∧ payload.factorId = some factor) := by
      rw [hmethod]
      exact fun hbound => nomatch hbound.1
    refine .bind (obeys_clock fun now => ?_)
    have hkind : (factorGuard env factor).kind t (.clock now) = .other := by
      rw [ht]
      exact clock_other now fun _ _ heq => nomatch heq
    obtain ⟨hallows, hphase⟩ := allows_other hkind rfl hout
    refine ⟨hallows, ?_⟩
    have hrests : (factorGuard env factor).Rests i
        (MFARepository.consumeBackupCode payload.userId (env.backupHash code) now) := by
      refine rests_txn (fun found => (lockOnly_takeCode _ _ _ _).bind fun _ => trivial)
        (fun _ _ => ⟨rfl, fun _ => trivial⟩) (fun _ _ => ⟨rfl, fun _ => trivial⟩)
        (fun _ => mute_mfa _) (fun _ => mute_mfa _) fun result => ?_
      cases result with
      | ok _ => exact rests_pure _
      | error _ => exact rests_fail _
    exact (hrests _).mono fun t' result hsame => compared_of_out hnone (hsame.trans hphase) result
  · rename_i hmethod
    refine compared_of_out (fun hbound => ?_) hout _
    rw [hmethod] at hbound
    exact nomatch hbound.1

/-- A call of `verify_challenge` keeps the order of its steps. -/
theorem obeys_verifyChallenge :
    (conduct (factorGuard env factor).Allows).Obeys i
      ((conduct (factorGuard env factor).Allows).Ends .returned)
      [.called (.verifyChallenge token code)] (MFAControl.verifyChallenge env i token code) := by
  unfold MFAControl.verifyChallenge
  refine .bind (obeys_get fun value => ?_)
  have hstart : (factorGuard env factor).phase [.called (.verifyChallenge token code)] = .out := rfl
  have hgot : (factorGuard env factor).Mute (.got (.mfaChallenge token) value) :=
    mute_got fun heq => nomatch heq
  obtain ⟨hallows, hphase⟩ := out_of_mute hgot hstart
  refine ⟨hallows, ?_⟩
  cases value with
  | none => exact ends_returned (Or.inl hphase) _
  | some payload =>
      change (conduct _).Obeys _ _ _ (ite (payload.purpose ≠ .verify) _ _)
      split
      · exact ends_returned (Or.inl hphase) _
      · refine Conduct.Obeys.bind ((obeys_checkCode rfl hphase).mono fun t' valid h => ?_)
        match valid, h with
        | .error _, h => exact ends_returned h _
        | .ok false, h =>
            refine Conduct.Obeys.bind ((obeys_recordFailure h).mono fun t'' result hout => ?_)
            cases result with
            | ok _ => exact ends_returned (Or.inl hout) _
            | error _ => exact ends_returned (Or.inl hout) _
        | .ok true, h =>
            refine Conduct.Obeys.bind (obeys_getdel fun value => ?_)
            have htaken : (factorGuard env factor).Mute (.taken (.mfaChallenge token) value) :=
              mute_taken _ _ (fun heq => nomatch heq) fun heq => nomatch heq
            refine ⟨htaken.allows, ?_⟩
            cases value with
            | none => exact ends_returned (by rwa [htaken.phase]) _
            | some consumed =>
                refine Conduct.Obeys.bind ((rests_complete _ _ _ _).mono fun t'' result hsame => ?_)
                have hlast : (factorGuard env factor).phase t'' = .out ∨
                    (factorGuard env factor).phase t'' = .checking := by
                  rwa [hsame, htaken.phase]
                cases result with
                | ok _ => exact ends_returned hlast _
                | error _ => exact ends_returned hlast _

/-- The calls of `verify_challenge` keep the order that the lock of a factor asks for. -/
theorem governs_verifications (env : Env) (factor : Uuid) :
    (conduct (factorGuard env factor).Allows).Governs (verifications env) .returned := by
  refine ⟨?_, fun i result d w => ⟨rfl, trivial⟩, fun _ _ => rfl⟩
  rintro i ⟨_, token, code, rfl⟩
  have hcalled : (factorGuard env factor).Allows [] (.called (.verifyChallenge token code)) ∧
      (factorGuard env factor).phase [.called (.verifyChallenge token code)] = .out :=
    allows_other rfl rfl rfl
  exact ⟨.called (.verifyChallenge token code), hcalled.1, fun _ _ => ⟨rfl, trivial⟩,
    obeys_verifyChallenge⟩

end Calls

/-- Calls of `verify_challenge` on a TOTP factor that pass the check of its lock only while the
failures of the window and the calls between their check and their count are below the limit. -/
theorem wrong_codes_bounded {env : Env} {factor : Uuid} {c : Core Db World}
    (hlog : c.store.log = []) {r s : Config schema World AuthError Result}
    (hbefore : Guarded (verifications env) (factorGuard env factor).Careful (Service.start c) r)
    {m : Move (verifications env)} (hexec : (verifications env).exec r m = some s) {i n : Nat}
    (hcount : s.core.store.log =
      (i, .counted "mfa_factor_failure" (.id factor) 900 n) :: r.core.store.log) :
    (r.core.store.cache.get r.core.store.now (.rateLimit "mfa_factor_failure" (.id factor)) = none →
      ∀ s', Guarded (verifications env) (factorGuard env factor).Careful s s' →
        s'.core.store.now < s.core.store.now + seconds 900 →
        (factorGuard env factor).wrongGuesses s'.core.store.log +
            (factorGuard env factor).uncounted r.core.store.log ≤
          (factorGuard env factor).wrongGuesses r.core.store.log + 3) ∧
    (3 ≤ n → ∀ s', Guarded (verifications env) (factorGuard env factor).Careful s s' →
      (factorGuard env factor).guesses s'.core.store.log =
          (factorGuard env factor).guesses s.core.store.log ∨
        ∃ x y j value ttl, Guarded (verifications env) (fun _ _ => True) s x ∧
          y.core.store.log = (j, .put (.factorLock factor) value ttl) :: x.core.store.log ∧
          Guarded (verifications env) (fun _ _ => True) y s' ∧
          y.core.store.now + seconds 900 ≤ s'.core.store.now) := by
  obtain ⟨hwindow, hlock⟩ := (factorGuard env factor).bounds (governs_verifications env factor) rfl
    hlog hbefore hexec hcount
  refine ⟨fun hnone s' hrun => hwindow hnone s' (hrun.mono fun _ _ h => ⟨h, ?_⟩), hlock⟩
  exact fun hclears => nomatch hclears

/-- Ann has an authenticator and a challenge for it. -/
def guessCore : Core Db World :=
  let db := { sampleDb [⟨.given 1, "ann", .active⟩] with
    mfaDevices := sampleTable [(.given 1,
      ⟨.given 1, .totp, some (.sealed "sealed"), .active, none, none, none, none, none⟩)] }
  let challenge : Challenge := ⟨.verify, .totp, .given 1, some (.given 1),
    ⟨.given 1, .mfaRequired, none, [], none, none, none, none⟩⟩
  let cache : Cache := fun _ => none
  ⟨db, ⟨1000000, cache.put (.mfaChallenge (.given 7)) challenge (some (1000000 + seconds 300)),
    [], []⟩⟩

/-- Call `i` presents a wrong code and runs for `n` steps. -/
def guessCode (i n : Nat) : List (Move (verifications sampleEnv)) :=
  .call i ⟨.verifyChallenge (.given 7) "guess", _, _, rfl⟩ :: List.replicate n (.step i 0)

abbrev annGuard : Guard :=
  factorGuard sampleEnv (.given 1)

/-- Three calls one after the other, up to each count of the first and the third failure. -/
theorem three_wrong_codes :
    (∃ r s s', (verifications sampleEnv).exec r (.step 0 0) = some s ∧
      Guarded (verifications sampleEnv) annGuard.Careful s s' ∧
      annGuard.wrongGuesses s'.core.store.log + annGuard.uncounted r.core.store.log ≤
        annGuard.wrongGuesses r.core.store.log + 3) ∧
    ∃ r s s', (verifications sampleEnv).exec r (.step 2 0) = some s ∧
      Guarded (verifications sampleEnv) annGuard.Careful s s' ∧
      annGuard.guesses s'.core.store.log = annGuard.guesses s.core.store.log := by
  have hopens : (chain (verifications sampleEnv) annGuard.careful guessCore (guessCode 0 4)
      (.step 0 0) (.step 0 0 :: guessCode 1 6 ++ guessCode 2 7)).map (fun run =>
        (annGuard.lastCount run.2.1.core.store.log,
          decide (run.2.1.core.store.log.length = run.1.core.store.log.length + 1),
          (run.1.core.store.cache.get run.1.core.store.now annGuard.counter).isNone,
          decide (run.2.2.core.store.now < run.2.1.core.store.now + seconds 900))) =
        some (some (0, 1), true, true, true) := by
    decide +kernel
  have hlasts : (chain (verifications sampleEnv) annGuard.careful guessCore
      (guessCode 0 6 ++ guessCode 1 6 ++ guessCode 2 4)
      (.step 2 0) ([.step 2 0, .step 2 0] ++ guessCode 3 3)).map (fun run =>
        (annGuard.lastCount run.2.1.core.store.log,
          decide (run.2.1.core.store.log.length = run.1.core.store.log.length + 1),
          run.2.2.core.store.now)) =
        some (some (2, 3), true, 1000000) := by
    decide +kernel
  have hgoverns := governs_verifications sampleEnv (.given 1)
  constructor
  · obtain ⟨r, s, s', hbefore, hexec, hrun, hfacts⟩ := of_chain hopens fun _ _ => careful_of_check
    obtain ⟨hcount, hfacts⟩ := Prod.mk.inj hfacts
    obtain ⟨hnew, hfacts⟩ := Prod.mk.inj hfacts
    obtain ⟨hnone, hwithin⟩ := Prod.mk.inj hfacts
    have horderly := hbefore.orderly hgoverns (Conduct.orderly_start rfl)
    have hlog := log_of_lastCount hgoverns horderly hexec hcount (of_decide_eq_true hnew)
    refine ⟨r, s, s', hexec, hrun, ?_⟩
    exact (wrong_codes_bounded rfl hbefore hexec hlog).1 (Option.isNone_iff_eq_none.mp hnone) s'
      hrun (of_decide_eq_true hwithin)
  · obtain ⟨r, s, s', hbefore, hexec, hrun, hfacts⟩ := of_chain hlasts fun _ _ => careful_of_check
    obtain ⟨hcount, hfacts⟩ := Prod.mk.inj hfacts
    obtain ⟨hnew, hnow⟩ := Prod.mk.inj hfacts
    have horderly := hbefore.orderly hgoverns (Conduct.orderly_start rfl)
    have hlog := log_of_lastCount hgoverns horderly hexec hcount (of_decide_eq_true hnew)
    refine ⟨r, s, s', hexec, hrun, ?_⟩
    rcases (wrong_codes_bounded rfl hbefore hexec hlog).2 (Nat.le_refl 3) s' hrun with
      hsame | ⟨_, _, _, _, _, _, _, _, hexpired⟩
    · exact hsame
    · have hnow' : s'.core.store.now = 1000000 := hnow
      rw [hnow'] at hexpired
      exact absurd (Nat.le_trans (Nat.le_add_left _ _) hexpired) (by decide)

/-- Five calls pass the check of the lock before any of them counts its failure.  After the first
failure has opened the window four more wrong codes are compared, two of them after the third
failure, and no time has passed. -/
theorem wrong_codes_past_the_lock : ∃ r s s' s'',
    Guarded (verifications sampleEnv) (fun _ _ => True) (Service.start guessCore) r ∧
    (verifications sampleEnv).exec r (.step 0 0) = some s ∧
    Guarded (verifications sampleEnv) (fun _ _ => True) s s' ∧
    Guarded (verifications sampleEnv) (fun _ _ => True) s' s'' ∧
    r.core.store.cache.get r.core.store.now (.rateLimit "mfa_factor_failure" (.id (.given 1))) =
      none ∧
    annGuard.lastCount s.core.store.log = some (0, 1) ∧
    annGuard.lastCount s'.core.store.log = some (2, 3) ∧
    s''.core.store.now = r.core.store.now ∧
    annGuard.wrongGuesses s''.core.store.log = annGuard.wrongGuesses s.core.store.log + 4 ∧
    annGuard.guesses s''.core.store.log = annGuard.guesses s'.core.store.log + 2 := by
  have hrun : ((chain (verifications sampleEnv) (fun _ _ => true) guessCore
      (guessCode 0 4 ++ guessCode 1 2 ++ guessCode 2 2 ++ guessCode 3 2 ++ guessCode 4 2)
      (.step 0 0)
      [.step 1 0, .step 1 0, .step 1 0, .step 2 0, .step 2 0, .step 2 0]).bind fun run =>
        (guardedRun (verifications sampleEnv) (fun _ _ => true) run.2.2
          [.step 2 0, .step 3 0, .step 3 0, .step 4 0, .step 4 0]).map fun last =>
        ((run.1.core.store.cache.get run.1.core.store.now annGuard.counter).isNone,
          annGuard.lastCount run.2.1.core.store.log, annGuard.lastCount run.2.2.core.store.log,
          decide (last.core.store.now = run.1.core.store.now ∧
            annGuard.wrongGuesses last.core.store.log =
              annGuard.wrongGuesses run.2.1.core.store.log + 4 ∧
            annGuard.guesses last.core.store.log =
              annGuard.guesses run.2.2.core.store.log + 2))) =
      some (true, some (0, 1), some (2, 3), true) := by
    decide +kernel
  obtain ⟨⟨r, s, s'⟩, hchain, hlast⟩ := Option.bind_eq_some_iff.mp hrun
  obtain ⟨s'', hlast, hfacts⟩ := Option.map_eq_some_iff.mp hlast
  obtain ⟨hbefore, hexec, hmiddle⟩ :
      Guarded (verifications sampleEnv) (fun _ _ => True) (Service.start guessCore) r ∧
        (verifications sampleEnv).exec r (.step 0 0) = some s ∧
        Guarded (verifications sampleEnv) (fun _ _ => True) s s' :=
    of_chain_eq hchain fun _ _ _ => trivial
  obtain ⟨hnone, hfacts⟩ := Prod.mk.inj hfacts
  obtain ⟨hfirst, hfacts⟩ := Prod.mk.inj hfacts
  obtain ⟨hthird, hfacts⟩ := Prod.mk.inj hfacts
  exact ⟨r, s, s', s'', hbefore, hexec, hmiddle, guarded_of_run hlast fun _ _ _ => trivial,
    Option.isNone_iff_eq_none.mp hnone, hfirst, hthird, of_decide_eq_true hfacts⟩

end AuthCore
