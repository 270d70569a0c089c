/-
Users with several authenticators.  A challenge is bound to one of them; the codes of the others
are compared with its secret.
-/
import AuthCore.Codes.ChallengeRequests
import AuthCore.Accounts.PublicRequests
import AuthCore.Accounts.Factors

namespace AuthCore

open Interleave Relational MFAControl

/-- The code `code` works for the authenticator `g` of `u`: it is not locked, and the code is that
of a step of the current window after the last one that was accepted. -/
def Works (env : Env) (u g : Uuid) (code : String) (c : Core Db World) : Prop :=
  (c.store.cache.get c.store.now (.factorLock g)).isSome = false ∧
    ∃ row secret step, MFARepository.factorOf u g c.db = some row ∧ row.status = .active ∧
      openSecret env u row = some (some secret) ∧ step ∈ candidateSteps c.store.now ∧
      (∀ last, row.lastTotpStep = some last → last < step) ∧ env.totpAt secret step = code

/-- A call that does not reject the code: only the link of a collision can still fail. -/
def CodeAccepted {α : Type} (result : Except AuthError α) : Prop :=
  ∀ error, result = .error error → error = workflowInvalid

namespace MFAControl

/-- The answer of `_verify_totp` over one state. -/
def checkedTotp (env : Env) (u g : Uuid) (code : String) (c : Core Db World) :
    Except AuthError Bool :=
  if (c.store.cache.get c.store.now (.factorLock g)).isSome then .error factorLocked
  else
    match MFARepository.factorOf u g c.db with
    | none => .ok false
    | some row =>
        if row.status ≠ .active then .ok false
        else
          match openSecret env u row with
          | none => .ok false
          | some none => .error .unhandled
          | some (some secret) =>
              .ok (env.totpVerify secret code row.lastTotpStep c.store.now).isSome

variable {env : Env} {me i : Nat} {providers : Providers} {token : Token} {u g : Uuid}
  {code : String} {c : Core Db World}

theorem verified_iff {secret : String} {last : Option Nat} {now : Time} :
    (env.totpVerify secret code last now).isSome = true ↔ ∃ step ∈ candidateSteps now,
      (∀ l, last = some l → l < step) ∧ env.totpAt secret step = code := by
  unfold Env.totpVerify
  rw [List.find?_isSome]
  refine exists_congr fun step => and_congr_right fun _ => ?_
  rw [Bool.and_eq_true, beq_iff_eq]
  refine and_congr_left fun _ => ?_
  cases last with
  | none => simp
  | some l => simp

theorem works_iff : Works env u g code c ↔ checkedTotp env u g code c = .ok true := by
  unfold Works checkedTotp
  by_cases hlocked : (c.store.cache.get c.store.now (.factorLock g)).isSome = true
  · simp [hlocked]
  · rw [if_neg hlocked]
    cases hrow : MFARepository.factorOf u g c.db with
    | none => simp
    | some row =>
        dsimp only
        by_cases hactive : row.status = .active
        · rw [if_neg (not_not.mpr hactive)]
          rcases hsecret : openSecret env u row with _ | _ | secret
          · simp [hsecret]
          · simp [hsecret]
          · simp only [Except.ok.injEq, verified_iff]
            simp [hlocked, hactive, hsecret]
        · rw [if_pos hactive]
          simp [hactive]

theorem solo_factorIsLocked : ∃ w, (Redis.factorIsLocked g).solo i providers.allow c =
      some (.ok (c.store.cache.get c.store.now (.factorLock g)).isSome, ⟨c.db, w⟩) ∧
    w.cache = c.store.cache ∧ w.now = c.store.now :=
  ⟨_, rfl, rfl, rfl⟩

theorem solo_factor : ∃ w, (MFARepository.factor u g).solo i providers.allow c =
      some (.ok (MFARepository.factorOf u g c.db), ⟨c.db, w⟩) ∧
    w.cache = c.store.cache ∧ w.now = c.store.now :=
  ⟨_, solo_look fun _ _ => rfl, rfl, rfl⟩

theorem solo_clock : ∃ w, clock.solo i providers.allow c =
      some (.ok c.store.now, ⟨c.db, w⟩) ∧
    w.cache = c.store.cache ∧ w.now = c.store.now :=
  ⟨_, solo_act fun _ _ => rfl, rfl, rfl⟩

theorem solo_transact {β : Type} {event : β → Event} {body : Trans β} {b : β} {change : Db → Db}
    (hlocks : body.LockOnly) (halone : body.alone c.db id = .ok (b, change)) :
    (transact event body).solo i providers.allow c =
      some (.ok b, ⟨change c.db, c.store.record i (event b)⟩) := by
  unfold transact
  rw [Prog.solo_txn_of_lockOnly i providers.allow _ hlocks _ c, halone]
  rfl

theorem alone_advance {row : MFADevice} {step : Nat} {now : Time} {d : Db}
    (hrow : d.mfaDevices.get g = some row) (hactive : row.status = .active) :
    (MFARepository.advance g row.lastTotpStep step now).alone d id =
      .ok (true, (DbChange.setFactor g fun row =>
        { row with lastTotpStep := some step, lastUsedAt := some now }).apply) := by
  change Tx.alone d id (match d.mfaDevices.get g with
    | none => return false
    | some found =>
        if found.status == .active && found.lastTotpStep == row.lastTotpStep then do
          write (DbChange.setFactor g fun row =>
            { row with lastTotpStep := some step, lastUsedAt := some now })
          return true
        else return false : Trans Bool) = _
  rw [hrow]
  dsimp only
  rw [if_pos (by simp [hactive])]
  rfl

/-- The step of a factor that was looked at just before advances. -/
theorem solo_advanceTotpStep {row : MFADevice} {step : Nat} {now : Time}
    (hrow : c.db.mfaDevices.get g = some row) (hactive : row.status = .active) : ∃ d w,
    (MFARepository.advanceTotpStep g row.lastTotpStep step now).solo i providers.allow c =
      some (.ok true, ⟨d, w⟩) ∧
    w.cache = c.store.cache ∧ w.now = c.store.now :=
  ⟨_, _, solo_transact (lockOnly_changeFactor _ _ _) (alone_advance hrow hactive), rfl, rfl⟩

theorem solo_verifyTotp : ∃ d w,
    (verifyTotp env u g code).solo i providers.allow c =
      some (checkedTotp env u g code c, ⟨d, w⟩) ∧
    w.cache = c.store.cache ∧ w.now = c.store.now := by
  obtain ⟨w₁, hlock, hcache₁, hnow₁⟩ := @solo_factorIsLocked i providers g c
  obtain ⟨w₂, hfactor, hcache₂, hnow₂⟩ := @solo_factor i providers u g ⟨c.db, w₁⟩
  obtain ⟨w₃, hclock, hcache₃, hnow₃⟩ := @solo_clock i providers ⟨c.db, w₂⟩
  have hnow : w₂.now = c.store.now := hnow₂.trans hnow₁
  have hcache : w₂.cache = c.store.cache := hcache₂.trans hcache₁
  unfold verifyTotp checkedTotp
  rw [Prog.solo_bind_ok hlock]
  by_cases hlocked : (c.store.cache.get c.store.now (.factorLock g)).isSome = true
  · rw [if_pos hlocked, if_pos hlocked]
    exact ⟨_, w₁, rfl, hcache₁, hnow₁⟩
  · rw [if_neg hlocked, if_neg hlocked, Prog.solo_bind_ok hfactor]
    dsimp only
    cases hrow : MFARepository.factorOf u g c.db with
    | none => exact ⟨_, w₂, rfl, hcache, hnow⟩
    | some row =>
        dsimp only
        by_cases hactive : row.status = .active
        · rw [if_neg (not_not.mpr hactive), if_neg (not_not.mpr hactive)]
          rcases openSecret env u row with _ | _ | secret
          · exact ⟨_, w₂, rfl, hcache, hnow⟩
          · exact ⟨_, w₂, rfl, hcache, hnow⟩
          · dsimp only
            rw [Prog.solo_bind_ok hclock]
            dsimp only at hnow₃ hcache₃ ⊢
            rw [hnow]
            cases env.totpVerify secret code row.lastTotpStep c.store.now with
            | none => exact ⟨_, w₃, rfl, hcache₃.trans hcache, hnow₃.trans hnow⟩
            | some step =>
                have hget : c.db.mfaDevices.get g = some row := (Option.filter_eq_some_iff.mp hrow).1
                obtain ⟨d, w₄, hadvanced, hcache₄, hnow₄⟩ := @solo_advanceTotpStep i providers _
                  ⟨c.db, w₃⟩ _ step c.store.now hget hactive
                exact ⟨d, w₄, hadvanced, hcache₄.trans (hcache₃.trans hcache),
                  hnow₄.trans (hnow₃.trans hnow)⟩
        · rw [if_pos hactive, if_pos hactive]
          exact ⟨_, w₂, rfl, hcache, hnow⟩

variable {challenge : Token} {payload : Challenge}

theorem ends_count {α : Type} {P : Except AuthError α → Prop} {route : String} {subject : Subject}
    {window : Nat} {k : Nat → Proc α}
    (hrest : ∀ n w, Ends i providers P (k n) ⟨c.db, w⟩) :
    Ends i providers P (Redis.incrementRateLimit route subject window >>= k) c :=
  ends_step (fun _ _ => rfl) fun w => hrest _ w

/-- A wrong code of a challenge that is bound to a factor. -/
theorem ends_recordFailure (hmethod : payload.method = .totp) (hfactor : payload.factorId = some g) :
    Ends i providers (· = .error codeInvalid)
      (recordFailure challenge payload >>= fun _ => (fail codeInvalid : Proc Result)) c := by
  have hrecord : recordFailure challenge payload = recordFactorFailure g := by
    unfold recordFailure
    rw [hmethod, hfactor]
  rw [hrecord, recordFactorFailure, Prog.bind_assoc]
  refine ends_count fun n w => ?_
  by_cases hmany : mfaFailureLimit ≤ n
  · rw [if_pos hmany]
    exact Prog.Succeeds.bind (succeeds_set _ _ _ _) fun _ d => Prog.ends_raise rfl
  · rw [if_neg hmany]
    exact Prog.ends_raise rfl

theorem faults_link {user id : Uuid} {provider : IdentityProvider} {subject : String} :
    (MFARepository.link user provider subject id).Faults Clash :=
  (faults_reserve _ _).bind fun _ => faults_write Clash _

/-- The end of a completed check fails for its link alone. -/
theorem ends_complete {user : Uuid} {workflow : Workflow} {method : String} :
    Ends i providers CodeAccepted (complete me user workflow method) c := by
  have hinvalid : ∀ d, Ends i providers CodeAccepted (fail workflowInvalid : Proc MFACompletion) d :=
    fun d => Prog.ends_raise fun error herror => (Except.error.inj herror).symm
  have hdone : ∀ result d, Ends i providers CodeAccepted (pure result : Proc MFACompletion) d :=
    fun result d => Prog.ends_pure fun error herror => nomatch herror
  unfold complete
  by_cases hcollision : workflow.decision = .collisionProofRequired
  · rw [if_pos hcollision]
    cases workflow.oidc with
    | none => exact hinvalid c
    | some found =>
        refine Prog.ends_txn_of_faults faults_link (fun _ d => ?_) fun fault d hfault => ?_
        · change Ends i providers CodeAccepted (LoginRepository.audit _ _ _ >>= fun _ => pure _) d
          exact Prog.Succeeds.bind (succeeds_loginAudit _ _ _ d) fun _ d => hdone _ d
        · rw [hfault]
          exact hinvalid d
  · rw [if_neg hcollision]
    change Ends i providers CodeAccepted (Redis.storeLoginWorkflow _ _ >>= fun _ =>
      LoginRepository.audit _ _ _ >>= fun _ => pure _) c
    refine Prog.Succeeds.bind (succeeds_set _ _ _ c) fun _ d => ?_
    exact Prog.Succeeds.bind (succeeds_loginAudit _ _ _ d) fun _ d => hdone _ d

theorem ends_completion {user : Uuid} {workflow : Workflow} {method : String} :
    Ends i providers CodeAccepted (complete me user workflow method >>= fun completion =>
      (return Result.completion completion : Proc Result)) c := by
  obtain ⟨result, d, hsolo, haccepted⟩ := @ends_complete me i providers c user workflow method
  cases result with
  | error error =>
      refine ⟨_, d, Prog.solo_bind_error hsolo, fun error' herror => ?_⟩
      exact haccepted error' (Except.error.inj herror ▸ rfl)
  | ok completion =>
      exact ⟨.ok (.completion completion), d, Prog.solo_bind_ok hsolo,
        fun error herror => nomatch herror⟩

/-- The challenge is stored, bound to the authenticator `g`. -/
def Challenged (challenge : Token) (u g : Uuid) (workflow : Workflow) (c : Core Db World) : Prop :=
  (show Option Challenge from c.store.cache.get c.store.now (.mfaChallenge challenge)) =
    some ⟨.verify, .totp, u, some g, workflow⟩

theorem solo_getMfaChallenge : ∃ w, (Redis.getMfaChallenge challenge).solo i providers.allow c =
      some (.ok (show Option Challenge from
        c.store.cache.get c.store.now (.mfaChallenge challenge)), ⟨c.db, w⟩) ∧
    w.cache = c.store.cache ∧ w.now = c.store.now :=
  ⟨_, solo_act fun _ _ => rfl, rfl, rfl⟩

theorem works_congr {w : World} (hcache : w.cache = c.store.cache) (hnow : w.now = c.store.now) :
    checkedTotp env u g code ⟨c.db, w⟩ = checkedTotp env u g code c := by
  unfold checkedTotp
  dsimp only
  rw [hcache, hnow]

theorem refused_of_checked {error : AuthError} (h : checkedTotp env u g code c = .error error) :
    error ≠ workflowInvalid := by
  unfold checkedTotp at h
  split at h
  · cases h
    exact fun heq => nomatch heq
  · split at h
    · cases h
    · split at h
      · cases h
      · split at h
        · cases h
        · cases h
          exact fun heq => nomatch heq
        · cases h

/-- How a code for a stored challenge fares. -/
theorem ends_verifyChallenge {workflow : Workflow} (h : Challenged challenge u g workflow c) :
    Ends i providers (fun result => CodeAccepted result ↔ Works env u g code c)
      (verifyChallenge env me challenge code) c := by
  obtain ⟨w₁, hget, hcache₁, hnow₁⟩ := @solo_getMfaChallenge i providers c challenge
  obtain ⟨d₂, w₂, hverify, hcache₂, hnow₂⟩ := @solo_verifyTotp env i providers u g code ⟨c.db, w₁⟩
  rw [works_congr hcache₁ hnow₁] at hverify
  rw [show (show Option Challenge from _) = _ from h] at hget
  have hrefused : ∀ {error : AuthError}, error ≠ workflowInvalid →
      checkedTotp env u g code c ≠ .ok true →
        (CodeAccepted (.error error : Except AuthError Result) ↔ Works env u g code c) :=
    fun hother hchecked => iff_of_false (fun haccepted => hother (haccepted _ rfl))
      fun hworks => hchecked (works_iff.mp hworks)
  unfold verifyChallenge
  refine Prog.ends_bind_ok hget ?_
  dsimp only
  rw [if_neg (not_not.mpr rfl)]
  cases hchecked : checkedTotp env u g code c with
  | error error =>
      rw [hchecked] at hverify
      exact Prog.ends_bind_error hverify (hrefused (refused_of_checked hchecked)
        (hchecked ▸ fun heq => nomatch heq))
  | ok valid =>
      rw [hchecked] at hverify
      refine Prog.ends_bind_ok hverify ?_
      cases valid with
      | false =>
          rw [if_pos Bool.false_ne_true]
          refine (ends_recordFailure rfl rfl).imp fun result hresult => ?_
          rw [hresult]
          exact hrefused (fun heq => nomatch heq) (hchecked ▸ fun heq => nomatch heq)
      | true =>
          rw [if_neg (not_not.mpr rfl)]
          have hstill : (w₂.cache.get w₂.now (.mfaChallenge challenge)) =
              c.store.cache.get c.store.now (.mfaChallenge challenge) := by
            rw [hcache₂, hnow₂, hcache₁, hnow₁]
          have htaken := @solo_getdel i providers ⟨d₂, w₂⟩
            (.mfaChallenge challenge)
          rw [hstill, show c.store.cache.get c.store.now (.mfaChallenge challenge) = _ from h]
            at htaken
          refine Prog.ends_bind_ok htaken ?_
          exact ends_completion.imp fun result haccepted =>
            iff_of_true haccepted (works_iff.mpr hchecked)

end MFAControl

open MFAControl

/-- A code of one of the authenticators of the user is accepted when the challenge is bound to
this authenticator, or when it happens to work for the one the challenge is bound to. -/
theorem every_authenticator_works (env : Env) (providers : Providers) (i : Nat) (challenge : Token)
    (u f g : Uuid) (workflow : Workflow) (code : String) (c : Core Db World)
    (hchallenge : Challenged challenge u g workflow c) (hworks : Works env u f code c) :
    (∃ result c', (application env).solo providers.allow i (.verifyChallenge challenge code) c =
        some (result, c') ∧ CodeAccepted result) ↔ f = g ∨ Works env u g code c := by
  have hcalled : Challenged challenge u g workflow
      ⟨c.db, c.store.record i (.called (.verifyChallenge challenge code))⟩ := hchallenge
  obtain ⟨result, d, hsolo, hresult⟩ := @ends_verifyChallenge env i i providers _ _ code _ _ _ hcalled
  have hanswer : (application env).solo providers.allow i (.verifyChallenge challenge code) c =
      some (result, ⟨d.db, d.store.record i (.returned result)⟩) :=
    Option.map_eq_some_iff.mpr ⟨_, hsolo, rfl⟩
  have hwhen : CodeAccepted result ↔ Works env u g code c := hresult
  constructor
  · rintro ⟨result', c', hcall, haccepted⟩
    rw [hanswer] at hcall
    cases hcall
    exact Or.inr (hwhen.mp haccepted)
  · rintro (rfl | hbound)
    · exact ⟨_, _, hanswer, hwhen.mpr hworks⟩
    · exact ⟨_, _, hanswer, hwhen.mpr hbound⟩

/-- The state after some calls, the last one first, where the services outside answer as they
should. -/
def inTurn (env : Env) (calls : List (Nat × Call)) (c : Core Db World) :
    Option (Core Db World) :=
  calls.foldr (fun next before => before.bind fun c =>
    ((application env).solo (fun _ => true) next.1 next.2 c).map Prod.snd) (some c)

theorem sequential_inTurn {env : Env} {calls : List (Nat × Call)} {c c' : Core Db World}
    (h : inTurn env calls c = some c') (hnew : (calls.map Prod.fst).Nodup) :
    Service.Sequential (application env) c calls c' := by
  induction calls generalizing c' with
  | nil =>
      cases h
      exact .start
  | cons next rest ih =>
      obtain ⟨i, call⟩ := next
      obtain ⟨d, hbefore, hcall⟩ := Option.bind_eq_some_iff.mp h
      obtain ⟨⟨result, c''⟩, hsolo, rfl⟩ := Option.map_eq_some_iff.mp hcall
      obtain ⟨hfirst, hrest⟩ := List.nodup_cons.mp hnew
      exact .call (ih hbefore hrest) hfirst hsolo

/-- Authenticators with secrets of their own, whose codes are the secrets. -/
def deviceEnv : Env :=
  { sampleEnv with
    totpAt := fun secret _ => secret
    encrypt := fun seed _ => if seed = .drawn 1 0 then "phone" else "tablet"
    decrypt := fun bytes _ => some bytes }

/-- Ann enrols two authenticators and asks for a challenge. -/
def twoEnrolments : List (Nat × Call) :=
  [(5, .issueChallenge (.drawn 4 9) .totp),
    (4, .confirmTotp (.drawn 3 2) "tablet"), (3, .setupTotp (.drawn 2 9) "tablet"),
    (2, .confirmTotp (.drawn 1 2) "phone"), (1, .setupTotp (.drawn 0 0) "phone"),
    (0, .loginPassword "ann" "pw" "phone" none)]

def enrolledTwice : Core Db World :=
  (inTurn deviceEnv twoEnrolments sampleCore).getD sampleCore

/-- The tablet, which the challenge is bound to, is accepted. -/
theorem every_authenticator_works_bound : ∃ result c',
    (application deviceEnv).solo (Providers.allow ⟨some true, some false, true⟩) 6
      (.verifyChallenge (.drawn 5 0) "tablet") enrolledTwice = some (result, c') ∧
        CodeAccepted result := by
  have hchallenge : Challenged (.drawn 5 0) (.given 1) (.drawn 3 1)
      (completedWorkflow (.given 1) "totp_enrollment") enrolledTwice := by
    unfold Challenged
    decide +kernel
  have hworks : checkedTotp deviceEnv (.given 1) (.drawn 3 1) "tablet" enrolledTwice =
      .ok true := by
    decide +kernel
  exact (every_authenticator_works deviceEnv ⟨some true, some false, true⟩ 6 (.drawn 5 0)
    (.given 1) (.drawn 3 1) (.drawn 3 1) _ "tablet" enrolledTwice hchallenge
      (works_iff.mpr hworks)).mpr (Or.inl rfl)

/-- The phone is not: its code is compared with the secret of the tablet. -/
theorem bound_to_the_tablet :
    Service.Sequential (application deviceEnv) sampleCore twoEnrolments enrolledTwice ∧
      Challenged (.drawn 5 0) (.given 1) (.drawn 3 1)
        (completedWorkflow (.given 1) "totp_enrollment") enrolledTwice ∧
      Works deviceEnv (.given 1) (.drawn 1 1) "phone" enrolledTwice ∧
      ∃ c', (application deviceEnv).solo (Providers.allow ⟨some true, some false, true⟩) 6
        (.verifyChallenge (.drawn 5 0) "phone") enrolledTwice = some (.error codeInvalid, c') := by
  have hreached : (inTurn deviceEnv twoEnrolments sampleCore).isSome = true := by
    decide +kernel
  have hworks : checkedTotp deviceEnv (.given 1) (.drawn 1 1) "phone" enrolledTwice =
      .ok true := by
    decide +kernel
  have hrefused : ((application deviceEnv).solo
      (Providers.allow ⟨some true, some false, true⟩) 6 (.verifyChallenge (.drawn 5 0) "phone")
        enrolledTwice).map Prod.fst = some (.error codeInvalid) := by
    decide +kernel
  obtain ⟨c, hc⟩ := Option.isSome_iff_exists.mp hreached
  have hsame : enrolledTwice = c := by
    rw [enrolledTwice, hc, Option.getD_some]
  obtain ⟨⟨result, c'⟩, hsolo, hresult⟩ := Option.map_eq_some_iff.mp hrefused
  obtain rfl : result = .error codeInvalid := hresult
  refine ⟨hsame ▸ sequential_inTurn hc (by decide), ?_, works_iff.mpr hworks, c', hsolo⟩
  unfold Challenged
  decide +kernel

end AuthCore
