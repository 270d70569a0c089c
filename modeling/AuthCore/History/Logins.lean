/-
The calls of primary login keep to the ledger.
-/
import AuthCore.History.Workspaces

namespace AuthCore

open Interleave LoginRepository LoginControl

variable {env : Env} {start : Core Db World} {i : Nat} {t : List Event}

theorem lockOnly_noteDevice (args : SignalArgs) (found : Option Uuid) :
    (noteDevice args found).LockOnly := by
  have hunknown : (noteDevice.unknown args).LockOnly :=
    (lockOnly_reserve _ _).bind fun _ => trivial
  cases found with
  | none => exact hunknown
  | some id =>
      refine (lockOnly_lockRow _).bind fun device => ?_
      split
      · split
        · trivial
        · exact hunknown
      · exact hunknown

theorem lockOnly_storePasswordHash (user : Uuid) (hash : String) (found : Option Uuid) :
    (storePasswordHash user hash found).LockOnly := by
  cases found with
  | none => trivial
  | some id =>
      refine (lockOnly_lockRow _).bind fun identity => ?_
      split
      · trivial
      · split <;> trivial

theorem lockOnly_insertAccount (args : ProvisionArgs) : (insertAccount args).LockOnly :=
  (lockOnly_newUser _).bind fun _ => (lockOnly_reserve _ _).bind fun _ =>
    (lockOnly_reserve _ _).bind fun _ => trivial

theorem idle_append (pre : List Event) (hpre : pre.all Event.idle = true)
    (ht : t.all Event.idle = true) : (pre ++ t).all Event.idle = true := by
  simp [hpre, ht]

theorem runs_loginAudit {eventType outcome : String} {user : Option Uuid}
    {k : Unit → Proc Result} (hok : ∀ entry, Runs env start i (.audited entry :: t) (k ()))
    (hfault : Runs env start i t (.raise .unhandled)) :
    Runs env start i t (LoginRepository.audit eventType outcome user >>= k) := by
  unfold LoginRepository.audit
  refine runs_transact (lockOnly_write _) (fun _ => rfl) (fun _ _ => rfl) ?_ ?_ (fun _ => hok _)
    hfault
  · exact fun _ _ => trivial
  · exact fun _ => trivial

theorem runs_fallbackMethods {user : Uuid} {k : List String → Proc Result}
    (h : ∀ identities factors methods,
      Runs env start i (.mfa (.activeFactors user factors) ::
        .login (.verifiedIdentities user identities) :: t) (k methods)) :
    Runs env start i t (fallbackMethods user >>= k) := by
  unfold fallbackMethods
  rw [Prog.bind_assoc]
  refine runs_look (fun _ => rfl) (fun _ _ => rfl) (fun _ => rfl) (fun _ => trivial) ?_
  intro identities
  rw [Prog.bind_assoc]
  refine runs_look (fun _ => rfl) (fun _ _ => rfl) (fun _ => rfl) (fun _ => trivial) ?_
  intro factors
  exact h identities factors _

/-- The token of a primary authentication is stored before the decision is
returned. -/
theorem runs_workflowDecision {user : Uuid} {decision : LoginDecisionType} {risk : RiskLevel}
    {methods : List String} {method : String} {context : Option (IdentityProvider × String)}
    (ht : t.all Event.idle = true)
    (hprimary : Primary env i t
      ⟨user, decision, some risk, methods, some method, context, none, none⟩) :
    Runs env start i t (workflowDecision i user decision risk methods method context) := by
  have hplain := plain_of_idle ht
  unfold workflowDecision
  refine runs_set (Or.inl ⟨rfl, hprimary⟩) (runs_loginAudit (fun entry => ?_) ?_)
  · refine runs_done (plain_append [_, _] rfl hplain) ?_
    exact ⟨_, _, List.mem_cons_of_mem _ List.mem_cons_self, rfl⟩
  · exact runs_fail (plain_append [_] rfl hplain)

theorem runs_primaryDecision {user : Uuid} {fingerprint : String} {ip : Option String}
    {method : String} (call : Call) (hpresents : call.presents = some (fingerprint, ip))
    (hcall : .called call ∈ t) (hchecked : PasswordChecked env call user t)
    (hweak : ¬SupportAdminControl.strongMethods.contains method) (ht : t.all Event.idle = true) :
    Runs env start i t (primaryDecision env i user fingerprint ip method) := by
  unfold primaryDecision
  refine runs_clock fun now => ?_
  refine runs_lookup (lockOnly_noteDevice _) (fun _ => rfl) (fun _ _ => rfl) (fun _ => trivial)
    (fun _ => trivial) (fun _ _ => rfl) (fun _ _ => rfl) (fun _ _ => trivial)
    (fun _ _ => trivial) ?_ fun found fault =>
      runs_fail (plain_append [_, _] rfl (plain_of_idle ht))
  intro found signals
  refine runs_fallbackMethods fun identities factors methods => ?_
  have hrest := idle_append [.login (.deviceFound user (env.signalHash fingerprint) found),
    .clock now] rfl ht
  refine runs_workflowDecision ?_ (.decided hpresents ?_ ?_ hweak (Fresh.of_idle hrest)
    (Unspent.of_idle hrest))
  · exact idle_append [_, _, _] rfl hrest
  · simp [hcall]
  · intro email password fingerprint ip heq
    obtain ⟨row, hrow, huser, hverify⟩ := hchecked email password fingerprint ip heq
    exact ⟨row, by simp [hrow], huser, hverify⟩

theorem passwordChecked_of_ne {call : Call} {user : Uuid}
    (h : ∀ email password fingerprint ip, call ≠ .loginPassword email password fingerprint ip) :
    PasswordChecked env call user t :=
  fun _ _ _ _ heq => absurd heq (h _ _ _ _)

/-- The name of a provider is not that of a security check. -/
theorem weak_provider (provider : IdentityProvider) :
    ¬SupportAdminControl.strongMethods.contains provider.value := by
  cases provider <;> decide

/-- One or two questions for a lock. -/
theorem runs_checkLoginLock {email : String} {ip : Option String} {k : Unit → Proc Result}
    (ht : t.all Event.plain = true)
    (h : ∀ pre : List Event, pre.all Event.idle = true → Runs env start i (pre ++ t) (k ())) :
    Runs env start i t (checkLoginLock email ip >>= k) := by
  unfold checkLoginLock
  rw [Prog.bind_assoc]
  refine runs_mark ?_ fun _ => runs_fail_bind (plain_append [_] rfl ht)
  cases network ip with
  | none => exact h [_] rfl
  | some address =>
      simp only [Bool.false_eq_true, if_false]
      rw [Prog.bind_assoc]
      refine runs_mark ?_ fun _ => runs_fail_bind (plain_append [_, _] rfl ht)
      exact h [_, _] rfl

theorem runs_recordPasswordFailure {email : String} {ip : Option String}
    {identity : Option LoginIdentity} {k : Unit → Proc Result} (ht : t.all Event.plain = true)
    (h : ∀ t : List Event, t.all Event.plain = true → Runs env start i t (k ())) :
    Runs env start i t (recordPasswordFailure email ip identity >>= k) := by
  have haudit : ∀ t : List Event, t.all Event.plain = true →
      Runs env start i t (LoginRepository.audit "PASSWORD_LOGIN_FAILED" "failure"
        (identity.map (·.userId)) >>= k) := by
    intro t ht
    exact runs_loginAudit (fun _ => h _ (plain_append [_] rfl ht)) (runs_fail ht)
  unfold recordPasswordFailure
  rw [Prog.bind_assoc]
  refine runs_count fun emailCount => ?_
  cases network ip with
  | none =>
      dsimp only
      rw [Prog.pure_bind]
      split
      · rw [Prog.bind_assoc]
        exact runs_set trivial (haudit _ (plain_append [_, _] rfl ht))
      · exact haudit _ (plain_append [_] rfl ht)
  | some address =>
      dsimp only
      rw [Prog.bind_assoc]
      refine runs_count fun ipCount => ?_
      have hlast : ∀ t : List Event, t.all Event.plain = true → Runs env start i t
          ((if passwordAttemptLimit ≤ ipCount then
            Redis.lockLogin address >>= fun _ =>
              LoginRepository.audit "PASSWORD_LOGIN_FAILED" "failure" (identity.map (·.userId))
          else LoginRepository.audit "PASSWORD_LOGIN_FAILED" "failure"
            (identity.map (·.userId))) >>= k) := by
        intro t ht
        split
        · rw [Prog.bind_assoc]
          exact runs_set trivial (haudit _ (plain_append [_] rfl ht))
        · exact haudit t ht
      split
      · rw [Prog.bind_assoc]
        exact runs_set trivial (hlast _ (plain_append [_, _, _] rfl ht))
      · exact hlast _ (plain_append [_, _] rfl ht)

/-- The optional upgrade of a password digest. -/
theorem runs_updatePasswordHash {user : Uuid} {hash : String} {k : Unit → Proc Result}
    (ht : t.all Event.plain = true)
    (hrehashes : ∀ found,
      Rehashes env i (.login (.passwordIdentity user found) :: t) user hash found)
    (h : ∀ pre : List Event, pre.all Event.idle = true → Runs env start i (pre ++ t) (k ())) :
    Runs env start i t (updatePasswordHash user hash >>= k) :=
  runs_lookup (lockOnly_storePasswordHash _ _) (fun _ => rfl) (fun _ _ => rfl) (fun _ => rfl)
    (fun _ => trivial) (fun _ _ => rfl) (fun _ _ => rfl) (fun _ _ => trivial)
    (fun found _ => hrehashes found) (fun _ _ => h [_, _] rfl) fun _ _ =>
      runs_fail (plain_append [_] rfl ht)

theorem runs_loginPassword (email password fingerprint : String) (ip : Option String) :
    Runs env start i [.called (.loginPassword email password fingerprint ip)]
      (loginPassword env i email password fingerprint ip) := by
  unfold loginPassword
  dsimp only
  refine runs_checkLoginLock rfl fun pre hpre => ?_
  have hidle : (pre ++ [Event.called (.loginPassword email password fingerprint ip)]).all
      Event.idle = true := idle_append _ hpre rfl
  refine runs_look (fun _ => rfl) (fun _ _ => rfl) (fun _ => rfl) (fun _ => trivial) ?_
  intro identity
  have hplain := plain_append [Event.login (.identity .password (env.normalizeEmail email)
    identity)] rfl (plain_of_idle hidle)
  cases identity with
  | none => exact runs_recordPasswordFailure hplain fun t ht => runs_fail ht
  | some row =>
      dsimp only
      split
      · exact runs_recordPasswordFailure hplain fun t ht => runs_fail ht
      · rename_i hvalid
        have hverify : env.passwordVerify (row.passwordHash.getD env.dummyPasswordHash)
            password = true := by
          simp at hvalid
          exact hvalid.1.1
        have hchecked : ∀ pre' : List Event, PasswordChecked env
            (.loginPassword email password fingerprint ip) row.userId
            (pre' ++ .login (.identity .password (env.normalizeEmail email) (some row)) ::
              (pre ++ [Event.called (.loginPassword email password fingerprint ip)])) := by
          intro pre' _ _ _ _ heq
          cases heq
          exact ⟨row, by simp, rfl, hverify⟩
        refine runs_delete trivial ?_
        split
        · refine runs_updatePasswordHash (plain_append [_] rfl hplain) (fun _ => .intro hverify)
            fun pre' hpre' => ?_
          refine runs_primaryDecision (.loginPassword email password fingerprint ip) rfl ?_ ?_
            (by decide) ?_
          · simp
          · have h := hchecked (pre' ++
              [.removed (.rateLimit "login_password" (.text (env.normalizeEmail email)))])
            simpa using h
          · exact idle_append _ hpre' (idle_append [_, _] rfl hidle)
        · refine runs_primaryDecision (.loginPassword email password fingerprint ip) rfl ?_
            (hchecked [_]) (by decide) ?_
          · simp
          · exact idle_append [_, _] rfl hidle

theorem runs_verifyCaptcha {k : Unit → Proc Result} (ht : t.all Event.plain = true)
    (h : Runs env start i (.captcha (some true) :: t) (k ())) :
    Runs env start i t (verifyCaptcha >>= k) := by
  unfold verifyCaptcha
  rw [Prog.bind_assoc]
  refine runs_captcha fun valid => ?_
  match valid with
  | none => exact runs_fail_bind (plain_append [_] rfl ht)
  | some false => exact runs_fail_bind (plain_append [_] rfl ht)
  | some true => exact h

theorem runs_requestPhoneOtp (phone : String) :
    Runs env start i [.called (.requestPhoneOtp phone)] (requestPhoneOtp env i phone) := by
  unfold requestPhoneOtp
  split
  · refine runs_verifyCaptcha rfl (runs_count fun count => ?_)
    split
    · exact runs_fail rfl
    · refine runs_look (fun _ => rfl) (fun _ _ => rfl) (fun _ => rfl) (fun _ => trivial) ?_
      intro identity
      split
      · exact runs_done rfl trivial
      · refine runs_storeOtp trivial (runs_send (by simp) fun delivered => ?_)
        cases delivered with
        | true => exact runs_done rfl trivial
        | false => exact runs_delete trivial (runs_fail rfl)
  · exact runs_fail rfl

theorem runs_loginPhone (phone code fingerprint : String) (ip : Option String) :
    Runs env start i [.called (.loginPhone phone code fingerprint ip)]
      (loginPhone env i phone code fingerprint ip) := by
  unfold loginPhone
  split
  · refine runs_verifyCaptcha rfl ?_
    refine runs_look (fun _ => rfl) (fun _ _ => rfl) (fun _ => rfl) (fun _ => trivial) ?_
    intro identity
    split
    · exact runs_fail rfl
    · refine runs_tryOtp fun outcome => ?_
      split
      · exact runs_loginAudit (fun _ => runs_fail rfl) (runs_fail rfl)
      · exact runs_primaryDecision (.loginPhone phone code fingerprint ip) rfl (by simp)
          (passwordChecked_of_ne nofun) (by decide) rfl
  · exact runs_fail rfl

theorem runs_startOidc (provider : IdentityProvider) :
    Runs env start i [.called (.startOidc provider)] (startOidc i provider) := by
  unfold startOidc
  split
  · exact runs_fail rfl
  · exact runs_set trivial (runs_done rfl trivial)

theorem runs_provisionOidc {args : ProvisionArgs}
    {k : Except (Fault AuthError) LoginIdentity → Proc Result}
    (hprovider : isOidc args.profile.provider = true)
    (hok : ∀ result, Runs env start i (.login (.provisioned args result) :: t) (k (.ok result)))
    (hfault : ∀ fault, Runs env start i t (k (.error fault))) :
    Runs env start i t (provisionOidc args >>= k) := by
  refine runs_attempt (lockOnly_insertAccount _) (fun _ => rfl) (fun _ _ => rfl) ?_ ?_ hok hfault
  · exact fun _ _ => trivial
  · exact fun _ => hprovider

theorem runs_loginOidc (provider : IdentityProvider) (state : Token) (code fingerprint : String)
    (ip : Option String) :
    Runs env start i [.called (.loginOidc provider state code fingerprint ip)]
      (loginOidc env i provider state code fingerprint ip) := by
  unfold loginOidc
  split
  · exact runs_fail rfl
  · refine runs_consumeOidcWorkflow (runs_fail rfl) fun workflow => ?_
    dsimp only
    split
    · exact runs_fail rfl
    · split
      · exact runs_fail rfl
      · rename_i hoidc _ _ profile hverified
        have hprovider : isOidc profile.provider = true := by
          rw [env.verifyCallback_provider _ _ _ _ _ hverified]
          simpa using hoidc
        split
        · exact runs_fail rfl
        · refine runs_look (fun _ => rfl) (fun _ _ => rfl) (fun _ => rfl) (fun _ => trivial)
            ?_
          intro found
          cases found with
          | some row =>
              dsimp only
              split
              · exact runs_fail rfl
              · exact runs_primaryDecision (.loginOidc provider state code fingerprint ip) rfl
                  (by simp) (passwordChecked_of_ne nofun) (weak_provider _) rfl
          | none =>
              refine runs_look (fun _ => rfl) (fun _ _ => rfl) (fun _ => rfl)
                (fun _ => trivial) ?_
              intro collision
              cases collision with
              | some row =>
                  refine runs_fallbackMethods fun identities factors methods => ?_
                  exact runs_workflowDecision rfl
                    (.collision (show Event.called (.loginOidc provider state code fingerprint ip) ∈ _
                      by simp) (passwordChecked_of_ne nofun) hprovider (Fresh.of_idle rfl)
                      (Unspent.of_idle rfl))
              | none =>
                  refine runs_provisionOidc hprovider (fun result => ?_) fun fault => ?_
                  · exact runs_primaryDecision (.loginOidc provider state code fingerprint ip)
                      rfl (by simp) (passwordChecked_of_ne nofun) (weak_provider _) rfl
                  · cases fault with
                    | integrity => exact runs_fail rfl
                    | deadlock => exact runs_fail rfl
                    | thrown error => exact runs_fail rfl

theorem runs_fallbackOptions (token : Token) :
    Runs env start i [.called (.fallbackOptions token)] (fallbackOptions token) := by
  unfold fallbackOptions
  exact runs_getLoginWorkflow (runs_fail rfl) fun workflow => runs_done rfl trivial

end AuthCore
