/-
Primary login by password, phone code or social account, and the decision that
follows it.
-/
import AuthCore.Model.LoginRepository

namespace AuthCore

open Interleave

namespace LoginControl

variable (env : Env) (me : Nat)

def passwordAttemptLimit : Nat := 5
def passwordAttemptWindow : Nat := 60
def phoneOtpLimit : Nat := 3
def phoneOtpWindow : Nat := 60
def otpMaxAttempts : Nat := 3

def invalidCredentials : AuthError :=
  .login .invalidCredentials "The supplied credentials could not be verified." 401

def invalidOtp : AuthError :=
  .login .otpInvalid "The verification code is invalid or expired." 400

def invalidOidc : AuthError :=
  .login .oidcInvalid "The social login response could not be verified." 400

def providerUnavailable : AuthError :=
  .login .providerUnavailable
    "A required login service is temporarily unavailable. Please try again." 503

def loginLocked : AuthError :=
  .login .temporarilyLocked "Login is temporarily unavailable. Please wait and try again." 429

def tooManyRequests : AuthError :=
  .login .temporarilyLocked "Too many requests. Please wait and try again." 429

def captchaInvalid : AuthError :=
  .login .captchaInvalid "The security check could not be verified. Please try again." 400

def workflowInvalid : AuthError :=
  .login .workflowInvalid "This login workflow is invalid or expired." 400

def verifyCaptcha : Proc Unit := do
  match ← captchaVerify with
  | none => fail providerUnavailable
  | some false => fail captchaInvalid
  | some true => return ()

/-- The address that a login comes from; an empty one counts as none. -/
def network (ip : Option String) : Option String :=
  ip.filter (· ≠ "")

def checkLoginLock (email : String) (ip : Option String) : Proc Unit := do
  if ← Redis.loginIsLocked email then
    fail loginLocked
  else
  match network ip with
  | none => return ()
  | some address =>
      if ← Redis.loginIsLocked address then
        fail loginLocked
      else
        return ()

/-- Count the failure for the address and the network, and lock at the limit. -/
def recordPasswordFailure (email : String) (ip : Option String)
    (identity : Option LoginIdentity) : Proc Unit := do
  let emailCount ← Redis.incrementRateLimit "login_password" (.text email) passwordAttemptWindow
  let ipCount ← match network ip with
    | none => pure 0
    | some address =>
        Redis.incrementRateLimit "login_password_ip" (.text address) passwordAttemptWindow
  if passwordAttemptLimit ≤ emailCount then
    Redis.lockLogin email
  match network ip with
  | none => pure ()
  | some address =>
      if passwordAttemptLimit ≤ ipCount then
        Redis.lockLogin address
  LoginRepository.audit "PASSWORD_LOGIN_FAILED" "failure" (identity.map (·.userId))

def riskScore (signals : DeviceSignals) : Nat :=
  (if signals.known then 0 else 50) + (if signals.trusted then 0 else 20) +
    if signals.ipChanged then 30 else 0

def riskLevel (score : Nat) : RiskLevel :=
  if 50 ≤ score then .high else if 25 ≤ score then .medium else .low

def decisionFor (risk : RiskLevel) : LoginDecisionType :=
  if risk = .low then .sessionReady else .mfaRequired

def workflowDecision (user : Uuid) (decision : LoginDecisionType) (risk : RiskLevel)
    (methods : List String) (method : String)
    (context : Option (IdentityProvider × String)) : Proc Result := do
  let token : Token := .drawn me 0
  Redis.storeLoginWorkflow token
    ⟨user, decision, some risk, methods, some method, context, none, none⟩
  LoginRepository.audit
    (if decision = .collisionProofRequired then "OIDC_ACCOUNT_COLLISION_DETECTED"
      else "PRIMARY_LOGIN_VERIFIED")
    (if decision = .collisionProofRequired then "denied" else "success") (some user)
  return .decision ⟨decision, risk, token, methods⟩

def primaryDecision (user : Uuid) (fingerprint : String) (ip : Option String)
    (method : String) : Proc Result := do
  let now ← clock
  let signals ← LoginRepository.deviceSignals
    ⟨user, env.signalHash fingerprint, ip, now, .drawn me 1⟩
  let risk := riskLevel (riskScore signals)
  let methods ← LoginRepository.fallbackMethods user
  workflowDecision me user (decisionFor risk) risk methods method none

def loginPassword (email password fingerprint : String) (ip : Option String) :
    Proc Result := do
  let normalizedEmail := env.normalizeEmail email
  checkLoginLock normalizedEmail ip
  let identity ← look (LoginRepository.identity .password normalizedEmail) fun answer =>
    .login (.identity .password normalizedEmail answer)
  let hash := (identity.bind (·.passwordHash)).getD env.dummyPasswordHash
  let valid := env.passwordVerify hash password
  match identity with
  | none => do
      recordPasswordFailure normalizedEmail ip identity
      fail invalidCredentials
  | some row =>
      if ¬valid || ¬row.verified || row.state ≠ .active then do
        recordPasswordFailure normalizedEmail ip identity
        fail invalidCredentials
      else
      Redis.resetRateLimit "login_password" (.text normalizedEmail)
      if env.passwordNeedsRehash hash then
        LoginRepository.updatePasswordHash row.userId (env.passwordHash password (.drawn me 2))
      primaryDecision env me row.userId fingerprint ip "password"

/-- The identity can log in: it is verified and its account is active. -/
def usable (identity : Option LoginIdentity) : Option LoginIdentity :=
  identity.filter fun row => row.verified && row.state == .active

def requestPhoneOtp (phone : String) : Proc Result := do
  let some normalizedPhone := env.normalizePhone phone | fail invalidOtp
  verifyCaptcha
  let count ← Redis.incrementRateLimit "login_phone_request" (.text normalizedPhone)
    phoneOtpWindow
  if phoneOtpLimit < count then
    fail tooManyRequests
  else
  let identity ← look (LoginRepository.identity .phone normalizedPhone) fun answer =>
    .login (.identity .phone normalizedPhone answer)
  match usable identity with
  | none => return .nothing
  | some row =>
      Redis.storeOtpHash row.userId .phoneLogin (env.otpHash (env.otpCode (.drawn me 0)))
      let delivered ← send normalizedPhone
      if delivered then
        return .nothing
      else
        Redis.consumeOtp row.userId .phoneLogin
        fail providerUnavailable

def loginPhone (phone code fingerprint : String) (ip : Option String) : Proc Result := do
  let some normalizedPhone := env.normalizePhone phone | fail invalidOtp
  verifyCaptcha
  let identity ← look (LoginRepository.identity .phone normalizedPhone) fun answer =>
    .login (.identity .phone normalizedPhone answer)
  match usable identity with
  | none => fail invalidOtp
  | some row =>
      let outcome ← Redis.verifyAndConsumeOtp row.userId .phoneLogin (env.otpHash code)
        otpMaxAttempts
      if outcome ≠ 1 then
        LoginRepository.audit "PHONE_LOGIN_FAILED" "failure" (some row.userId)
        fail invalidOtp
      else
        primaryDecision env me row.userId fingerprint ip "phone_otp"

def isOidc (provider : IdentityProvider) : Bool :=
  provider == .google || provider == .apple || provider == .microsoft

def startOidc (provider : IdentityProvider) : Proc Result := do
  if ¬isOidc provider then
    fail invalidOidc
  else
  Redis.storeOidcWorkflow (.drawn me 0) ⟨provider, .drawn me 1, .drawn me 2⟩
  return .redirect (.drawn me 0)

def loginOidc (provider : IdentityProvider) (state : Token) (code fingerprint : String)
    (ip : Option String) : Proc Result := do
  if ¬isOidc provider then
    fail invalidOidc
  else
  let some workflow ← Redis.consumeOidcWorkflow state | fail invalidOidc
  if workflow.provider ≠ provider then
    fail invalidOidc
  else
  match env.verifyCallback provider code workflow.nonce workflow.codeVerifier with
  | none => fail invalidOidc
  | some profile =>
      if ¬profile.emailVerified then
        fail invalidOidc
      else
      let found ← look (LoginRepository.identity profile.provider profile.subject) fun answer =>
        .login (.identity profile.provider profile.subject answer)
      match found with
      | some row =>
          if row.state ≠ .active || ¬row.verified then
            fail invalidOidc
          else
            primaryDecision env me row.userId fingerprint ip profile.provider.value
      | none =>
          let email := env.normalizeEmail profile.email
          let collision ← look (LoginRepository.activeUserByEmail email) fun answer =>
            .login (.activeUserByEmail email answer)
          match collision with
          | some row => do
              let methods ← LoginRepository.fallbackMethods row.userId
              workflowDecision me row.userId .collisionProofRequired .high methods
                "oidc_collision" (some (profile.provider, profile.subject))
          | none =>
              let provisioned ← LoginRepository.provisionOidc
                ⟨profile, email, .drawn me 3, .drawn me 4, .drawn me 5,
                  env.slug "personal" (.drawn me 3)⟩
              match provisioned with
              | .error .integrity => fail invalidOidc
              | .error _ => fail .unhandled
              | .ok row => primaryDecision env me row.userId fingerprint ip profile.provider.value

def fallbackOptions (workflowToken : Token) : Proc Result := do
  let some workflow ← Redis.getLoginWorkflow workflowToken | fail workflowInvalid
  return .methods workflow.allowedMethods

end LoginControl

end AuthCore
