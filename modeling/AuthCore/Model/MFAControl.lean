/-
Challenges, enrolment and passkeys.  A workflow token is exchanged for a
challenge token and a challenge token for a workflow that is ready for a
session; a collision workflow ends in a linked identity instead.
-/
import AuthCore.Model.MFARepository

namespace AuthCore

open Interleave

namespace MFAControl

variable (env : Env) (me : Nat)

def mfaFailureLimit : Nat := 3
def mfaFailureWindow : Nat := 900
def otpMaxAttempts : Nat := 3
def otpRequestLimit : Nat := 3
def otpRequestWindow : Nat := 60
def backupCodeCount : Nat := 10

def workflowInvalid : AuthError :=
  .mfa .workflowInvalid "This security workflow is invalid or expired." 400

def challengeInvalid : AuthError :=
  .mfa .challengeInvalid "This security challenge is invalid or expired." 400

def codeInvalid : AuthError :=
  .mfa .codeInvalid "The security code is invalid or expired." 400

def factorLocked : AuthError :=
  .mfa .factorLocked
    "This security method is temporarily locked. Please wait and try again." 429

def tooManyCodes : AuthError :=
  .mfa .factorLocked "Too many security-code requests. Please wait and try again." 429

def methodUnavailable : AuthError :=
  .mfa .methodUnavailable
    "This security method is not available for the current workflow." 400

def enrollmentInvalid : AuthError :=
  .mfa .enrollmentInvalid "This enrollment is invalid or expired." 400

def passkeyInvalid : AuthError :=
  .mfa .passkeyInvalid "The passkey response could not be verified." 400

def lastFactor : AuthError :=
  .mfa .lastFactor "Enroll another strong security method before removing this one." 409

def providerUnavailable : AuthError :=
  .mfa .providerUnavailable "A required security-code service is temporarily unavailable." 503

def getWorkflow (token : Token) : Proc Workflow := do
  let some workflow ← Redis.getLoginWorkflow token | fail workflowInvalid
  return workflow

def activeProfile (user : Uuid) : Proc MFAUserProfile := do
  let some profile ← MFARepository.userProfile user | fail workflowInvalid
  if profile.state ≠ .active then
    fail workflowInvalid
  else
    return profile

def isStrong (factor : MFADevice) : Bool :=
  factor.factorType == .totp || factor.factorType == .passkey

def requireMfaAssurance (workflow : Workflow) : Proc Unit :=
  if workflow.assurance = some "mfa" then return () else fail workflowInvalid

/-- A strong factor may be added without MFA only while there is none. -/
def requireEnrollmentAssurance (workflow : Workflow) (user : Uuid) : Proc Unit := do
  let factors ← MFARepository.activeFactors user
  if factors.any fun entry => isStrong entry.2 then
    requireMfaAssurance workflow
  else
    return ()

def factorMethods (factor : MFADevice) : List MFAMethod :=
  match factor.factorType with
  | .totp => [.totp]
  | .passkey => [.passkey]
  | .backupCodes => [.backupCode]
  | _ => []

def methods (profile : MFAUserProfile) (factors : List (Uuid × MFADevice)) : List MFAMethod :=
  (if profile.email.isSome then [.emailOtp] else []) ++
    (if profile.phoneE164.isSome then [.smsOtp] else []) ++
    factors.flatMap fun entry => factorMethods entry.2

def availableMethods (workflowToken : Token) : Proc Result := do
  let workflow ← getWorkflow workflowToken
  let profile ← activeProfile workflow.userId
  let factors ← MFARepository.activeFactors workflow.userId
  return .methods (((methods profile factors).dedup.map (·.value)).insertionSort (· ≤ ·))

def listFactors (workflowToken : Token) : Proc Result := do
  let workflow ← getWorkflow workflowToken
  requireMfaAssurance workflow
  let _ ← activeProfile workflow.userId
  let factors ← MFARepository.activeFactors workflow.userId
  return .factors (factors.map fun entry => (entry.1, entry.2.factorType))

/-- The payload of a workflow after a completed security check. -/
def completedWorkflow (user : Uuid) (method : String) : Workflow :=
  ⟨user, .sessionReady, none, [], none, none, some "mfa", some method⟩

/-- The end of every completed check: a link for a collision workflow, a new
workflow that is ready for a session otherwise. -/
def complete (user : Uuid) (workflow : Workflow) (method : String) : Proc MFACompletion := do
  if workflow.decision = .collisionProofRequired then
    match workflow.oidc with
    | none => fail workflowInvalid
    | some (provider, subject) =>
        match ← MFARepository.linkOidcIdentity user provider subject (.drawn me 8) with
        | .error .integrity => fail workflowInvalid
        | .error _ => fail .unhandled
        | .ok _ =>
            LoginRepository.audit "OIDC_ACCOUNT_COLLISION_RESOLVED" "success" (some user)
            return ⟨none, []⟩
  else
    let token : Token := .drawn me 9
    Redis.storeLoginWorkflow token (completedWorkflow user method)
    LoginRepository.audit "MFA_VERIFIED" "success" (some user)
    return ⟨some token, []⟩

def revokeFactor (workflowToken : Token) (factor : Uuid) : Proc Result := do
  let workflow ← getWorkflow workflowToken
  requireMfaAssurance workflow
  let factors ← MFARepository.activeFactors workflow.userId
  match factors.find? (fun entry => entry.1 == factor) with
  | none => fail methodUnavailable
  | some target =>
      if isStrong target.2 && (factors.filter fun entry => isStrong entry.2).length ≤ 1 then
        fail lastFactor
      else
      let some _ ← Redis.consumeLoginWorkflow workflowToken | fail workflowInvalid
      let now ← clock
      let revoked ← MFARepository.revokeFactor workflow.userId factor now
      if ¬revoked then
        fail workflowInvalid
      else
      LoginRepository.audit "MFA_FACTOR_REVOKED" "success" (some workflow.userId)
      return .completion (← complete me workflow.userId workflow "factor_management")

/-- Throttle, store the digest of a new code and deliver it. -/
def sendOtp (challengeToken : Token) (user : Uuid) (method : MFAMethod) (subject : String) :
    Proc Unit := do
  let count ← Redis.incrementRateLimit ("mfa_" ++ method.value) (.text subject) otpRequestWindow
  if otpRequestLimit < count then
    fail tooManyCodes
  else
  Redis.storeOtpHash user (.mfa challengeToken) (env.otpHash (env.otpCode (.drawn me 1)))
  let delivered ← send subject
  if delivered then
    return ()
  else
    Redis.consumeOtp user (.mfa challengeToken)
    fail providerUnavailable

/-- The factor a TOTP challenge is bound to. -/
def totpFactor (factors : List (Uuid × MFADevice)) : Option Uuid :=
  (factors.find? fun entry => entry.2.factorType == .totp).map Prod.fst

/-- Deliver the code of an email or SMS challenge. -/
def deliver (token : Token) (user : Uuid) (method : MFAMethod) (profile : MFAUserProfile) :
    Proc Unit :=
  match method, profile.email, profile.phoneE164 with
  | .emailOtp, some email, _ => sendOtp env me token user method email
  | .smsOtp, _, some phone => sendOtp env me token user method phone
  | _, _, _ => return ()

def issueChallenge (workflowToken : Token) (method : MFAMethod) : Proc Result := do
  let workflow ← getWorkflow workflowToken
  let user := workflow.userId
  let profile ← activeProfile user
  let factors ← MFARepository.activeFactors user
  if ¬(methods profile factors).contains method || method = .passkey then
    fail methodUnavailable
  else
  let some consumed ← Redis.consumeLoginWorkflow workflowToken | fail workflowInvalid
  let token : Token := .drawn me 0
  deliver env me token user method profile
  Redis.storeMfaChallenge token
    ⟨.verify, method, user, if method = .totp then totpFactor factors else none, consumed⟩
  return .challenge token

def resendChallenge (challengeToken : Token) : Proc Result := do
  let some payload ← Redis.getMfaChallenge challengeToken | fail challengeInvalid
  if payload.purpose ≠ .verify then
    fail challengeInvalid
  else if payload.method ≠ .emailOtp ∧ payload.method ≠ .smsOtp then
    fail methodUnavailable
  else
  let profile ← activeProfile payload.userId
  match if payload.method = .emailOtp then profile.email else profile.phoneE164 with
  | none => fail methodUnavailable
  | some subject => do
      sendOtp env me challengeToken payload.userId payload.method subject
      return .challenge challengeToken

def recordFactorFailure (factor : Uuid) : Proc Unit := do
  let count ← Redis.incrementRateLimit "mfa_factor_failure" (.id factor) mfaFailureWindow
  if mfaFailureLimit ≤ count then
    Redis.lockFactor factor
  else
    return ()

/-- A sealed secret opened for its owner. -/
def openSecret (user : Uuid) (factor : MFADevice) : Option (Option String) :=
  match factor.encryptedSecret with
  | some (.sealed bytes) => some (env.decrypt bytes user)
  | some (.codes _) => some none
  | none => none

def verifyTotp (user factorId : Uuid) (code : String) : Proc Bool := do
  if ← Redis.factorIsLocked factorId then
    fail factorLocked
  else
  let found ← MFARepository.factor user factorId
  match found with
  | none => return false
  | some factor =>
      if factor.status ≠ .active then
        return false
      else
      match openSecret env user factor with
      | none => return false
      | some none => fail .unhandled
      | some (some secret) =>
          let now ← clock
          match env.totpVerify secret code factor.lastTotpStep now with
          | none => return false
          | some step => MFARepository.advanceTotpStep factorId factor.lastTotpStep step now

/-- The check that the method of a challenge asks for. -/
def checkCode (challengeToken : Token) (payload : Challenge) (code : String) : Proc Bool :=
  match payload.method with
  | .totp =>
      match payload.factorId with
      | none => fail .unhandled
      | some factor => verifyTotp env payload.userId factor code
  | .emailOtp | .smsOtp => do
      let outcome ← Redis.verifyAndConsumeOtp payload.userId (.mfa challengeToken)
        (env.otpHash code) otpMaxAttempts
      return decide (outcome = 1)
  | .backupCode => do
      let now ← clock
      MFARepository.consumeBackupCode payload.userId (env.backupHash code) now
  | .passkey => return false

def recordFailure (challengeToken : Token) (payload : Challenge) : Proc Unit := do
  match payload.method, payload.factorId with
  | .totp, some factor => recordFactorFailure factor
  | _, _ =>
      let count ← Redis.incrementRateLimit "mfa_challenge_failure" (.id payload.userId)
        mfaFailureWindow
      if mfaFailureLimit ≤ count then
        let _ ← Redis.consumeMfaChallenge challengeToken
        return ()
      else
        return ()

def verifyChallenge (challengeToken : Token) (code : String) : Proc Result := do
  let some payload ← Redis.getMfaChallenge challengeToken | fail challengeInvalid
  if payload.purpose ≠ .verify then
    fail challengeInvalid
  else
  let valid ← checkCode env challengeToken payload code
  if ¬valid then
    recordFailure challengeToken payload
    fail codeInvalid
  else
  let some consumed ← Redis.consumeMfaChallenge challengeToken | fail challengeInvalid
  return .completion (← complete me payload.userId consumed.workflow payload.method.value)

def setupTotp (workflowToken : Token) (label : String) : Proc Result := do
  let workflow ← getWorkflow workflowToken
  let user := workflow.userId
  let _ ← activeProfile user
  requireEnrollmentAssurance workflow user
  let some consumed ← Redis.consumeLoginWorkflow workflowToken | fail workflowInvalid
  let now ← clock
  MFARepository.createPendingTotp user (env.encrypt (.drawn me 0) user) label (.drawn me 1) now
  Redis.storeMfaChallenge (.drawn me 2)
    ⟨.enrollTotp, .totp, user, some (.drawn me 1), consumed⟩
  return .challenge (.drawn me 2)

/-- New recovery codes, unless the user has some. -/
def ensureBackupCodes (user : Uuid) : Proc (List Token) := do
  let factors ← MFARepository.activeFactors user
  if factors.any fun entry => entry.2.factorType == .backupCodes then
    return []
  else
  let now ← clock
  let codes := (List.range backupCodeCount).map fun index => Uuid.drawn me (20 + index)
  MFARepository.storeBackupCodes user
    (codes.map fun code => env.backupHash (env.backupCode code)) (.drawn me 10) now
  return codes

def confirmTotp (enrollmentToken : Token) (code : String) : Proc Result := do
  let some payload ← Redis.getMfaChallenge enrollmentToken | fail enrollmentInvalid
  if payload.purpose ≠ .enrollTotp then
    fail enrollmentInvalid
  else
  match payload.factorId with
  | none => fail .unhandled
  | some factorId =>
      let user := payload.userId
      let found ← MFARepository.factor user factorId
      match found with
      | none => fail enrollmentInvalid
      | some factor =>
          if factor.status ≠ .pending then
            fail enrollmentInvalid
          else
          match openSecret env user factor with
          | none => fail enrollmentInvalid
          | some none => fail .unhandled
          | some (some secret) =>
              let now ← clock
              match env.totpVerify secret code none now with
              | none => do
                  recordFactorFailure factorId
                  fail codeInvalid
              | some step =>
                  let activated ← MFARepository.activateTotp user factorId step now
                  if ¬activated then
                    fail enrollmentInvalid
                  else
                  let some consumed ← Redis.consumeMfaChallenge enrollmentToken
                    | fail enrollmentInvalid
                  let backupCodes ← ensureBackupCodes env me user
                  let completion ← complete me user consumed.workflow "totp_enrollment"
                  return .completion { completion with backupCodes := backupCodes }

def passkeyRegistrationOptions (workflowToken : Token) (label : String) : Proc Result := do
  let workflow ← getWorkflow workflowToken
  let user := workflow.userId
  let _ ← activeProfile user
  requireEnrollmentAssurance workflow user
  let some consumed ← Redis.consumeLoginWorkflow workflowToken | fail workflowInvalid
  let _ ← MFARepository.passkeys user
  Redis.storeWebauthnChallenge (.drawn me 0) (.register user label (.drawn me 1) consumed)
  return .challenge (.drawn me 0)

def confirmPasskeyRegistration (challengeToken : Token) (credential : String) :
    Proc Result := do
  let some payload ← Redis.consumeWebauthnChallenge challengeToken | fail passkeyInvalid
  match payload with
  | .authenticate _ _ => fail passkeyInvalid
  | .register user label challenge workflow =>
      match env.verifyRegistration credential challenge with
      | none => fail passkeyInvalid
      | some (credentialId, publicKey, signCount) =>
          let now ← clock
          match ← MFARepository.createPasskey user label credentialId publicKey signCount
            (.drawn me 0) now with
          | .error _ => fail passkeyInvalid
          | .ok _ =>
              let backupCodes ← ensureBackupCodes env me user
              let completion ← complete me user workflow "passkey_enrollment"
              return .completion { completion with backupCodes := backupCodes }

def passkeyAuthenticationOptions (workflowToken : Option Token) : Proc Result :=
  match workflowToken with
  | none => do
      Redis.storeWebauthnChallenge (.drawn me 0) (.authenticate (.drawn me 1) none)
      return .challenge (.drawn me 0)
  | some token => do
      let workflow ← getWorkflow token
      let credentials ← MFARepository.passkeys workflow.userId
      if credentials.isEmpty then
        fail methodUnavailable
      else
      let some consumed ← Redis.consumeLoginWorkflow token | fail workflowInvalid
      Redis.storeWebauthnChallenge (.drawn me 0) (.authenticate (.drawn me 1) (some consumed))
      return .challenge (.drawn me 0)

/-- Without a workflow the passkey is itself the primary login. -/
def effectiveWorkflow (user : Uuid) (workflow : Option Workflow) : Workflow :=
  workflow.getD ⟨user, .passkeyPrimary, none, [], none, none, none, none⟩

def belongsTo (user : Uuid) (workflow : Option Workflow) : Bool :=
  match workflow with
  | none => true
  | some workflow => workflow.userId == user

def verifyPasskey (challengeToken : Token) (credential : String) : Proc Result := do
  let some payload ← Redis.consumeWebauthnChallenge challengeToken | fail passkeyInvalid
  match payload with
  | .register _ _ _ _ => fail passkeyInvalid
  | .authenticate challenge workflow =>
      let credentialId := env.credentialId credential
      let found ← MFARepository.passkey credentialId
      match found with
      | none => fail passkeyInvalid
      | some stored =>
          if ¬belongsTo stored.userId workflow then
            fail passkeyInvalid
          else
          match env.verifyAuthentication credential challenge stored with
          | none => fail passkeyInvalid
          | some (newCount, backupState) =>
              match ← MFARepository.updatePasskeyCounter credentialId stored.signCount newCount
                backupState with
              | .ok true =>
                  return .completion (← complete me stored.userId
                    (effectiveWorkflow stored.userId workflow) "passkey")
              | _ => fail passkeyInvalid

def proveCollisionPassword (workflowToken : Token) (password : String) : Proc Result := do
  let workflow ← getWorkflow workflowToken
  if workflow.decision ≠ .collisionProofRequired then
    fail workflowInvalid
  else
  let hash ← look (MFARepository.passwordHash workflow.userId) fun answer =>
    .mfa (.passwordHash workflow.userId answer)
  if ¬hash.any fun hash => env.passwordVerify hash password then
    fail codeInvalid
  else
  let some consumed ← Redis.consumeLoginWorkflow workflowToken | fail workflowInvalid
  return .completion (← complete me workflow.userId consumed "password_reauthentication")

end MFAControl

end AuthCore
