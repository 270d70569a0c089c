/-
The security store, the other things outside the database, and the calls.
Each command of the store is atomic; a key that has expired is not there.
-/
import AuthCore.Model.Schema

namespace AuthCore

/-- The payload of a login workflow. -/
structure Workflow where
  userId : Uuid
  decision : LoginDecisionType
  risk : Option RiskLevel
  allowedMethods : List String
  primaryMethod : Option String
  oidc : Option (IdentityProvider × String)
  assurance : Option String
  mfaMethod : Option String
deriving DecidableEq, Repr

inductive ChallengePurpose where
  | verify
  | enrollTotp
deriving DecidableEq, Repr

/-- The payload of an MFA challenge. -/
structure Challenge where
  purpose : ChallengePurpose
  method : MFAMethod
  userId : Uuid
  factorId : Option Uuid
  workflow : Workflow
deriving DecidableEq, Repr

/-- The payload of a WebAuthn challenge: a registration, or an authentication
that may stand for a primary login. -/
inductive WebAuthnChallenge where
  | register (userId : Uuid) (label : String) (challenge : Token) (workflow : Workflow)
  | authenticate (challenge : Token) (workflow : Option Workflow)
deriving DecidableEq, Repr

structure OIDCWorkflow where
  provider : IdentityProvider
  nonce : Token
  codeVerifier : Token
deriving DecidableEq, Repr

structure StoredOtp where
  hash : Digest
  attempts : Nat
deriving DecidableEq, Repr

inductive OtpPurpose where
  | phoneLogin
  | phoneVerify
  | mfa (challengeToken : Token)
deriving DecidableEq, Repr

/-- The subject of a counter or a lock, as the code spells it. -/
inductive Subject where
  | text (value : String)
  | id (value : Uuid)
  | member (user workspace : Uuid)
deriving DecidableEq, Repr

inductive CacheKey where
  | loginWorkflow (token : Token)
  | mfaChallenge (token : Token)
  | webauthnChallenge (token : Token)
  | oidcWorkflow (state : Token)
  | otp (user : Uuid) (purpose : OtpPurpose)
  | rateLimit (route : String) (subject : Subject)
  | loginLock (subject : String)
  | factorLock (factor : Uuid)
  | accessRevocation (jti : Uuid)
  | familyRevocation (family : Uuid)
  | userRevocation (user : Uuid)
  | organizationRevocation (user org : Uuid)
deriving DecidableEq, Repr

def CacheKey.Value : CacheKey → Type
  | loginWorkflow _ => Workflow
  | mfaChallenge _ => Challenge
  | webauthnChallenge _ => WebAuthnChallenge
  | oidcWorkflow _ => OIDCWorkflow
  | otp _ _ => StoredOtp
  | rateLimit _ _ => Nat
  | loginLock _ => Unit
  | factorLock _ => Unit
  | accessRevocation _ => Unit
  | familyRevocation _ => Unit
  | userRevocation _ => Time
  | organizationRevocation _ _ => Time

/-- A value with the time it expires at, if it does. -/
abbrev Cache := (key : CacheKey) → Option (key.Value × Option Time)

namespace Cache

/-- What `GET` finds at time `now`. -/
def get (cache : Cache) (now : Time) (key : CacheKey) : Option key.Value :=
  match cache key with
  | none => none
  | some (value, none) => some value
  | some (value, some expiry) => if now < expiry then some value else none

def put (cache : Cache) (key : CacheKey) (value : key.Value) (expiry : Option Time) : Cache :=
  Function.update cache key (some (value, expiry))

def remove (cache : Cache) (key : CacheKey) : Cache :=
  Function.update cache key none

/-- The expiry a key that is still there has. -/
def expiry (cache : Cache) (now : Time) (key : CacheKey) : Option Time :=
  match cache.get now key, cache key with
  | some _, some (_, expiry) => expiry
  | _, _ => none

end Cache

/-- The calls of the application, with the arguments their controls take. -/
inductive Call where
  | createSession (workflowToken : Token) (clientType : ClientType) (fingerprint : String)
      (ip : Option String)
  | refresh (refreshToken : Token) (clientType : ClientType) (fingerprint : String)
  | authenticate (accessToken : AccessClaims)
  | logout (claims : AccessClaims)
  | logoutAll (claims : AccessClaims)
  | sessions (claims : AccessClaims)
  | revokeSelected (claims : AccessClaims) (session : Uuid)
  | createOrganization (user : Uuid) (name : String)
  | inviteOrganizationMember (actor workspace : Uuid) (email : String) (role : OrganizationRole)
  | acceptOrganizationInvitation (user : Uuid) (token : Token)
  | replaceMemberRole (actor workspace member : Uuid) (role : OrganizationRole)
  | offboardMember (actor workspace member : Uuid)
  | switchWorkspace (accessToken : AccessClaims) (workspace : Uuid)
  | suspend (claims : AccessClaims) (target : Uuid)
  | requestErasure (claims : AccessClaims) (idempotencyKey : String)
  | loginPassword (email password fingerprint : String) (ip : Option String)
  | requestPhoneOtp (phone : String)
  | loginPhone (phone code fingerprint : String) (ip : Option String)
  | startOidc (provider : IdentityProvider)
  | loginOidc (provider : IdentityProvider) (state : Token) (code fingerprint : String)
      (ip : Option String)
  | fallbackOptions (workflowToken : Token)
  | availableMethods (workflowToken : Token)
  | listFactors (workflowToken : Token)
  | revokeFactor (workflowToken : Token) (factor : Uuid)
  | issueChallenge (workflowToken : Token) (method : MFAMethod)
  | resendChallenge (challengeToken : Token)
  | verifyChallenge (challengeToken : Token) (code : String)
  | setupTotp (workflowToken : Token) (label : String)
  | confirmTotp (enrollmentToken : Token) (code : String)
  | passkeyRegistrationOptions (workflowToken : Token) (label : String)
  | confirmPasskeyRegistration (challengeToken : Token) (credential : String)
  | passkeyAuthenticationOptions (workflowToken : Option Token)
  | verifyPasskey (challengeToken : Token) (credential : String)
  | proveCollisionPassword (workflowToken : Token) (password : String)
  | registerEmail (email password givenName familyName : String)
  | requestEmailVerification (email : String)
  | verifyEmail (token : Token)
  | registerPhone (phone : String) (givenName familyName : Option String)
  | requestPhoneVerification (phone : String)
  | verifyPhone (phone code : String)
  | requestPasswordReset (email : String)
  | resetPassword (token : Token) (password : String)
  | startContactChange (claims : AccessClaims) (contactType : ContactType) (newValue : String)
  | verifyContactChange (claims : AccessClaims) (request : Uuid) (proof : ContactProof)
      (code : String)
  | unlock (claims : AccessClaims) (target : Uuid)
  | supportRecovery (claims : AccessClaims) (target : Uuid)
  | initiateMfaReset (claims : AccessClaims) (target : Uuid) (ticketReference : String)
  | approveMfaReset (claims : AccessClaims) (request : Uuid)
  | executeMfaReset (claims : AccessClaims) (request : Uuid)
  | getMfaReset (claims : AccessClaims) (request : Uuid)
  | requestExport (claims : AccessClaims) (idempotencyKey : String)
deriving DecidableEq, Repr

inductive Result where
  | nothing
  | pair (value : TokenPair)
  | claims (value : AccessClaims)
  | count (value : Nat)
  | sessions (values : List SessionSummary)
  | workspace (value : WorkspaceSummary)
  | scope (token : AccessClaims) (expiresAt : Time) (workspace : WorkspaceSummary)
  | invitation (value : InvitationRecord)
  | member (value : MemberSummary)
  | request (value : PrivacyRequestRecord)
  | decision (value : LoginDecision)
  | redirect (state : Token)
  | methods (values : List String)
  | factors (values : List (Uuid × FactorType))
  | challenge (token : Token)
  | completion (value : MFACompletion)
  | contactChange (value : ContactChangeRecord)
  | governed (value : GovernedResetRecord)
deriving DecidableEq, Repr

inductive SessionErrorCode where
  | workflowInvalid
  | tokenInvalid
  | tokenReused
  | sessionExpired
  | sessionNotFound
  | clientMismatch
deriving DecidableEq, Repr

inductive WorkspaceErrorCode where
  | forbidden
  | invalid
  | rateLimited
  | providerUnavailable
  | invitationInvalid
  | lastOwner
deriving DecidableEq, Repr

inductive PrivacyErrorCode where
  | recentMfaRequired
  | auditForbidden
  | auditCursorInvalid
  | ownershipTransferRequired
  | erasureFailed
  | exportUnavailable
deriving DecidableEq, Repr

inductive RecoveryErrorCode where
  | tokenInvalid
  | passwordReused
  | passwordPolicy
  | passwordBreached
  | rateLimited
  | providerUnavailable
  | contactInvalid
  | contactConflict
  | recentMfaRequired
  | staffForbidden
  | targetNotFound
  | governedInvalid
  | fourEyesRequired
  | governedTooEarly
  | targetChanged
deriving DecidableEq, Repr

inductive RegistrationErrorCode where
  | captchaInvalid
  | rateLimited
  | passwordPolicy
  | passwordBreached
  | verificationInvalid
  | otpInvalid
  | providerUnavailable
deriving DecidableEq, Repr

inductive LoginErrorCode where
  | invalidCredentials
  | temporarilyLocked
  | otpInvalid
  | captchaInvalid
  | workflowInvalid
  | oidcInvalid
  | providerUnavailable
deriving DecidableEq, Repr

inductive MFAErrorCode where
  | workflowInvalid
  | methodUnavailable
  | challengeInvalid
  | codeInvalid
  | factorLocked
  | enrollmentInvalid
  | passkeyInvalid
  | lastFactor
  | providerUnavailable
deriving DecidableEq, Repr

/-- What a call can raise.  `unhandled` is any exception that reaches the
boundary as an internal error, such as a deadlock or a violated constraint. -/
inductive AuthError where
  | session (code : SessionErrorCode) (message : String) (statusCode : Nat)
  | workspace (code : WorkspaceErrorCode) (message : String) (statusCode : Nat)
  | privacy (code : PrivacyErrorCode) (message : String) (statusCode : Nat)
  | recovery (code : RecoveryErrorCode) (message : String) (statusCode : Nat)
  | login (code : LoginErrorCode) (message : String) (statusCode : Nat)
  | mfa (code : MFAErrorCode) (message : String) (statusCode : Nat)
  | registration (code : RegistrationErrorCode) (message : String) (statusCode : Nat)
  | lastOwner
  | unhandled
deriving DecidableEq, Repr

/-- The pure functions of other packages that the controls call.  What is assumed
of them is in the last fields. -/
structure Env where
  tokenHash : Token → Digest
  fingerprintHash : String → Digest
  signalHash : String → Digest
  otpHash : String → Digest
  backupDigest : String → Digest
  upperChar : Char → List Char
  keyHash : String → Digest
  normalizeEmail : String → String
  normalizePhone : String → Option String
  normalizeName : String → String
  slug : String → Token → String
  pseudonym : Uuid → String
  passwordVerify : String → String → Bool
  passwordNeedsRehash : String → Bool
  passwordHash : String → Token → String
  dummyPasswordHash : String
  verifyCallback : IdentityProvider → String → Token → Token → Option OIDCProfile
  totpAt : String → Nat → String
  encrypt : Token → Uuid → String
  decrypt : String → Uuid → Option String
  otpCode : Token → String
  backupCode : Token → String
  credentialId : String → String
  verifyRegistration : String → Token → Option (String × String × Nat)
  verifyAuthentication : String → Token → StoredPasskey → Option (Nat × Bool)
  verificationHash : Token → Digest
  resetHash : Token → Digest
  stripName : String → String
  passwordPolicy : String → Option (String × Nat)
  contactCode : String → Bool
  sealExport : ExportData → Uuid → Uuid → String × String
  /-- A profile comes from the provider that was asked. -/
  verifyCallback_provider : ∀ provider code nonce verifier profile,
    verifyCallback provider code nonce verifier = some profile → profile.provider = provider
  /-- Upper case of ASCII characters is the usual one. -/
  upperChar_ascii : ∀ c : Char, c.val < 128 → upperChar c = [c.toUpper]

namespace Env

variable (env : Env)

/-- A recovery code without hyphens and in upper case. -/
def normalizedBackup (code : String) : String :=
  String.ofList ((code.toList.filter (· ≠ '-')).flatMap env.upperChar)

def backupHash (code : String) : Digest :=
  env.backupDigest (env.normalizedBackup code)

end Env

/-- The time step of an authenticator that a time falls in. -/
def timecode (now : Time) : Nat :=
  now / seconds 30

/-- The steps whose codes are compared: the one before, the current one and the
next one. -/
def candidateSteps (now : Time) : List Nat :=
  [timecode now - 1, timecode now, timecode now + 1]

/-- The first candidate after the last accepted step that has this code. -/
def Env.totpVerify (env : Env) (secret code : String) (lastStep : Option Nat) (now : Time) :
    Option Nat :=
  (candidateSteps now).find? fun step =>
    lastStep.all (· < step) && env.totpAt secret step == code

end AuthCore
