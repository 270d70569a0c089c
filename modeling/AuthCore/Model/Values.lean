/-
Identifiers, clocks and the records that the controls exchange.  Random values
are named by the draw they come from, so two draws never coincide.
-/
import Mathlib.Data.List.Basic

namespace AuthCore

/-- A random value: one that existed before the run, or the `serial`-th draw of
a call. -/
inductive Uuid where
  | given (n : Nat)
  | drawn (call serial : Nat)
deriving DecidableEq, Repr

/-- A random URL-safe token, named like an identifier. -/
abbrev Token := Uuid

/-- Microseconds. -/
abbrev Time := Nat

/-- A hexadecimal digest, read as a number. -/
abbrev Digest := Nat

def seconds (n : Nat) : Time :=
  n * 1000000

/-- The whole second a time falls in. -/
def wholeSecond (t : Time) : Time :=
  t / 1000000 * 1000000

theorem wholeSecond_le (t : Time) : wholeSecond t ≤ t :=
  Nat.div_mul_le_self t 1000000

theorem wholeSecond_mono {s t : Time} (h : s ≤ t) : wholeSecond s ≤ wholeSecond t :=
  Nat.mul_le_mul_right _ (Nat.div_le_div_right h)

def accessTtlSeconds : Nat := 900
def idleTimeoutSeconds : Nat := 900
def sessionAbsoluteSeconds : Nat := 86400
def refreshFamilySeconds : Nat := 2592000
def maxActiveSessions : Nat := 10

inductive ClientType where
  | web
  | mobile
deriving DecidableEq, Repr

inductive UserState where
  | pending
  | active
  | locked
  | suspended
  | disabled
  | anonymized
deriving DecidableEq, Repr

inductive WorkspaceType where
  | personal
  | organization
deriving DecidableEq, Repr

def WorkspaceType.value : WorkspaceType → String
  | personal => "personal"
  | organization => "organization"

inductive ReferralState where
  | invited
  | registered
  | verified
  | expired
  | revoked
deriving DecidableEq, Repr

inductive OrganizationRole where
  | owner
  | member
  | viewer
deriving DecidableEq, Repr

def OrganizationRole.value : OrganizationRole → String
  | owner => "OWNER"
  | member => "MEMBER"
  | viewer => "VIEWER"

inductive StaffRole where
  | supportAgentL2
  | securitySupervisorL3
  | accountAdmin
deriving DecidableEq, Repr

inductive IdentityProvider where
  | password
  | google
  | apple
  | microsoft
  | phone
deriving DecidableEq, Repr

def IdentityProvider.value : IdentityProvider → String
  | password => "password"
  | google => "google"
  | apple => "apple"
  | microsoft => "microsoft"
  | phone => "phone"

inductive ContactType where
  | email
  | phone
deriving DecidableEq, Repr

inductive ContactProof where
  | old
  | new
deriving DecidableEq, Repr

inductive PasswordResetOutcome where
  | updated
  | invalid
  | reused
deriving DecidableEq, Repr

inductive TokenPurpose where
  | emailVerify
  | passwordReset
  | supportRecovery
deriving DecidableEq, Repr

inductive ContactChangeState where
  | pending
  | applied
  | expired
  | cancelled
deriving DecidableEq, Repr

inductive GovernedState where
  | pending
  | approved
  | rejected
  | executed
  | expired
  | cancelled
deriving DecidableEq, Repr

inductive RequestState where
  | requested
  | processing
  | completed
  | failed
  | cancelled
deriving DecidableEq, Repr

def RequestState.value : RequestState → String
  | requested => "requested"
  | processing => "processing"
  | completed => "completed"
  | failed => "failed"
  | cancelled => "cancelled"

inductive FactorType where
  | totp
  | sms
  | email
  | passkey
  | backupCodes
deriving DecidableEq, Repr

inductive FactorStatus where
  | pending
  | active
  | revoked
deriving DecidableEq, Repr

inductive MFAMethod where
  | totp
  | emailOtp
  | smsOtp
  | passkey
  | backupCode
deriving DecidableEq, Repr

def MFAMethod.value : MFAMethod → String
  | totp => "totp"
  | emailOtp => "email_otp"
  | smsOtp => "sms_otp"
  | passkey => "passkey"
  | backupCode => "backup_code"

inductive LoginDecisionType where
  | sessionReady
  | mfaRequired
  | collisionProofRequired
  | passkeyPrimary
deriving DecidableEq, Repr

def LoginDecisionType.value : LoginDecisionType → String
  | sessionReady => "session_ready"
  | mfaRequired => "mfa_required"
  | collisionProofRequired => "collision_proof_required"
  | passkeyPrimary => "passkey_primary"

inductive RiskLevel where
  | low
  | medium
  | high
deriving DecidableEq, Repr

inductive RotationStatus where
  | rotated
  | invalid
  | reused
  | expired
  | clientMismatch
deriving DecidableEq, Repr

/-- What an access token states.  Times are whole seconds. -/
structure AccessClaims where
  userId : Uuid
  sessionId : Uuid
  familyId : Uuid
  jti : Uuid
  issuedAt : Time
  expiresAt : Time
  clientType : ClientType
  assurance : List String
  workspaceId : Option Uuid
  workspaceType : Option WorkspaceType
  roles : List String
deriving DecidableEq, Repr

structure TokenPair where
  accessToken : AccessClaims
  refreshToken : Token
  accessExpiresAt : Time
  refreshExpiresAt : Time
  sessionId : Uuid
  csrfToken : Option Token
deriving DecidableEq, Repr

structure SessionRecord where
  sessionId : Uuid
  familyId : Uuid
  userId : Uuid
  accessJti : Uuid
  clientType : ClientType
  deviceFingerprintHash : Digest
  ipAddress : Option String
  createdAt : Time
  lastActivityAt : Time
  expiresAt : Time
  revokedAt : Option Time
deriving DecidableEq, Repr

structure SessionSummary where
  sessionId : Uuid
  clientType : ClientType
  deviceFingerprintHash : Digest
  ipAddress : Option String
  createdAt : Time
  lastActivityAt : Time
  expiresAt : Time
  current : Bool
deriving DecidableEq, Repr

structure RevocationResult where
  userId : Uuid
  familyId : Uuid
  accessJti : Uuid
deriving DecidableEq, Repr

structure CreatedSession where
  record : SessionRecord
  evicted : List RevocationResult
deriving DecidableEq, Repr

structure RotationResult where
  status : RotationStatus
  record : Option SessionRecord
  revoked : Option RevocationResult
deriving DecidableEq, Repr

structure WorkspaceSummary where
  workspaceId : Uuid
  name : String
  slug : String
  workspaceType : WorkspaceType
  roles : List String
deriving DecidableEq, Repr

structure InvitationRecord where
  invitationId : Uuid
  workspaceId : Uuid
  inviteeEmail : String
  role : OrganizationRole
  expiresAt : Time
deriving DecidableEq, Repr

structure MemberSummary where
  userId : Uuid
  email : Option String
  givenName : Option String
  familyName : Option String
  roles : List OrganizationRole
deriving DecidableEq, Repr

structure OffboardResult where
  userId : Uuid
  revokedAccessJtis : List Uuid
deriving DecidableEq, Repr

structure PrivacyRequestRecord where
  requestId : Uuid
  userId : Uuid
  state : String
  completedAt : Option Time
  failureCode : Option String
  backupPurgeDueAt : Option Time
  artifactExpiresAt : Option Time
deriving DecidableEq, Repr

structure PendingContact where
  userId : Uuid
  state : UserState
deriving DecidableEq, Repr

structure RecoveryUser where
  userId : Uuid
  email : Option String
  phoneE164 : Option String
  state : UserState
  version : Nat
deriving DecidableEq, Repr

structure ContactChangeRecord where
  requestId : Uuid
  userId : Uuid
  contactType : ContactType
  oldValue : String
  newValue : String
  expiresAt : Time
  oldVerifiedAt : Option Time
  newVerifiedAt : Option Time
  appliedAt : Option Time
deriving DecidableEq, Repr

structure GovernedResetRecord where
  requestId : Uuid
  targetUserId : Uuid
  initiatorUserId : Uuid
  approverUserId : Option Uuid
  state : GovernedState
  executeAfter : Time
  approvedAt : Option Time
  executedAt : Option Time
  ticketReference : String
deriving DecidableEq, Repr

structure LoginIdentity where
  userId : Uuid
  state : UserState
  passwordHash : Option String
  verified : Bool
  hasPhone : Bool
deriving DecidableEq, Repr

structure DeviceSignals where
  known : Bool
  trusted : Bool
  ipChanged : Bool
deriving DecidableEq, Repr

structure LoginDecision where
  decision : LoginDecisionType
  risk : RiskLevel
  workflowToken : Token
  allowedMethods : List String
deriving DecidableEq, Repr

structure OIDCProfile where
  provider : IdentityProvider
  subject : String
  email : String
  emailVerified : Bool
  givenName : Option String
  familyName : Option String
deriving DecidableEq, Repr

structure MFAUserProfile where
  userId : Uuid
  state : UserState
  email : Option String
  phoneE164 : Option String
deriving DecidableEq, Repr

structure StoredPasskey where
  credentialId : String
  mfaId : Uuid
  userId : Uuid
  publicKey : String
  signCount : Nat
deriving DecidableEq, Repr

/-- `completed none` is an identity that has been linked, `completed (some w)`
the token of a workflow that is ready for a session. -/
structure MFACompletion where
  workflowToken : Option Token
  backupCodes : List Token
deriving DecidableEq, Repr

end AuthCore
