/-
What a call records: every command of the store, every query and every commit
with its arguments and its answer.  The log is the run as the statements see it;
no call reads it.
-/
import AuthCore.Model.Schema
import AuthCore.Model.Store

namespace AuthCore

open Interleave

structure CreateArgs where
  userId : Uuid
  clientType : ClientType
  fingerprintHash : Digest
  ip : Option String
  refreshTokenHash : Digest
  accessJti : Uuid
  familyExpiresAt : Time
  sessionExpiresAt : Time
  refreshExpiresAt : Time
  now : Time
  familyId : Uuid
  sessionId : Uuid
  refreshTokenId : Uuid
deriving DecidableEq, Repr

structure RotateArgs where
  tokenHash : Digest
  replacementHash : Digest
  replacementExpiresAt : Time
  newAccessJti : Uuid
  clientType : ClientType
  fingerprintHash : Digest
  idleTimeout : Nat
  now : Time
  replacementId : Uuid
deriving DecidableEq, Repr

/-- The joined row that a presented token hash finds. -/
structure TokenMatch where
  tokenId : Uuid
  familyId : Uuid
  sessionId : Uuid
deriving DecidableEq, Repr

/-- A session joined with its family. -/
structure SessionMatch where
  sessionId : Uuid
  familyId : Uuid
deriving DecidableEq, Repr

structure RevokeArgs where
  userId : Uuid
  sessionId : Uuid
  reason : String
  now : Time
deriving DecidableEq, Repr

structure RevokeAllArgs where
  userId : Uuid
  reason : String
  now : Time
deriving DecidableEq, Repr

structure ScopeArgs where
  userId : Uuid
  sessionId : Uuid
  workspaceId : Uuid
  accessJti : Uuid
  now : Time
deriving DecidableEq, Repr

inductive SessionEvent where
  | userIsActive (user : Uuid) (answer : Bool)
  | capCandidates (user : Uuid) (now : Time) (found : List SessionMatch)
  | created (args : CreateArgs) (found : List SessionMatch) (result : CreatedSession)
  | presented (hash : Digest) (found : Option TokenMatch)
  | rotated (args : RotateArgs) (found : Option TokenMatch) (result : RotationResult)
  | sessionFound (user session : Uuid) (found : Option SessionMatch)
  | revoked (args : RevokeArgs) (found : Option SessionMatch) (result : Option RevocationResult)
  | activeSessions (user : Uuid) (found : List SessionMatch)
  | revokedAll (args : RevokeAllArgs) (found : List SessionMatch)
      (results : List RevocationResult)
  | listed (user : Uuid) (now : Time) (values : List SessionSummary)
  | sessionIsActive (session : Uuid) (now : Time) (answer : Bool)
  | scopeFound (args : ScopeArgs) (found : Option SessionMatch)
  | scoped (args : ScopeArgs) (found : Option SessionMatch) (result : Option Uuid)
deriving DecidableEq, Repr

structure OrganizationArgs where
  userId : Uuid
  name : String
  slug : String
  workspaceId : Uuid
  call : Nat
deriving DecidableEq, Repr

structure InviteArgs where
  actor : Uuid
  workspace : Uuid
  email : String
  role : OrganizationRole
  tokenHash : Digest
  expiresAt : Time
  invitationId : Uuid
deriving DecidableEq, Repr

structure AcceptArgs where
  userId : Uuid
  tokenHash : Digest
  now : Time
  call : Nat
deriving DecidableEq, Repr

/-- `call` names the identifiers that the transaction draws. -/
structure MemberArgs where
  actor : Uuid
  workspace : Uuid
  member : Uuid
  now : Time
  call : Nat
deriving DecidableEq, Repr

/-- The locked invitation and the catalog entries an acceptance grants. -/
structure Admission where
  invitationId : Uuid
  invitation : Invitation
  catalog : List Uuid
deriving DecidableEq, Repr

/-- The bindings found and the catalog entries granted in their place. -/
structure RoleChange where
  found : List Uuid
  catalog : List Uuid
deriving DecidableEq, Repr

/-- The bindings and the scoped sessions an offboarding finds. -/
structure Departure where
  found : List Uuid
  sessions : List Uuid
deriving DecidableEq, Repr

inductive WorkspaceEvent where
  | organization (workspace : Uuid) (answer : Option Organization)
  | roles (user org : Uuid) (answer : List String)
  | permission (user org : Uuid) (permission : String) (answer : Bool)
  | ownerCount (org : Uuid) (answer : Nat)
  | catalogForRole (role : String) (answer : List Uuid)
  | user (id : Uuid) (answer : Option User)
  | userWithEmail (email : String) (answer : Option Uuid)
  | pendingInvitations (org : Uuid) (email : String) (found : List Uuid)
  | invitationWithHash (hash : Digest) (now : Time) (found : Option (Uuid × Uuid))
  | bindingsFound (user org : Uuid) (found : List Uuid)
  | workspacesFound (user : Uuid) (found : List Uuid)
  | sessionsFound (user org : Uuid) (found : List Uuid)
  | organizationCreated (args : OrganizationArgs) (catalog : List Uuid)
      (result : WorkspaceSummary)
  | invited (args : InviteArgs) (pending : List Uuid) (result : Option InvitationRecord)
  | invitationRevoked (args : InviteArgs)
  | accepted (args : AcceptArgs) (admitted : Option Admission)
      (result : Option WorkspaceSummary)
  | replaced (args : MemberArgs) (role : OrganizationRole) (changed : Option RoleChange)
      (result : Option MemberSummary)
  | offboarded (args : MemberArgs) (changed : Option Departure)
      (result : Option OffboardResult)
deriving DecidableEq, Repr

structure ErasureArgs where
  requestId : Uuid
  userId : Uuid
  pseudonym : String
  now : Time
  backupPurgeDueAt : Time
deriving DecidableEq, Repr

/-- The export artifacts, the requests and the mailed tokens that an erasure
finds, and the phone number the account had. -/
structure RequestsFound where
  artifacts : List Uuid
  exports : List Uuid
  contactChanges : List Uuid
  mailed : List Uuid
  phone : Option String
deriving DecidableEq, Repr

/-- The rows that the statements of an erasure find. -/
structure ErasureFound where
  factors : List (Uuid × List String)
  devices : List Uuid
  bindings : List Uuid
  identities : List Uuid
  families : List Uuid
  invitations : List Uuid
  organizations : List Uuid
  requests : RequestsFound
deriving DecidableEq, Repr

/-- What an erasure did: nothing, a refusal noted on the request, or the
deletion of what it found of an account with this address. -/
inductive ErasureOutcome where
  | nothing
  | refused
  | erased (email : Option String) (found : ErasureFound)
deriving DecidableEq, Repr

structure CompleteArgs where
  requestId : Uuid
  userId : Uuid
  encryptedContent : String
  contentDigest : String
  artifactExpiresAt : Time
  now : Time
  artifactId : Uuid
deriving DecidableEq, Repr

inductive AccountEvent where
  | staffRole (user : Uuid) (role : StaffRole) (answer : Bool)
  | suspended (target actor : Uuid) (result : Bool)
  | ownedOrganizations (user : Uuid) (answer : List Uuid)
  | otherOwners (user org : Uuid) (answer : Nat)
  | existingRequest (user : Uuid) (keyHash : Digest) (found : Option Uuid)
  | requestCreated (id user : Uuid) (keyHash : Digest)
      (result : Option PrivacyRequestRecord × Bool)
  | found (user : Uuid) (what : String) (ids : List Uuid)
  | factorsFound (user : Uuid) (found : List (Uuid × List String))
  | erased (args : ErasureArgs) (outcome : ErasureOutcome)
      (result : Option PrivacyRequestRecord)
  | requestFailed (id user : Uuid) (code : String)
  | existingExport (user : Uuid) (keyHash : Digest) (found : Option Uuid)
  | exportCreated (id user : Uuid) (keyHash : Digest) (expiresAt : Time)
      (result : PrivacyRequestRecord × Bool)
  | collected (user : Uuid) (known : Bool)
  | exportCompleted (args : CompleteArgs) (result : PrivacyRequestRecord)
  | exportFailed (id user : Uuid) (code : String)
deriving DecidableEq, Repr

structure EmailArgs where
  email : String
  givenName : String
  familyName : String
  passwordHash : String
  tokenHash : Digest
  expiresAt : Time
  started : Time
  slug : String
  call : Nat
deriving DecidableEq, Repr

structure PhoneArgs where
  phone : String
  givenName : Option String
  familyName : Option String
  slug : String
  call : Nat
deriving DecidableEq, Repr

/-- A new mailed token; those of `purposes` that are left are used up. -/
structure MailArgs where
  userId : Uuid
  tokenHash : Digest
  purpose : TokenPurpose
  purposes : List TokenPurpose
  expiresAt : Time
  now : Time
  tokenId : Uuid
  entry : AuditLog
deriving DecidableEq, Repr

structure ResetArgs where
  tokenHash : Digest
  password : String
  passwordHash : String
  now : Time
  started : Time
  historyId : Uuid
deriving DecidableEq, Repr

structure ContactArgs where
  userId : Uuid
  contactType : ContactType
  newValue : String
  oldCodeHash : Digest
  newCodeHash : Digest
  expiresAt : Time
  requestId : Uuid
deriving DecidableEq, Repr

structure ProofArgs where
  userId : Uuid
  requestId : Uuid
  proof : ContactProof
  codeHash : Digest
  now : Time
deriving DecidableEq, Repr

structure InitiateArgs where
  actor : Uuid
  target : Uuid
  ticketReference : String
  executeAfter : Time
  requestId : Uuid
deriving DecidableEq, Repr

structure GovernedArgs where
  actor : Uuid
  requestId : Uuid
  now : Time
deriving DecidableEq, Repr

inductive RecoveryEvent where
  | breached (found : Option Bool)
  | contact (contactType : ContactType) (value : String) (answer : Option PendingContact)
  | eligible (email : String) (answer : Option RecoveryUser)
  | hasPassword (user : Uuid) (answer : Bool)
  | mailedFound (hash : Digest) (found : Option Uuid)
  | unusedFound (user : Uuid) (purposes : List TokenPurpose) (found : List Uuid)
  | conflict (value : String) (answer : Bool)
  | target (user : Uuid) (answer : Option User)
  | governed (request : Uuid) (answer : Option GovernedRequest)
  | factorsFound (user : Uuid) (found : List Uuid)
  | emailRegistered (args : EmailArgs)
  | phoneRegistered (args : PhoneArgs)
  | mailed (args : MailArgs) (found : List Uuid)
  | emailVerified (hash : Digest) (now : Time) (found : Option Uuid) (result : Bool)
  | phoneVerified (user : Uuid) (result : Bool)
  | passwordReset (args : ResetArgs) (found : Option Uuid)
      (result : PasswordResetOutcome × Option RecoveryUser)
  | contactStarted (args : ContactArgs) (result : Option ContactChangeRecord)
  | contactVerified (args : ProofArgs) (result : Option ContactChangeRecord)
  | unlocked (target actor : Uuid) (result : Option RecoveryUser)
  | resetInitiated (args : InitiateArgs) (user : Option User)
      (result : Option (GovernedResetRecord × RecoveryUser))
  | resetApproved (args : GovernedArgs) (result : Option GovernedResetRecord)
  | resetExecuted (args : GovernedArgs) (found : List Uuid)
      (result : Option (GovernedResetRecord × RecoveryUser))
deriving DecidableEq, Repr

structure SignalArgs where
  userId : Uuid
  fingerprintHash : Digest
  ip : Option String
  now : Time
  deviceId : Uuid
deriving DecidableEq, Repr

structure ProvisionArgs where
  profile : OIDCProfile
  email : String
  userId : Uuid
  identityId : Uuid
  workspaceId : Uuid
  slug : String
deriving DecidableEq, Repr

inductive LoginEvent where
  | identity (provider : IdentityProvider) (subject : String) (answer : Option LoginIdentity)
  | activeUserByEmail (email : String) (answer : Option LoginIdentity)
  | deviceFound (user : Uuid) (fingerprint : Digest) (found : Option Uuid)
  | signalled (args : SignalArgs) (found : Option Uuid) (result : DeviceSignals)
  | verifiedIdentities (user : Uuid) (answer : List (Uuid × Identity))
  | passwordIdentity (user : Uuid) (found : Option Uuid)
  | passwordUpdated (user : Uuid) (hash : String) (found : Option Uuid)
  | provisioned (args : ProvisionArgs) (result : LoginIdentity)
deriving DecidableEq, Repr

inductive MFAEvent where
  | user (id : Uuid) (answer : Option User)
  | passwordHash (user : Uuid) (answer : Option String)
  | activeFactors (user : Uuid) (answer : List (Uuid × MFADevice))
  | factor (user id : Uuid) (answer : Option MFADevice)
  | pendingTotps (user : Uuid) (found : List Uuid)
  | pendingTotpCreated (user : Uuid) (secret label : String) (id : Uuid) (now : Time)
      (found : List Uuid)
  | totpActivated (user id : Uuid) (step : Nat) (now : Time) (result : Bool)
  | totpAdvanced (id : Uuid) (previous : Option Nat) (step : Nat) (now : Time) (result : Bool)
  | backupFactor (user : Uuid) (found : Option Uuid)
  | backupStored (user : Uuid) (hashes : List Digest) (id : Uuid) (now : Time)
      (found : Option Uuid)
  | backupConsumed (user : Uuid) (candidate : Digest) (now : Time) (found : Option Uuid)
      (result : Bool)
  | passkeys (user : Uuid) (answer : List StoredPasskey)
  | passkey (credential : String) (answer : Option StoredPasskey)
  | passkeyCreated (user : Uuid) (label credential publicKey : String) (signCount : Nat)
      (id : Uuid) (now : Time)
  | counterUpdated (credential : String) (previous new : Nat) (backupState : Bool)
      (result : Bool)
  | factorRevoked (user id : Uuid) (now : Time) (result : Bool)
  | linked (user : Uuid) (provider : IdentityProvider) (subject : String) (id : Uuid)
deriving DecidableEq, Repr

inductive Event where
  | called (call : Call)
  | returned (result : Except AuthError Result)
  | clock (now : Time)
  | sent (recipient : String) (delivered : Bool)
  | captcha (valid : Option Bool)
  | signed (claims : AccessClaims)
  | verified (token : AccessClaims) (accepted : Bool)
  | got (key : CacheKey) (value : Option key.Value)
  | taken (key : CacheKey) (value : Option key.Value)
  | put (key : CacheKey) (value : key.Value) (ttl : Nat)
  | removed (key : CacheKey)
  | counted (route : String) (subject : Subject) (window : Nat) (count : Nat)
  | otpStored (user : Uuid) (purpose : OtpPurpose) (hash : Digest)
  | otpExpires (user : Uuid) (purpose : OtpPurpose)
  | otpTried (user : Uuid) (purpose : OtpPurpose) (candidate : Digest) (attempts : Nat)
      (outcome : Int)
  | audited (entry : AuditLog)
  | session (event : SessionEvent)
  | workspace (event : WorkspaceEvent)
  | account (event : AccountEvent)
  | login (event : LoginEvent)
  | mfa (event : MFAEvent)
  | recovery (event : RecoveryEvent)

/-- Everything outside the database: the clock, the store, the access tokens
ever signed and the log. -/
structure World where
  now : Time
  cache : Cache
  issued : List AccessClaims
  log : List (Nat × Event)

def World.record (w : World) (i : Nat) (e : Event) : World :=
  { w with log := (i, e) :: w.log }

abbrev Proc := Prog schema World AuthError
abbrev Trans := Tx schema World AuthError

end AuthCore
