/-
The tables, the rows that can be locked and the changes the repositories make.
A primary key is the key of its table; a column that no modelled statement
reads is left out.
-/
import AuthCore.Interleave.Program
import AuthCore.Relational.Table
import AuthCore.Model.Values

namespace AuthCore

open Interleave Relational

structure User where
  email : Option String
  givenName : Option String
  familyName : Option String
  phoneE164 : Option String
  state : UserState
  version : Nat
  anonymizedAt : Option Time
deriving DecidableEq, Repr

structure Identity where
  userId : Uuid
  provider : IdentityProvider
  providerSubject : String
  passwordHash : Option String
  verified : Bool
deriving DecidableEq, Repr

/-- A sealed secret, or the digests of the recovery codes that are left. -/
inductive FactorSecret where
  | sealed (bytes : String)
  | codes (hashes : List Digest)
deriving DecidableEq, Repr

structure MFADevice where
  userId : Uuid
  factorType : FactorType
  encryptedSecret : Option FactorSecret
  status : FactorStatus
  label : Option String
  verifiedAt : Option Time
  revokedAt : Option Time
  lastTotpStep : Option Nat
  lastUsedAt : Option Time
deriving DecidableEq, Repr

structure WebAuthnCredential where
  mfaId : Uuid
  publicKey : String
  signCount : Nat
  backupState : Bool
deriving DecidableEq, Repr

structure RefreshTokenFamily where
  userId : Uuid
  deviceFingerprintHash : Digest
  clientId : ClientType
  createdAt : Time
  absoluteExpiresAt : Time
  revokedAt : Option Time
  revocationReason : Option String
deriving DecidableEq, Repr

structure RefreshToken where
  familyId : Uuid
  tokenHash : Digest
  generation : Nat
  issuedAt : Time
  usedAt : Option Time
  revokedAt : Option Time
  expiresAt : Time
deriving DecidableEq, Repr

structure Session where
  familyId : Uuid
  userId : Uuid
  orgId : Option Uuid
  accessJti : Uuid
  clientId : ClientType
  deviceFingerprintHash : Digest
  ipAddress : Option String
  createdAt : Time
  lastActivityAt : Time
  expiresAt : Time
  revokedAt : Option Time
deriving DecidableEq, Repr

inductive OrganizationState where
  | active
  | suspended
  | closed
deriving DecidableEq, Repr

structure Organization where
  name : String
  slug : String
  workspaceType : WorkspaceType
  personalOwnerUserId : Option Uuid
  state : OrganizationState
deriving DecidableEq, Repr

structure RolePermissionCatalog where
  role : String
  permission : String
  active : Bool
deriving DecidableEq, Repr

structure UserRoleBinding where
  userId : Uuid
  orgId : Uuid
  catalogId : Uuid
  grantedByUserId : Uuid
  revokedAt : Option Time
deriving DecidableEq, Repr

inductive InvitationState where
  | pending
  | accepted
  | expired
  | revoked
deriving DecidableEq, Repr

structure Invitation where
  orgId : Uuid
  inviteeEmail : String
  tokenHash : Digest
  proposedRoles : List String
  issuedByUserId : Uuid
  state : InvitationState
  expiresAt : Time
  acceptedAt : Option Time
deriving DecidableEq, Repr

inductive DeviceTrust where
  | unknown
  | trusted
  | blocked
deriving DecidableEq, Repr

structure TrustedDevice where
  userId : Uuid
  fingerprintHash : Digest
  trustState : DeviceTrust
  lastIpAddress : Option String
  lastSeenAt : Time
deriving DecidableEq, Repr

structure StaffRoleBinding where
  userId : Uuid
  role : StaffRole
  revokedAt : Option Time
deriving DecidableEq, Repr

/-- A privacy request of type `erasure`. -/
structure GDPRRequest where
  userId : Uuid
  state : String
  idempotencyKeyHash : Digest
  completedAt : Option Time
  failureCode : Option String
  backupPurgeDueAt : Option Time
deriving DecidableEq, Repr

structure PasswordHistory where
  identityId : Uuid
  passwordHash : String
  createdAt : Time
deriving DecidableEq, Repr

/-- A mailed token; every row that the code inserts has a user. -/
structure EphemeralToken where
  userId : Uuid
  tokenHash : Digest
  purpose : TokenPurpose
  expiresAt : Time
  consumedAt : Option Time
deriving DecidableEq, Repr

structure ContactChangeRequest where
  userId : Uuid
  contactType : ContactType
  oldValue : String
  newValue : String
  oldCodeHash : Digest
  newCodeHash : Digest
  state : ContactChangeState
  expiresAt : Time
  oldVerifiedAt : Option Time
  newVerifiedAt : Option Time
  appliedAt : Option Time
deriving DecidableEq, Repr

/-- A governed request of type `mfa_reset`, the only type there is. -/
structure GovernedRequest where
  targetUserId : Uuid
  initiatorUserId : Uuid
  approverUserId : Option Uuid
  state : GovernedState
  executeAfter : Time
  approvedAt : Option Time
  executedAt : Option Time
  targetUserVersion : Nat
  ticketReference : String
deriving DecidableEq, Repr

/-- A privacy request of type `export`; a reference names the request whose
artifact it is. -/
structure ExportRequest where
  userId : Uuid
  state : RequestState
  idempotencyKeyHash : Digest
  completedAt : Option Time
  artifactReference : Option Uuid
  artifactExpiresAt : Option Time
  failureCode : Option String
deriving DecidableEq, Repr

structure PrivacyExportArtifact where
  requestId : Uuid
  userId : Uuid
  encryptedContent : String
  contentDigest : String
  expiresAt : Time
deriving DecidableEq, Repr

/-- What `collect_export_data` gathers about a user; a role comes with the
workspace's name. -/
structure ExportData where
  generatedAt : Time
  profile : User
  identities : List Identity
  factors : List MFADevice
  sessions : List (Uuid × Session)
  devices : List TrustedDevice
  roles : List (UserRoleBinding × String × String)

/-- An invitation to register; `referredUserId` is who registered with it. -/
structure Referral where
  referrerUserId : Uuid
  inviteeEmail : String
  tokenHash : Digest
  referredUserId : Option Uuid
  state : ReferralState
  expiresAt : Time
deriving DecidableEq, Repr

structure AuditLog where
  actorUserId : Option Uuid
  subjectUserId : Option Uuid
  orgId : Option Uuid
  eventType : String
  outcome : String
deriving DecidableEq, Repr

structure Db where
  users : Table Uuid User
  identities : Table Uuid Identity
  mfaDevices : Table Uuid MFADevice
  credentials : Table String WebAuthnCredential
  families : Table Uuid RefreshTokenFamily
  tokens : Table Uuid RefreshToken
  sessions : Table Uuid Session
  organizations : Table Uuid Organization
  catalog : Table Uuid RolePermissionCatalog
  bindings : Table Uuid UserRoleBinding
  invitations : Table Uuid Invitation
  devices : Table Uuid TrustedDevice
  staff : Table Uuid StaffRoleBinding
  requests : Table Uuid GDPRRequest
  history : Table Uuid PasswordHistory
  ephemeral : Table Uuid EphemeralToken
  contactChanges : Table Uuid ContactChangeRequest
  governed : Table Uuid GovernedRequest
  exports : Table Uuid ExportRequest
  artifacts : Table Uuid PrivacyExportArtifact
  referrals : Table Uuid Referral
  audit : List AuditLog

/-- The unique indexes whose violation the code can meet. -/
inductive IndexKey where
  | tokenHash (hash : Digest)
  | roleBinding (user org catalog : Uuid)
  | request (user : Uuid) (keyHash : Digest)
  | identity (provider : IdentityProvider) (subject : String)
  | device (user : Uuid) (fingerprint : Digest)
  | email (address : String)
  | phone (number : String)
  | mailedToken (hash : Digest)
  | «export» (user : Uuid) (keyHash : Digest)
  | artifact (id : Uuid)
deriving DecidableEq, Repr

/-- The rows that occupy an index entry. -/
def IndexKey.entries (d : Db) : IndexKey → List Uuid
  | tokenHash hash => (d.tokens.select fun _ t => t.tokenHash == hash).map Prod.fst
  | roleBinding user org catalog =>
      (d.bindings.select fun _ b => b.userId == user && b.orgId == org &&
        b.catalogId == catalog && b.revokedAt.isNone).map Prod.fst
  | request user keyHash =>
      (d.requests.select fun _ r => r.userId == user &&
        r.idempotencyKeyHash == keyHash).map Prod.fst
  | identity provider subject =>
      (d.identities.select fun _ x => x.provider == provider &&
        x.providerSubject == subject).map Prod.fst
  | device user fingerprint =>
      (d.devices.select fun _ v => v.userId == user &&
        v.fingerprintHash == fingerprint).map Prod.fst
  | email address =>
      (d.users.select fun _ u => u.email == some address && u.anonymizedAt.isNone).map Prod.fst
  | phone number =>
      (d.users.select fun _ u => u.phoneE164 == some number &&
        u.anonymizedAt.isNone).map Prod.fst
  | mailedToken hash => (d.ephemeral.select fun _ t => t.tokenHash == hash).map Prod.fst
  | «export» user keyHash =>
      (d.exports.select fun _ r => r.userId == user &&
        r.idempotencyKeyHash == keyHash).map Prod.fst
  | artifact id => (d.artifacts.select fun _ a => a.requestId == id).map Prod.fst

/-- A password or phone identity, as opposed to one of a social account. -/
def Identity.isLocal (identity : Identity) : Bool :=
  identity.provider == .password || identity.provider == .phone

/-- What the lock on a user keeps still: its password and phone identities are
added and removed with the user's row locked, and so are its pending contact
changes. -/
structure UserView where
  row : Option User
  passwords : List Uuid
  phones : List Uuid
  pending : List Uuid

def Db.userView (d : Db) (user : Uuid) : UserView where
  row := d.users.get user
  passwords := (d.identities.select fun _ x => x.userId == user &&
    x.provider == .password).map Prod.fst
  phones := (d.identities.select fun _ x => x.userId == user &&
    x.provider == .phone).map Prod.fst
  pending := (d.contactChanges.select fun _ r => r.userId == user &&
    r.state == .pending).map Prod.fst

/-- An identity with its password history, which changes with the identity's
row locked. -/
structure IdentityView where
  row : Option Identity
  history : List (Uuid × PasswordHistory)

def Db.identityView (d : Db) (identity : Uuid) : IdentityView where
  row := d.identities.get identity
  history := d.history.select fun _ h => h.identityId == identity

/-- What the lock on a refresh-token family keeps still: every statement that
touches a refresh token or adds a session holds the lock of its family. -/
structure FamilyView where
  row : Option RefreshTokenFamily
  tokens : List (Uuid × RefreshToken)
  sessions : List Uuid

def Db.familyView (d : Db) (family : Uuid) : FamilyView where
  row := d.families.get family
  tokens := d.tokens.select fun _ t => t.familyId == family
  sessions := (d.sessions.select fun _ s => s.familyId == family).map Prod.fst

inductive Row where
  | user (id : Uuid)
  | identity (id : Uuid)
  | factor (id : Uuid)
  | credential (id : String)
  | family (id : Uuid)
  | session (id : Uuid)
  | organization (id : Uuid)
  | binding (id : Uuid)
  | invitation (id : Uuid)
  | device (id : Uuid)
  | request (id : Uuid)
  | mailed (id : Uuid)
  | contactChange (id : Uuid)
  | governed (id : Uuid)
  | «export» (id : Uuid)
  | index (key : IndexKey)
deriving DecidableEq, Repr

def Row.View : Row → Type
  | user _ => UserView
  | identity _ => IdentityView
  | factor _ => Option MFADevice
  | credential _ => Option WebAuthnCredential
  | family _ => FamilyView
  | session _ => Option Session
  | organization _ => Option Organization
  | binding _ => Option UserRoleBinding
  | invitation _ => Option Invitation
  | device _ => Option TrustedDevice
  | request _ => Option GDPRRequest
  | mailed _ => Option EphemeralToken
  | contactChange _ => Option ContactChangeRequest
  | governed _ => Option GovernedRequest
  | «export» _ => Option ExportRequest
  | index _ => List Uuid

def Row.view : (row : Row) → Db → row.View
  | user id, d => d.userView id
  | identity id, d => d.identityView id
  | factor id, d => d.mfaDevices.get id
  | credential id, d => d.credentials.get id
  | family id, d => d.familyView id
  | session id, d => d.sessions.get id
  | organization id, d => d.organizations.get id
  | binding id, d => d.bindings.get id
  | invitation id, d => d.invitations.get id
  | device id, d => d.devices.get id
  | request id, d => d.requests.get id
  | mailed id, d => d.ephemeral.get id
  | contactChange id, d => d.contactChanges.get id
  | governed id, d => d.governed.get id
  | «export» id, d => d.exports.get id
  | index key, d => key.entries d

abbrev schema : Rows Db where
  Row := Row
  View := Row.View
  view := Row.view

end AuthCore
