/-
What a recorded event did to the database and the store, and what its recorded
answer says about the state it was recorded in.  A transaction that queries
between its writes is recorded with the rows it found, so its commit is the
commit of its writes alone.
-/
import AuthCore.Interleave.Ledger
import AuthCore.Model.Service

namespace AuthCore

open Interleave

/-- The writes of an acceptance, without its queries. -/
def acceptWrites (args : AcceptArgs) (admission : Admission) (audited : Bool) : Trans Unit := do
  WorkspaceRepository.join args admission
  if audited then
    WorkspaceRepository.audit "ORGANIZATION_INVITATION_ACCEPTED" args.userId
      (some admission.invitation.orgId)
  else
    return ()

/-- The writes of a role replacement, without its queries. -/
def replaceWrites (args : MemberArgs) (change : RoleChange) (audited : Bool) : Trans Unit := do
  WorkspaceRepository.swapRole args change
  if audited then
    WorkspaceRepository.audit "ORGANIZATION_MEMBER_ROLE_REPLACED" args.actor
      (some args.workspace)
  else
    return ()

/-- The writes of an offboarding, without its queries. -/
def offboardWrites (args : MemberArgs) (departure : Departure) : Trans (List Uuid) := do
  let _ ← Tx.collect (WorkspaceRepository.revokeBinding args.member args.workspace args.now)
    departure.found
  let jtis ← WorkspaceRepository.unscopeAll args departure.sessions
  WorkspaceRepository.audit "ORGANIZATION_MEMBER_OFFBOARDED" args.actor (some args.workspace)
  return jtis

/-- The first writes of an erasure, without its queries. -/
def eraseRequestWrites (user : Uuid) (found : RequestsFound) : Trans Unit := do
  write (DbChange.deleteArtifacts user found.artifacts)
  Tx.each (PrivacyRepository.cancelExport user) found.exports
  Tx.each (PrivacyRepository.deleteContactChange user) found.contactChanges
  Tx.each (PrivacyRepository.deleteMailed user) found.mailed

/-- The writes of an erasure, without its queries. -/
def eraseWrites (args : ErasureArgs) (email : Option String) (found : ErasureFound) :
    Trans Unit := do
  eraseRequestWrites args.userId found.requests
  Tx.each (PrivacyRepository.deleteFactor args.userId) found.factors
  Tx.each (PrivacyRepository.deleteDevice args.userId) found.devices
  write (DbChange.deleteStaffRoles args.userId)
  Tx.each (PrivacyRepository.deleteBinding args.userId) found.bindings
  Tx.each (PrivacyRepository.deleteIdentity args.userId) found.identities
  Tx.each (PrivacyRepository.deleteFamily args.userId) found.families
  PrivacyRepository.eraseReferrals args.userId args.pseudonym
  Tx.each (PrivacyRepository.withdrawInvitation (email.getD "") args.pseudonym) found.invitations
  Tx.each (PrivacyRepository.closePersonal args.userId args.pseudonym) found.organizations
  PrivacyRepository.finishErasure args email found.requests.phone

theorem refused_owner (row : GDPRRequest) : ({ row with
    state := "failed", failureCode := some "OWNERSHIP_TRANSFER_REQUIRED" } :
      GDPRRequest).userId = row.userId :=
  rfl

theorem refused_key (row : GDPRRequest) : ({ row with
    state := "failed", failureCode := some "OWNERSHIP_TRANSFER_REQUIRED" } :
      GDPRRequest).idempotencyKeyHash = row.idempotencyKeyHash :=
  rfl

/-- The write of a refused erasure. -/
def refuseErasure (args : ErasureArgs) : Trans Unit :=
  write (DbChange.setRequest args.requestId (fun row =>
    { row with state := "failed", failureCode := some "OWNERSHIP_TRANSFER_REQUIRED" })
    refused_owner refused_key)

def withdrawIssued (args : InviteArgs) : Trans Unit :=
  WorkspaceRepository.revokeInvitation (fun row => row.orgId == args.workspace &&
    row.issuedByUserId == args.actor) args.invitationId

/-- A committed transaction with its answer. -/
structure Commit where
  Answer : Type
  body : Trans Answer
  answer : Answer

/-- The transaction, run alone on `d`, gives this answer. -/
def Commit.Valid (commit : Commit) (d : Db) : Prop :=
  ∃ change, commit.body.alone d id = .ok (commit.answer, change)

namespace SessionEvent

def commit : SessionEvent → Option Commit
  | created args found result => some ⟨_, SessionRepository.insertSession args found, result⟩
  | rotated args found result => some ⟨_, SessionRepository.rotateMatch args found, result⟩
  | revoked args found result => some ⟨_, SessionRepository.revokeMatch args found, result⟩
  | revokedAll args found results => some ⟨_, SessionRepository.revokeMatches args found, results⟩
  | .scoped args found result => some ⟨_, SessionRepository.scopeMatch args found, result⟩
  | _ => none

/-- What the recorded answer of a query says. -/
def Tells (d : Db) : SessionEvent → Prop
  | userIsActive user answer => answer = SessionRepository.userIsActive user d
  | capCandidates user now found =>
      found = SessionRepository.candidates (orderBy (fun row => row.2.createdAt)
        (SessionRepository.joined (fun _ => SessionRepository.active user now) d))
  | presented hash found => found = SessionRepository.tokenMatch hash d
  | activeSessions user found =>
      found = SessionRepository.candidates
        (SessionRepository.joined (fun _ => SessionRepository.unrevoked user) d)
  | sessionIsActive session now answer => answer = SessionRepository.sessionIsActive session now d
  | scopeFound args found =>
      found = (SessionRepository.candidates (SessionRepository.joined (fun id session family =>
        id == args.sessionId && SessionRepository.scopable args session family) d)).head?
  | _ => True

end SessionEvent

namespace WorkspaceEvent

def commit : WorkspaceEvent → Option Commit
  | organizationCreated args catalog result =>
      some ⟨_, WorkspaceRepository.insertOrganization args catalog, result⟩
  | invited args pending (some result) =>
      some ⟨_, WorkspaceRepository.insertInvitation args pending, some result⟩
  | invitationRevoked args => some ⟨_, withdrawIssued args, ()⟩
  | accepted args (some admission) result =>
      some ⟨_, acceptWrites args admission result.isSome, ()⟩
  | replaced args _ (some change) result => some ⟨_, replaceWrites args change result.isSome, ()⟩
  | offboarded args (some departure) (some result) =>
      some ⟨_, offboardWrites args departure, result.revokedAccessJtis⟩
  | _ => none

def Tells (d : Db) : WorkspaceEvent → Prop
  | organization workspace answer => answer = d.organizations.get workspace
  | roles member org answer => answer = WorkspaceRepository.roles member org d
  | ownerCount org answer => answer = WorkspaceRepository.ownerCount org d
  | catalogForRole role answer => answer = WorkspaceRepository.catalogForRole role d
  | bindingsFound member org found =>
      found = WorkspaceRepository.unrevokedBindings member org d
  | accepted _ (some admission) _ =>
      d.invitations.get admission.invitationId = some admission.invitation
  | _ => True

end WorkspaceEvent

/-- What the queries of an erasure answer, as far as it matters. -/
structure Found (d : Db) (user : Uuid) (what : String) (ids : List Uuid) : Prop where
  artifacts : what = "privacy_export_artifacts" → ids = PrivacyRepository.artifactsOf user d
  exports : what = "gdpr_requests" → ids = PrivacyRepository.exportsOf user d
  identities : what = "identities" →
    ids = (d.identities.select fun _ row => row.userId == user).map Prod.fst
  families : what = "refresh_token_families" →
    ids = (d.families.select fun _ row => row.userId == user).map Prod.fst
  present : what = "identities" → d.users.get user ≠ none

namespace AccountEvent

def commit : AccountEvent → Option Commit
  | suspended target actor result => some ⟨_, RecoveryRepository.suspend target actor, result⟩
  | requestCreated id user keyHash (some _, true) =>
      some ⟨_, PrivacyRepository.insertRequest id user keyHash, ()⟩
  | erased args .refused _ => some ⟨_, refuseErasure args, ()⟩
  | erased args (.erased email rows) _ => some ⟨_, eraseWrites args email rows, ()⟩
  | requestFailed id user code => some ⟨_, PrivacyRepository.failRequest id user code, ()⟩
  | exportCreated id user keyHash expiresAt (_, true) =>
      some ⟨_, PrivacyRepository.insertExport id user keyHash expiresAt, ()⟩
  | exportCompleted args result => some ⟨_, PrivacyRepository.storeExport args, result⟩
  | exportFailed id user code => some ⟨_, PrivacyRepository.failExportRequest id user code, ()⟩
  | _ => none

def Tells (d : Db) : AccountEvent → Prop
  | ownedOrganizations user answer => answer = PrivacyRepository.ownedOrganizations user d
  | otherOwners user org answer => answer = PrivacyRepository.otherOwners user org d
  | found user what ids => Found d user what ids
  | factorsFound user factors => factors = PrivacyRepository.factorsOf user d
  | erased args (.erased email rows) _ => ∃ user, d.users.get args.userId = some user ∧
      user.email = email ∧ user.phoneE164 = rows.requests.phone
  | _ => True

end AccountEvent

namespace LoginEvent

def commit : LoginEvent → Option Commit
  | signalled args found result => some ⟨_, LoginRepository.noteDevice args found, result⟩
  | passwordUpdated user hash found =>
      some ⟨_, LoginRepository.storePasswordHash user hash found, ()⟩
  | provisioned args result => some ⟨_, LoginRepository.insertAccount args, result⟩
  | _ => none

def Tells (d : Db) : LoginEvent → Prop
  | identity provider subject answer => answer = LoginRepository.identity provider subject d
  | passwordIdentity user found => found = LoginRepository.passwordIdentity user d
  | activeUserByEmail email answer => answer = LoginRepository.activeUserByEmail email d
  | verifiedIdentities user answer => answer = LoginRepository.verifiedIdentities user d
  | _ => True

end LoginEvent

namespace MFAEvent

def commit : MFAEvent → Option Commit
  | pendingTotpCreated owner secret label id now found =>
      some ⟨_, MFARepository.insertPendingTotp owner secret label id now found, ()⟩
  | totpActivated owner id step now result =>
      some ⟨_, MFARepository.activate owner id step now, result⟩
  | totpAdvanced id previous step now result =>
      some ⟨_, MFARepository.advance id previous step now, result⟩
  | backupStored owner hashes id now found =>
      some ⟨_, MFARepository.putBackupCodes owner hashes id now found, ()⟩
  | backupConsumed owner candidate now found result =>
      some ⟨_, MFARepository.takeCode owner candidate now found, result⟩
  | passkeyCreated owner label credential publicKey signCount id now =>
      some ⟨_, MFARepository.insertPasskey owner label credential publicKey signCount id now, ()⟩
  | counterUpdated credential previous new backupState result =>
      some ⟨_, MFARepository.setCounter credential previous new backupState, result⟩
  | factorRevoked owner id now result => some ⟨_, MFARepository.revoke owner id now, result⟩
  | linked owner provider subject id => some ⟨_, MFARepository.link owner provider subject id, ()⟩
  | _ => none

def Tells (d : Db) : MFAEvent → Prop
  | user id answer => answer = d.users.get id
  | passwordHash owner answer => answer = MFARepository.passwordHash owner d
  | activeFactors owner answer => answer = LoginRepository.activeFactors owner d
  | factor owner id answer => answer = MFARepository.factorOf owner id d
  | backupFactor owner found => found = MFARepository.backupFactor owner d
  | passkey credential answer =>
      answer = (MFARepository.activeCredentials (fun id _ => id == credential) d).head?
  | _ => True

end MFAEvent

namespace RecoveryEvent

open RegistrationRepository RecoveryRepository

/-- A guard that only looks at other rows, or at hashes, is not part of what its
transaction commits. -/
def commit : RecoveryEvent → Option Commit
  | emailRegistered args => some ⟨_, insertEmailAccount args, ()⟩
  | phoneRegistered args => some ⟨_, insertPhoneAccount args, ()⟩
  | mailed args found => some ⟨_, insertMailed args found, ()⟩
  | emailVerified hash now found result => some ⟨_, verifyMailed hash now found, result⟩
  | phoneVerified user result => some ⟨_, activatePhone user, result⟩
  | passwordReset args found (.updated, user) =>
      some ⟨_, resetWith (fun _ => false) args found, (.updated, user)⟩
  | contactStarted args result => some ⟨_, startContactChange (pure ()) args, result⟩
  | contactVerified args result => some ⟨_, proveContactChange args, result⟩
  | unlocked user actor result => some ⟨_, unlock user actor, result⟩
  | resetInitiated args user result => some ⟨_, initiateWith args user, result⟩
  | resetApproved args result => some ⟨_, approveWith (fun _ => pure ()) args, result⟩
  | resetExecuted args found result =>
      some ⟨_, executeWith none (fun row user => executeWrites args row user found) args, result⟩
  | _ => none

def Tells (d : Db) : RecoveryEvent → Prop
  | target user answer => answer = d.users.get user
  | unusedFound user purposes found => found = unused user purposes d
  | _ => True

end RecoveryEvent

namespace Event

def commit : Event → Option Commit
  | audited entry => some ⟨_, write (DbChange.addAudit entry), ()⟩
  | session event => event.commit
  | workspace event => event.commit
  | account event => event.commit
  | login event => event.commit
  | mfa event => event.commit
  | recovery event => event.commit
  | _ => none

/-- The database after the event. -/
def change (e : Event) (d : Db) : Db :=
  match e.commit with
  | none => d
  | some commit => commit.body.commit d

/-- The store after the event, apart from the log. -/
def stored : Event → World → World
  | signed claims, w => { w with issued := claims :: w.issued }
  | taken key _, w => { w with cache := w.cache.remove key }
  | put key value ttl, w =>
      { w with cache := w.cache.put key value (some (w.now + seconds ttl)) }
  | removed key, w => { w with cache := w.cache.remove key }
  | counted route subject window _, w => (Redis.count route subject window w).2
  | otpStored user purpose hash, w => Redis.setOtp user purpose hash w
  | otpExpires user purpose, w => Redis.expireOtp user purpose w
  | otpTried user purpose candidate attempts _, w =>
      (Redis.tryOtp user purpose candidate attempts w).2
  | _, w => w

/-- An event leaves the clock and the log to others. -/
theorem stored_eq (e : Event) (w : World) :
    ∃ cache issued, e.stored w = { w with cache := cache, issued := issued } := by
  cases e with
  | counted route subject window count =>
      simp only [stored, Redis.count]
      split <;> exact ⟨_, _, rfl⟩
  | otpExpires user purpose =>
      simp only [stored, Redis.expireOtp]
      split <;> exact ⟨_, _, rfl⟩
  | otpTried user purpose candidate attempts outcome =>
      simp only [stored, Redis.tryOtp]
      split
      · exact ⟨_, _, rfl⟩
      · split
        · exact ⟨_, _, rfl⟩
        · split <;> exact ⟨_, _, rfl⟩
  | _ => exact ⟨_, _, rfl⟩

@[simp]
theorem log_stored (e : Event) (w : World) : (e.stored w).log = w.log := by
  obtain ⟨cache, issued, h⟩ := e.stored_eq w
  rw [h]

@[simp]
theorem now_stored (e : Event) (w : World) : (e.stored w).now = w.now := by
  obtain ⟨cache, issued, h⟩ := e.stored_eq w
  rw [h]

/-- What the recorded answer says about the state. -/
def Tells (c : Core Db World) : Event → Prop
  | clock now => now = c.store.now
  | verified token accepted => accepted = verifies token c.store
  | got key value => value = c.store.cache.get c.store.now key
  | taken key value => value = c.store.cache.get c.store.now key
  | otpTried user purpose candidate attempts outcome =>
      outcome = (Redis.tryOtp user purpose candidate attempts c.store).1
  | session event => event.Tells c.db
  | workspace event => event.Tells c.db
  | account event => event.Tells c.db
  | login event => event.Tells c.db
  | mfa event => event.Tells c.db
  | recovery event => event.Tells c.db
  | _ => True

/-- The recorded answers are those of the state `c`. -/
structure Agrees (c : Core Db World) (e : Event) : Prop where
  tells : e.Tells c
  valid : ∀ commit, e.commit = some commit → commit.Valid c.db

def apply (i : Nat) (e : Event) (c : Core Db World) : Core Db World :=
  ⟨e.change c.db, (e.stored c.store).record i e⟩

end Event

end AuthCore
