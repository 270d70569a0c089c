/-
Suspension by staff and erasure by the account's owner.
-/
import AuthCore.Model.WorkspaceControl

namespace AuthCore

open Interleave Relational

namespace RecoveryRepository

def staffHasRole (user : Uuid) (role : StaffRole) (d : Db) : Bool :=
  !(d.staff.select fun _ binding => binding.userId == user && binding.role == role &&
    binding.revokedAt.isNone).isEmpty

/-- Lock the user and suspend it unless it is disabled or anonymized. -/
def suspend (target : Uuid) (actor : Uuid) : Trans Bool := do
  let user ← lockRow (.user target)
  match UserView.row user with
  | none => return false
  | some row =>
      if row.state == .disabled || row.state == .anonymized then
        return false
      else
        write (DbChange.setUserState target .suspended)
        write (DbChange.addAudit
          ⟨some actor, some target, none, "ACCOUNT_SUSPENDED", "success"⟩)
        return true

def suspendUser (actor target : Uuid) : Proc Bool :=
  transact (fun result => .account (.suspended target actor result)) (suspend target actor)

end RecoveryRepository

namespace SupportAdminControl

def strongMethods : List String :=
  ["totp", "passkey", "email", "sms", "backup_code", "backup_codes"]

def recentMfa (claims : AccessClaims) : Bool :=
  claims.assurance.any strongMethods.contains

def recentMfaRequired : AuthError :=
  .recovery .recentMfaRequired "Complete a recent extra security check before continuing." 403

def staffForbidden : AuthError :=
  .recovery .staffForbidden "This staff action is not authorized." 403

def targetMissing : AuthError :=
  .recovery .targetNotFound "The target account is unavailable for this action." 404

def suspend (claims : AccessClaims) (target : Uuid) : Proc Result := do
  if ¬recentMfa claims then
    fail recentMfaRequired
  else
  let allowed ← look (RecoveryRepository.staffHasRole claims.userId .accountAdmin) fun answer =>
    .account (.staffRole claims.userId .accountAdmin answer)
  if ¬allowed then
    fail staffForbidden
  else
  let suspended ← RecoveryRepository.suspendUser claims.userId target
  if ¬suspended then
    fail targetMissing
  else
  let _ ← SessionControl.revokeUserAccess target "account_suspended"
  return .nothing

end SupportAdminControl

namespace PrivacyRepository

/-- The organizations a user holds an unrevoked owner entry in, active or not. -/
def ownedOrganizations (user : Uuid) (d : Db) : List Uuid :=
  (d.bindings.select fun _ binding =>
    binding.userId == user && binding.revokedAt.isNone &&
      (match d.catalog.get binding.catalogId with
      | none => false
      | some entry => entry.role == "OWNER") &&
      match d.organizations.get binding.orgId with
      | none => false
      | some org => org.workspaceType == .organization).map fun row => row.2.orgId

/-- The owner entries of other users in an organization, active or not. -/
def otherOwners (user org : Uuid) (d : Db) : Nat :=
  (d.bindings.select fun _ binding =>
    binding.orgId == org && binding.userId != user && binding.revokedAt.isNone &&
      match d.catalog.get binding.catalogId with
      | none => false
      | some entry => entry.role == "OWNER").length

def anyWithoutOthers (user : Uuid) : List Uuid → Trans Bool
  | [] => return false
  | org :: rest => do
      let others ← ask (otherOwners user org) fun answer =>
        .account (.otherOwners user org answer)
      if others = 0 then
        return true
      else
        anyWithoutOthers user rest

def hasSoleOwnedOrganization (user : Uuid) : Trans Bool := do
  let owned ← ask (ownedOrganizations user) fun answer =>
    .account (.ownedOrganizations user answer)
  anyWithoutOthers user owned

def requestRecord (id : Uuid) (row : GDPRRequest) : PrivacyRequestRecord :=
  ⟨id, row.userId, row.state, row.completedAt, row.failureCode, row.backupPurgeDueAt, none⟩

def newRequest (user : Uuid) (keyHash : Digest) : GDPRRequest :=
  ⟨user, "processing", keyHash, none, none, none⟩

def insertRequest (id user : Uuid) (keyHash : Digest) : Trans Unit := do
  reserve (.request user keyHash) []
  write (DbChange.addRequest id (newRequest user keyHash))
  write (DbChange.addAudit
    ⟨some user, some user, none, "PRIVACY_ERASURE_REQUESTED", "success"⟩)

/-- The request with a key, if there is one. -/
def existingRequest (user : Uuid) (keyHash : Digest) (d : Db) : Option (Uuid × GDPRRequest) :=
  (d.requests.select fun _ row => row.userId == user && row.idempotencyKeyHash == keyHash).head?

def getOrCreateErasure (id user : Uuid) (keyHash : Digest) :
    Proc (Option PrivacyRequestRecord × Bool) :=
  .txn (fun i result w => w.record i (.account (.requestCreated id user keyHash result)))
    (do
      let existing ← ask (existingRequest user keyHash) fun found =>
        .account (.existingRequest user keyHash (found.map Prod.fst))
      match existing with
      | some (other, row) => return (some (requestRecord other row), false)
      | none =>
          let sole ← hasSoleOwnedOrganization user
          if sole then
            return (none, false)
          else
            insertRequest id user keyHash
            return (some (requestRecord id (newRequest user keyHash)), true))
    fun
    | .ok result => .done result
    | .error _ => .raise .unhandled

def deleteFactor (user : Uuid) (found : Uuid × List String) : Trans Unit := do
  let factor ← lockRow (.factor found.1)
  match (show Option MFADevice from factor) with
  | none => return ()
  | some row =>
      if row.userId == user then
        write (DbChange.deleteFactor found.1 found.2)
      else
        return ()

def deleteDevice (user id : Uuid) : Trans Unit := do
  let device ← lockRow (.device id)
  match (show Option TrustedDevice from device) with
  | none => return ()
  | some row =>
      if row.userId == user then
        write (DbChange.deleteDevice id row)
      else
        return ()

def deleteBinding (user id : Uuid) : Trans Unit := do
  let binding ← lockRow (.binding id)
  match (show Option UserRoleBinding from binding) with
  | none => return ()
  | some row =>
      if row.userId == user then
        write (DbChange.deleteBinding id row)
      else
        return ()

def deleteIdentity (user id : Uuid) : Trans Unit := do
  let identity ← lockRow (.identity id)
  match IdentityView.row identity with
  | none => return ()
  | some row =>
      if row.userId == user then
        write (DbChange.deleteIdentity id row)
      else
        return ()

/-- The cascade to the session and the tokens happens under the same locks. -/
def deleteFamily (user id : Uuid) : Trans Unit := do
  let family ← lockRow (.family id)
  let view : FamilyView := family
  match view.row with
  | none => return ()
  | some row =>
      if row.userId == user then
        write (DbChange.deleteFamily id view)
      else
        return ()

def withdrawInvitation (email : String) (pseudonym : String) (id : Uuid) : Trans Unit := do
  let invitation ← lockRow (.invitation id)
  match (show Option Invitation from invitation) with
  | none => return ()
  | some row =>
      if row.inviteeEmail == email then
        write (DbChange.setInvitation id fun row =>
          { row with inviteeEmail := "erased-" ++ pseudonym ++ "@invalid.local", state := .revoked })
      else
        return ()

def closePersonal (user : Uuid) (pseudonym : String) (id : Uuid) : Trans Unit := do
  let organization ← lockRow (.organization id)
  match (show Option Organization from organization) with
  | none => return ()
  | some row =>
      if row.personalOwnerUserId == some user && row.workspaceType == .personal then
        write (DbChange.setOrganization id fun row =>
          { row with name := "Anonymized Portfolio", slug := "anonymized-" ++ pseudonym,
                     state := .closed })
      else
        return ()

/-- The invitations that name the address the account had, if it had one. -/
def invitationsFor (email : Option String) (d : Db) : List Uuid :=
  match email with
  | none => []
  | some address =>
      if address = "" then []
      else (d.invitations.select fun _ row => row.inviteeEmail == address).map Prod.fst

def finishErasure (args : ErasureArgs) (email phone : Option String) : Trans Unit := do
  write (DbChange.anonymizeUser args.userId email phone args.now)
  write (DbChange.setRequest args.requestId (fun row =>
    { row with state := "completed", completedAt := some args.now,
               backupPurgeDueAt := some args.backupPurgeDueAt })
    (fun _ => rfl) fun _ => rfl)
  write (DbChange.addAudit
    ⟨some args.userId, some args.userId, none, "PRIVACY_ACCOUNT_ERASED", "success"⟩)

def factorsOf (user : Uuid) (d : Db) : List (Uuid × List String) :=
  (d.mfaDevices.select fun _ factor => factor.userId == user).map fun row =>
    (row.1, (d.credentials.select fun _ credential => credential.mfaId == row.1).map Prod.fst)

def cancelExport (user id : Uuid) : Trans Unit := do
  let request ← lockRow (.export id)
  match (show Option ExportRequest from request) with
  | none => return ()
  | some row =>
      if row.userId == user then
        write (DbChange.setExport id (fun row =>
          { row with state := .cancelled, artifactReference := none, artifactExpiresAt := none })
          (fun _ => rfl) fun _ => rfl)
      else
        return ()

def deleteContactChange (user id : Uuid) : Trans Unit := do
  let request ← lockRow (.contactChange id)
  match (show Option ContactChangeRequest from request) with
  | none => return ()
  | some row =>
      if row.userId == user then
        write (DbChange.deleteContactChange user id)
      else
        return ()

def deleteMailed (user id : Uuid) : Trans Unit := do
  let token ← lockRow (.mailed id)
  match (show Option EphemeralToken from token) with
  | none => return ()
  | some row =>
      if row.userId == user then
        write (DbChange.deleteMailed id row)
      else
        return ()

def artifactsOf (user : Uuid) (d : Db) : List Uuid :=
  (d.artifacts.select fun _ row => row.userId == user).map fun row => row.2.requestId

def exportsOf (user : Uuid) (d : Db) : List Uuid :=
  (d.exports.select fun _ row => row.userId == user).map Prod.fst

/-- The statements of an erasure that come first: artifacts, requests and mailed
tokens. -/
def eraseRequests (user : Uuid) (phone : Option String) : Trans RequestsFound := do
  let artifacts ← ask (artifactsOf user)
    fun found => .account (.found user "privacy_export_artifacts" found)
  write (DbChange.deleteArtifacts user artifacts)
  let exports ← ask (exportsOf user)
    fun found => .account (.found user "gdpr_requests" found)
  Tx.each (cancelExport user) exports
  let contactChanges ← ask
    (fun d => (d.contactChanges.select fun _ row => row.userId == user).map Prod.fst)
    fun found => .account (.found user "contact_change_requests" found)
  Tx.each (deleteContactChange user) contactChanges
  let mailed ← ask (fun d => (d.ephemeral.select fun _ row => row.userId == user).map Prod.fst)
    fun found => .account (.found user "ephemeral_tokens" found)
  Tx.each (deleteMailed user) mailed
  return ⟨artifacts, exports, contactChanges, mailed, phone⟩

def eraseReferrals (user : Uuid) (pseudonym : String) : Trans Unit := do
  write (DbChange.deleteReferrals user)
  write (DbChange.withdrawReferred user ("erased-" ++ pseudonym ++ "@invalid.local"))

/-- The deletions and updates of an erasure in the order of the statements. -/
def eraseRows (args : ErasureArgs) (email phone : Option String) : Trans ErasureFound := do
  let user := args.userId
  let requests ← eraseRequests user phone
  let factors ← ask (factorsOf user) fun found => .account (.factorsFound user found)
  Tx.each (deleteFactor user) factors
  let devices ← ask (fun d => (d.devices.select fun _ row => row.userId == user).map Prod.fst)
    fun found => .account (.found user "trusted_devices" found)
  Tx.each (deleteDevice user) devices
  write (DbChange.deleteStaffRoles user)
  let bindings ← ask (fun d => (d.bindings.select fun _ row => row.userId == user).map Prod.fst)
    fun found => .account (.found user "user_role_bindings" found)
  Tx.each (deleteBinding user) bindings
  let identities ← ask
    (fun d => (d.identities.select fun _ row => row.userId == user).map Prod.fst)
    fun found => .account (.found user "identities" found)
  Tx.each (deleteIdentity user) identities
  let families ← ask (fun d => (d.families.select fun _ row => row.userId == user).map Prod.fst)
    fun found => .account (.found user "refresh_token_families" found)
  Tx.each (deleteFamily user) families
  eraseReferrals user args.pseudonym
  let invitations ← ask (invitationsFor email)
    fun found => .account (.found user "invitations" found)
  Tx.each (withdrawInvitation (email.getD "") args.pseudonym) invitations
  let organizations ← ask
    (fun d => (d.organizations.select fun _ row => row.personalOwnerUserId == some user &&
      row.workspaceType == .personal).map Prod.fst)
    fun found => .account (.found user "organizations" found)
  Tx.each (closePersonal user args.pseudonym) organizations
  finishErasure args email phone
  return ⟨factors, devices, bindings, identities, families, invitations, organizations, requests⟩

def completedRequest (args : ErasureArgs) (row : GDPRRequest) : PrivacyRequestRecord :=
  requestRecord args.requestId { row with
    state := "completed", completedAt := some args.now,
    backupPurgeDueAt := some args.backupPurgeDueAt }

def executeErasure (args : ErasureArgs) :
    Proc (Except (Fault AuthError) (Option PrivacyRequestRecord)) :=
  .txn (fun i result w => w.record i (.account (.erased args result.1 result.2)))
    (do
      let request ← lockRow (.request args.requestId)
      let user ← lockRow (.user args.userId)
      match (show Option GDPRRequest from request), UserView.row user with
      | some request, some user =>
          if request.userId ≠ args.userId then
            return (.nothing, none)
          else if request.state = "completed" then
            return (.nothing, some (requestRecord args.requestId request))
          else
          let sole ← hasSoleOwnedOrganization args.userId
          if sole then
            write (DbChange.setRequest args.requestId (fun row =>
              { row with state := "failed", failureCode := some "OWNERSHIP_TRANSFER_REQUIRED" })
              (fun _ => rfl) fun _ => rfl)
            return (.refused, none)
          else
          let found ← eraseRows args user.email user.phoneE164
          return (.erased user.email found, some (completedRequest args request))
      | _, _ => return (.nothing, none))
    fun
    | .ok result => .done (.ok result.2)
    | .error fault => .done (.error fault)

/-- `fail_export` is used for erasures too. -/
def failRequest (id user : Uuid) (code : String) : Trans Unit := do
  let request ← lockRow (.request id)
  match (show Option GDPRRequest from request) with
  | none => return ()
  | some row =>
      if row.userId == user then
        write (DbChange.setRequest id (fun row =>
          { row with state := "failed", failureCode := some code }) (fun _ => rfl) fun _ => rfl)
      else
        return ()

def failExport (id user : Uuid) (code : String) : Proc Unit :=
  transact (fun _ => .account (.requestFailed id user code)) (failRequest id user code)

def exportRecord (id : Uuid) (row : ExportRequest) : PrivacyRequestRecord :=
  ⟨id, row.userId, row.state.value, row.completedAt, row.failureCode, none,
    row.artifactExpiresAt⟩

def newExport (user : Uuid) (keyHash : Digest) (expiresAt : Time) : ExportRequest :=
  ⟨user, .processing, keyHash, none, none, some expiresAt, none⟩

def insertExport (id user : Uuid) (keyHash : Digest) (expiresAt : Time) : Trans Unit := do
  reserve (.export user keyHash) []
  write (DbChange.addExport id (newExport user keyHash expiresAt))
  write (DbChange.addAudit
    ⟨some user, some user, none, "PRIVACY_EXPORT_REQUESTED", "success"⟩)

def existingExport (user : Uuid) (keyHash : Digest) (d : Db) : Option (Uuid × ExportRequest) :=
  (d.exports.select fun _ row => row.userId == user && row.idempotencyKeyHash == keyHash).head?

def getOrCreateExport (id user : Uuid) (keyHash : Digest) (expiresAt : Time) :
    Proc (PrivacyRequestRecord × Bool) :=
  .txn (fun i result w =>
      w.record i (.account (.exportCreated id user keyHash expiresAt result)))
    (do
      let existing ← ask (existingExport user keyHash) fun found =>
        .account (.existingExport user keyHash (found.map Prod.fst))
      match existing with
      | some (other, row) => return (exportRecord other row, false)
      | none =>
          insertExport id user keyHash expiresAt
          return (exportRecord id (newExport user keyHash expiresAt), true))
    fun
    | .ok result => .done result
    | .error _ => .raise .unhandled

def rolesOf (user : Uuid) (d : Db) : List (UserRoleBinding × String × String) :=
  (d.bindings.select fun _ row => row.userId == user).filterMap fun entry =>
    match d.organizations.get entry.2.orgId, d.catalog.get entry.2.catalogId with
    | some org, some role => some (entry.2, org.name, role.role)
    | _, _ => none

/-- The statements of `collect_export_data` see one state here: nothing depends
on what they find. -/
def collectExportData (user : Uuid) (now : Time) (d : Db) : Option ExportData :=
  (d.users.get user).map fun profile =>
    ⟨now, profile, (d.identities.select fun _ row => row.userId == user).map Prod.snd,
      (d.mfaDevices.select fun _ row => row.userId == user).map Prod.snd,
      d.sessions.select fun _ row => row.userId == user,
      (d.devices.select fun _ row => row.userId == user).map Prod.snd, rolesOf user d⟩

def completed (args : CompleteArgs) (row : ExportRequest) : ExportRequest :=
  { row with
    state := .completed, completedAt := some args.now, artifactReference := some args.requestId,
    artifactExpiresAt := some args.artifactExpiresAt }

/-- Store the artifact, whatever state the request is in. -/
def storeExport (args : CompleteArgs) : Trans PrivacyRequestRecord := do
  let request ← lockRow (.export args.requestId)
  match (show Option ExportRequest from request) with
  | none => .raise (.thrown .unhandled)
  | some row =>
      if row.userId == args.userId then
        reserve (.artifact args.requestId) []
        write (DbChange.addArtifact args.artifactId
          ⟨args.requestId, args.userId, args.encryptedContent, args.contentDigest,
            args.artifactExpiresAt⟩)
        write (DbChange.setExport args.requestId (completed args) (fun _ => rfl) fun _ => rfl)
        write (DbChange.addAudit
          ⟨some args.userId, some args.userId, none, "PRIVACY_EXPORT_COMPLETED", "success"⟩)
        return exportRecord args.requestId (completed args row)
      else
        .raise (.thrown .unhandled)

def completeExport (args : CompleteArgs) :
    Proc (Except (Fault AuthError) PrivacyRequestRecord) :=
  attempt (fun result => .account (.exportCompleted args result)) (storeExport args)

def failExportRequest (id user : Uuid) (code : String) : Trans Unit := do
  let request ← lockRow (.export id)
  match (show Option ExportRequest from request) with
  | none => return ()
  | some row =>
      if row.userId == user then
        write (DbChange.setExport id (fun row =>
          { row with state := .failed, failureCode := some code }) (fun _ => rfl) fun _ => rfl)
      else
        return ()

/-- `fail_export` of an export. -/
def failOwnExport (id user : Uuid) (code : String) : Proc Unit :=
  transact (fun _ => .account (.exportFailed id user code)) (failExportRequest id user code)

end PrivacyRepository

namespace GDPRControl

variable (env : Env) (me : Nat)

def backupPurgeWindow : Time := seconds (30 * 86400)

def recentMfaRequired : AuthError :=
  .privacy .recentMfaRequired "Complete a recent extra security check before continuing." 403

def ownershipTransferRequired : AuthError :=
  .privacy .ownershipTransferRequired
    "Transfer ownership of each organization before erasing this account." 409

def erasureFailed : AuthError :=
  .privacy .erasureFailed
    "The account could not be erased safely. Access remains revoked." 500

def requestErasure (claims : AccessClaims) (idempotencyKey : String) : Proc Result := do
  if ¬SupportAdminControl.recentMfa claims then
    fail recentMfaRequired
  else
  let (request, created) ← PrivacyRepository.getOrCreateErasure (.drawn me 0) claims.userId
    (env.keyHash idempotencyKey)
  match request with
  | none => fail ownershipTransferRequired
  | some request =>
      if ¬created then
        return .request request
      else
      let _ ← SessionControl.revokeUserAccess claims.userId "privacy_erasure"
      let now ← clock
      let outcome ← PrivacyRepository.executeErasure
        ⟨request.requestId, claims.userId, env.pseudonym claims.userId, now,
          now + backupPurgeWindow⟩
      match outcome with
      | .error _ => do
          PrivacyRepository.failExport request.requestId claims.userId "ERASURE_FAILED"
          fail erasureFailed
      | .ok none => fail ownershipTransferRequired
      | .ok (some completed) => return .request completed

def exportArtifactTtl : Time := seconds 86400

def exportUnavailable : AuthError :=
  .privacy .exportUnavailable "The export could not be prepared. Please try again later." 503

/-- The failure handler of an export. -/
def abandonExport (request user : Uuid) : Proc Result := do
  PrivacyRepository.failOwnExport request user "EXPORT_BUILD_FAILED"
  fail exportUnavailable

def requestExport (claims : AccessClaims) (idempotencyKey : String) : Proc Result := do
  if ¬SupportAdminControl.recentMfa claims then
    fail recentMfaRequired
  else
  let now ← clock
  let expiresAt := now + exportArtifactTtl
  let (request, created) ← PrivacyRepository.getOrCreateExport (.drawn me 0) claims.userId
    (env.keyHash idempotencyKey) expiresAt
  if ¬created then
    return .request request
  else
  let collectedAt ← clock
  let data ← look (PrivacyRepository.collectExportData claims.userId collectedAt)
    fun answer => .account (.collected claims.userId answer.isSome)
  match data with
  | none => abandonExport request.requestId claims.userId
  | some data =>
      let content := env.sealExport data claims.userId request.requestId
      let completedAt ← clock
      let outcome ← PrivacyRepository.completeExport
        ⟨request.requestId, claims.userId, content.1, content.2, expiresAt, completedAt,
          .drawn me 1⟩
      match outcome with
      | .error _ => abandonExport request.requestId claims.userId
      | .ok record => return .request record

end GDPRControl

end AuthCore
