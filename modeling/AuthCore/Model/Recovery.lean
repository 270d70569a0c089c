/-
Password recovery, contact changes and the governed reset of security factors.
-/
import AuthCore.Model.Account
import AuthCore.Model.MFARepository
import AuthCore.Model.Registration

namespace AuthCore

open Interleave Relational

namespace RecoveryRepository

def passwordHistoryLimit : Nat := 5

def recoveryUser (id : Uuid) (row : User) : RecoveryUser :=
  ⟨id, row.email, row.phoneE164, row.state, row.version⟩

def userByEmail (email : String) (d : Db) : Option RecoveryUser :=
  ((d.users.select fun _ u => u.email == some email && u.anonymizedAt.isNone).map fun entry =>
    recoveryUser entry.1 entry.2).head?

def hasVerifiedPassword (user : Uuid) (d : Db) : Bool :=
  !(d.identities.select fun _ row => row.userId == user && row.provider == .password &&
    row.verified).isEmpty

def eligibleUserByEmail (email : String) : Proc (Option RecoveryUser) := do
  let found ← look (userByEmail email) fun answer => .recovery (.eligible email answer)
  match found with
  | none => return none
  | some user =>
      if user.state ≠ .active && user.state ≠ .locked then
        return none
      else
      let known ← look (hasVerifiedPassword user.userId) fun answer =>
        .recovery (.hasPassword user.userId answer)
      return if known then some user else none

def resetPurposes : List TokenPurpose := [.passwordReset, .supportRecovery]

def issuePasswordReset (user : Uuid) (tokenHash : Digest) (purpose : TokenPurpose)
    (expiresAt : Time) (actor : Option Uuid) (tokenId : Uuid) : Proc Unit := do
  let now ← clock
  RegistrationRepository.replaceMailed
    ⟨user, tokenHash, purpose, resetPurposes, expiresAt, now, tokenId,
      ⟨actor, some user, none,
        if purpose = .passwordReset then "PASSWORD_RESET_REQUESTED"
        else "SUPPORT_RECOVERY_ISSUED", "success"⟩⟩

/-- The history rows of an identity, latest first. -/
def latestFirst (rows : List (Uuid × PasswordHistory)) : List (Uuid × PasswordHistory) :=
  (orderBy (fun row => row.2.createdAt) rows).reverse

/-- The rows that a reset drops, the new one counted in. -/
def oldHistory (rows : List (Uuid × PasswordHistory)) : List Uuid :=
  ((latestFirst rows).drop (passwordHistoryLimit - 1)).map Prod.fst

def resettable (user : User) : Bool :=
  user.state ≠ .suspended && user.state ≠ .disabled && user.state ≠ .anonymized

def unlockedState (state : UserState) : UserState :=
  if state = .locked then .active else state

/-- The row of a user whose password has been reset. -/
def resetUser (row : User) : User :=
  { row with state := unlockedState row.state, version := row.version + 1 }

def storeReset (args : ResetArgs) (tokenId userId identityId : Uuid) (dropped : List Uuid) :
    Trans Unit := do
  write (DbChange.useMailed tokenId args.now)
  write (DbChange.setPasswordHash identityId args.passwordHash)
  write (DbChange.addHistory args.historyId ⟨identityId, args.passwordHash, args.started⟩)
  write (DbChange.deleteHistory identityId dropped)
  write (DbChange.bumpUser userId unlockedState)
  write (DbChange.addAudit
    ⟨some userId, some userId, none, "PASSWORD_RESET_COMPLETED", "success"⟩)

/-- The decision about a locked identity: `rows` is its password history, `known`
says whether the new password has the given hash. -/
def resetIdentity (known : String → Bool) (args : ResetArgs) (tokenId userId : Uuid)
    (user : User) (identityId : Uuid) (rows : List (Uuid × PasswordHistory)) :
    Trans (PasswordResetOutcome × Option RecoveryUser) :=
  if ¬resettable user then
    return (.invalid, none)
  else if ((latestFirst rows).take passwordHistoryLimit).any fun row =>
      known row.2.passwordHash then
    return (.reused, some (recoveryUser userId user))
  else do
    storeReset args tokenId userId identityId
      (oldHistory (rows ++
        [(args.historyId, ⟨identityId, args.passwordHash, args.started⟩)]))
    return (.updated, some (recoveryUser userId (resetUser user)))

def resetAccount (known : String → Bool) (args : ResetArgs) (tokenId userId : Uuid) :
    Trans (PasswordResetOutcome × Option RecoveryUser) := do
  let view ← lockRow (.user userId)
  match UserView.row view, UserView.passwords view with
  | some user, identityId :: _ => do
      let identity ← lockRow (.identity identityId)
      resetIdentity known args tokenId userId user identityId (IdentityView.history identity)
  | _, _ => return (.invalid, none)

/-- The transaction of a reset once its token has been looked up. -/
def resetWith (known : String → Bool) (args : ResetArgs) (found : Option Uuid) :
    Trans (PasswordResetOutcome × Option RecoveryUser) := do
  match ← RegistrationRepository.lockMailed args.tokenHash resetPurposes args.now found with
  | none => return (.invalid, none)
  | some (tokenId, token) => resetAccount known args tokenId token.userId

def consumePasswordReset (env : Env) (args : ResetArgs) :
    Proc (PasswordResetOutcome × Option RecoveryUser) :=
  .txn (fun i result w => w.record i (.recovery (.passwordReset args result.1 result.2)))
    (do
      let found ← ask (RegistrationRepository.findMailed args.tokenHash resetPurposes)
        fun found => .recovery (.mailedFound args.tokenHash found)
      let result ← resetWith (fun hash => env.passwordVerify hash args.password) args found
      return (found, result))
    fun
    | .ok result => .done result.2
    | .error _ => .raise .unhandled

def contactRecord (id : Uuid) (row : ContactChangeRequest) : ContactChangeRecord :=
  ⟨id, row.userId, row.contactType, row.oldValue, row.newValue, row.expiresAt,
    row.oldVerifiedAt, row.newVerifiedAt, row.appliedAt⟩

def contactConflict : AuthError :=
  .recovery .contactConflict "That contact is already associated with another account." 409

/-- Another account has the contact. -/
def conflicts (args : ContactArgs) (d : Db) : Bool :=
  !(d.users.select fun id u => DbChange.contactOf u args.contactType == some args.newValue &&
    id != args.userId && u.anonymizedAt.isNone).isEmpty

/-- The contact that a request for a change starts from. -/
def startingContact (args : ContactArgs) (user : User) : Option String :=
  if user.state = .active then
    (DbChange.contactOf user args.contactType).filter fun old => old ≠ "" && old ≠ args.newValue
  else
    none

def newContactChange (args : ContactArgs) (old : String) : ContactChangeRequest :=
  ⟨args.userId, args.contactType, old, args.newValue, args.oldCodeHash, args.newCodeHash,
    .pending, args.expiresAt, none, none, none⟩

def cancelContactChange (args : ContactArgs) (id : Uuid) : Trans Unit := do
  let request ← lockRow (.contactChange id)
  match (show Option ContactChangeRequest from request) with
  | none => return ()
  | some row =>
      if row.userId == args.userId && row.contactType == args.contactType &&
          row.state == .pending then
        write (DbChange.closeContactChange args.userId id .cancelled row.appliedAt)
      else
        return ()

/-- The writes of a new contact change: the pending ones of a locked user are
among what the lock keeps still. -/
def insertContactChange (args : ContactArgs) (old : String) (pending : List Uuid) :
    Trans (Option ContactChangeRecord) := do
  Tx.each (cancelContactChange args) pending
  write (DbChange.addContactChange args.requestId (newContactChange args old))
  write (DbChange.addAudit
    ⟨some args.userId, some args.userId, none, "CONTACT_CHANGE_STARTED", "success"⟩)
  return some (contactRecord args.requestId (newContactChange args old))

/-- What is done for a locked user.  `guard` is the query for another account
with the contact. -/
def startLocked (guard : Trans Unit) (args : ContactArgs) (view : UserView) :
    Trans (Option ContactChangeRecord) :=
  match view.row.bind (startingContact args) with
  | none => return none
  | some old => do
      guard
      insertContactChange args old view.pending

def startContactChange (guard : Trans Unit) (args : ContactArgs) :
    Trans (Option ContactChangeRecord) := do
  let view ← lockRow (.user args.userId)
  startLocked guard args view

def noConflict (args : ContactArgs) : Trans Unit := do
  let conflict ← ask (conflicts args) fun answer => .recovery (.conflict args.newValue answer)
  if conflict then
    .raise (.thrown contactConflict)
  else
    return ()

def createContactChange (args : ContactArgs) :
    Proc (Except (Fault AuthError) (Option ContactChangeRecord)) :=
  attempt (fun result => .recovery (.contactStarted args result))
    (startContactChange (noConflict args) args)

/-- The request with one more code presented. -/
def proved (row : ContactChangeRequest) (proof : ContactProof) (now : Time) :
    ContactChangeRequest :=
  match proof with
  | .old => { row with oldVerifiedAt := row.oldVerifiedAt.or (some now) }
  | .new => { row with newVerifiedAt := row.newVerifiedAt.or (some now) }

def expectedHash (row : ContactChangeRequest) : ContactProof → Digest
  | .old => row.oldCodeHash
  | .new => row.newCodeHash

def contactProvider : ContactType → IdentityProvider
  | .email => .password
  | .phone => .phone

def localIdentities (view : UserView) : ContactType → List Uuid
  | .email => view.passwords
  | .phone => view.phones

/-- The identities of the user that log in with the contact. -/
def lockLogin (user : Uuid) (contactType : ContactType) (id : Uuid) :
    Trans (Option (Uuid × Identity)) := do
  let identity ← lockRow (.identity id)
  match IdentityView.row identity with
  | none => return none
  | some row =>
      if row.userId == user && row.provider == contactProvider contactType then
        return some (id, row)
      else
        return none

/-- The statement that moves the login to the new contact.  Two identities
cannot share a subject, so with more than one the statement fails. -/
def moveLogin (user : Uuid) (contactType : ContactType) (value : String) (ids : List Uuid) :
    Trans Unit := do
  let rows ← Tx.collect (lockLogin user contactType) ids
  match rows with
  | [] => return ()
  | [(id, row)] =>
      reserve (.identity (contactProvider contactType) value) [id]
      write (DbChange.setSubject id row value)
  | _ => .raise .integrity

/-- Both codes have been presented: the contact, the login and the request
change together. -/
def applyContactChange (args : ProofArgs) (row : ContactChangeRequest) (user : User)
    (view : UserView) : Trans Unit := do
  reserve (DbChange.contactKey row.contactType row.newValue) [args.userId]
  write (DbChange.setContact args.userId row.contactType
    (DbChange.contactOf user row.contactType) row.newValue)
  moveLogin args.userId row.contactType row.newValue (localIdentities view row.contactType)
  write (DbChange.closeContactChange args.userId args.requestId .applied (some args.now))
  write (DbChange.addAudit
    ⟨some args.userId, some args.userId, none, "CONTACT_CHANGE_COMPLETED", "success"⟩)

def proveContactChange (args : ProofArgs) : Trans (Option ContactChangeRecord) := do
  let request ← lockRow (.contactChange args.requestId)
  match (show Option ContactChangeRequest from request) with
  | none => return none
  | some row =>
      if row.userId ≠ args.userId || row.state ≠ .pending || row.expiresAt ≤ args.now then
        return none
      else if expectedHash row args.proof ≠ args.codeHash then
        return none
      else
        write (DbChange.proveContact args.requestId args.proof args.now)
        let shown := proved row args.proof args.now
        if shown.oldVerifiedAt.isSome && shown.newVerifiedAt.isSome then
          let view ← lockRow (.user args.userId)
          match (UserView.row view).filter (·.state == .active) with
          | none => return none
          | some user =>
              applyContactChange args row user view
              return some (contactRecord args.requestId
                { shown with state := .applied, appliedAt := some args.now })
        else
          return some (contactRecord args.requestId shown)

def verifyContactChange (args : ProofArgs) :
    Proc (Except (Fault AuthError) (Option ContactChangeRecord)) :=
  attempt (fun result => .recovery (.contactVerified args result)) (proveContactChange args)

def unlock (target actor : Uuid) : Trans (Option RecoveryUser) := do
  let view ← lockRow (.user target)
  match (UserView.row view).filter fun row => row.state == .active || row.state == .locked with
  | none => return none
  | some row =>
      write (DbChange.setUserState target .active)
      write (DbChange.addAudit ⟨some actor, some target, none, "ACCOUNT_UNLOCKED", "success"⟩)
      return some (recoveryUser target
        { row with state := .active, version := row.version + 1 })

def unlockUser (actor target : Uuid) : Proc (Option RecoveryUser) :=
  transact (fun result => .recovery (.unlocked target actor result)) (unlock target actor)

def governedRecord (id : Uuid) (row : GovernedRequest) : GovernedResetRecord :=
  ⟨id, row.targetUserId, row.initiatorUserId, row.approverUserId, row.state, row.executeAfter,
    row.approvedAt, row.executedAt, row.ticketReference⟩

def newGoverned (args : InitiateArgs) (version : Nat) : GovernedRequest :=
  ⟨args.target, args.actor, none, .pending, args.executeAfter, none, none, version,
    args.ticketReference⟩

/-- The insertion of a governed request for a user that has been read without a
lock. -/
def initiateWith (args : InitiateArgs) (user : Option User) :
    Trans (Option (GovernedResetRecord × RecoveryUser)) := do
  match user.filter fun row => row.state == .active || row.state == .locked with
  | none => return none
  | some row =>
      let taken ← lockRow (.governed args.requestId)
      if (show Option GovernedRequest from taken).isSome then
        .raise .integrity
      else
        write (DbChange.addGoverned args.requestId (newGoverned args row.version))
        write (DbChange.addAudit
          ⟨some args.actor, some args.target, none, "ADMIN_MFA_RESET_INITIATED", "success"⟩)
        return some (governedRecord args.requestId (newGoverned args row.version),
          recoveryUser args.target row)

def initiateMfaReset (args : InitiateArgs) :
    Proc (Option (GovernedResetRecord × RecoveryUser)) :=
  .txn (fun i result w => w.record i (.recovery (.resetInitiated args result.1 result.2)))
    (do
      let user ← ask (fun d => d.users.get args.target) fun answer =>
        .recovery (.target args.target answer)
      let result ← initiateWith args user
      return (user, result))
    fun
    | .ok result => .done result.2
    | .error _ => .raise .unhandled

def fourEyesRequired : AuthError :=
  .recovery .fourEyesRequired "A different security supervisor must approve this request." 409

def changedAfterStart : AuthError :=
  .recovery .targetChanged
    "The account changed after this request began. Start a new request." 409

def changedAfterApproval : AuthError :=
  .recovery .targetChanged "The account changed after approval. Start a new request." 409

def governedTooEarly : AuthError :=
  .recovery .governedTooEarly "The mandatory protection delay has not finished." 409

def approved (args : GovernedArgs) (row : GovernedRequest) : GovernedRequest :=
  { row with approverUserId := some args.actor, approvedAt := some args.now, state := .approved }

def cancelled (row : GovernedRequest) : GovernedRequest :=
  { row with state := .cancelled }

/-- The request is cancelled, and the exception leaves the transaction that
cancels it. -/
def targetChanged {β : Type} (request : Uuid) (error : AuthError) : Trans β := do
  write (DbChange.setGoverned request cancelled)
  .raise (.thrown error)

/-- `guard` is the unlocked look at the target. -/
def approveLocked (guard : GovernedRequest → Trans Unit) (args : GovernedArgs) :
    Option GovernedRequest → Trans (Option GovernedResetRecord)
  | none => return none
  | some row =>
      if row.state ≠ .pending then
        return none
      else if row.initiatorUserId = args.actor then
        .raise (.thrown fourEyesRequired)
      else do
        guard row
        write (DbChange.setGoverned args.requestId (approved args))
        write (DbChange.addAudit
          ⟨some args.actor, some row.targetUserId, none, "ADMIN_MFA_RESET_APPROVED", "success"⟩)
        return some (governedRecord args.requestId (approved args row))

def approveWith (guard : GovernedRequest → Trans Unit) (args : GovernedArgs) :
    Trans (Option GovernedResetRecord) := do
  let request ← lockRow (.governed args.requestId)
  approveLocked guard args request

def sameVersion (row : GovernedRequest) (user : Option User) : Bool :=
  user.any fun user => user.version == row.targetUserVersion

def unchangedTarget (request : Uuid) (row : GovernedRequest) : Trans Unit := do
  let user ← ask (fun d => d.users.get row.targetUserId) fun answer =>
    .recovery (.target row.targetUserId answer)
  if sameVersion row user then
    return ()
  else
    targetChanged request changedAfterStart

def approveMfaReset (args : GovernedArgs) :
    Proc (Except (Fault AuthError) (Option GovernedResetRecord)) :=
  attempt (fun result => .recovery (.resetApproved args result))
    (approveWith (unchangedTarget args.requestId) args)

def executed (args : GovernedArgs) (row : GovernedRequest) : GovernedRequest :=
  { row with state := .executed, executedAt := some args.now }

def revokedFactor (now : Time) (factor : MFADevice) : MFADevice :=
  { factor with status := .revoked, revokedAt := some now }

def revokeFactor (user : Uuid) (now : Time) (id : Uuid) : Trans Unit := do
  let _ ← MFARepository.changeFactor id
    (fun factor => factor.userId == user && factor.status != .revoked) (revokedFactor now)
  return ()

/-- The writes of an execution, on the factors that its statement found. -/
def executeWrites (args : GovernedArgs) (row : GovernedRequest) (user : User)
    (found : List Uuid) : Trans (Option (GovernedResetRecord × RecoveryUser)) := do
  Tx.each (revokeFactor row.targetUserId args.now) found
  write (DbChange.bumpUser row.targetUserId id)
  write (DbChange.setGoverned args.requestId (executed args))
  write (DbChange.addAudit
    ⟨some args.actor, some row.targetUserId, none, "ADMIN_MFA_RESET_EXECUTED", "success"⟩)
  return some (governedRecord args.requestId (executed args row),
    recoveryUser row.targetUserId { user with version := user.version + 1 })

/-- `finish` comes once the request and its target are locked and the target is
as it was. -/
def executeTarget {β : Type} (finish : GovernedRequest → User → Trans β) (request : Uuid)
    (row : GovernedRequest) : Option User → Trans β
  | none => targetChanged request changedAfterApproval
  | some user =>
      if user.version = row.targetUserVersion then
        finish row user
      else
        targetChanged request changedAfterApproval

def executeLocked {β : Type} (refused : β) (finish : GovernedRequest → User → Trans β)
    (args : GovernedArgs) : Option GovernedRequest → Trans β
  | none => return refused
  | some row =>
      if row.state ≠ .approved || row.approverUserId.isNone then
        return refused
      else if args.now < row.executeAfter then
        .raise (.thrown governedTooEarly)
      else do
        let view ← lockRow (.user row.targetUserId)
        executeTarget finish args.requestId row (UserView.row view)

def executeWith {β : Type} (refused : β) (finish : GovernedRequest → User → Trans β)
    (args : GovernedArgs) : Trans β := do
  let request ← lockRow (.governed args.requestId)
  executeLocked refused finish args request

def remainingFactors (user : Uuid) (d : Db) : List Uuid :=
  (d.mfaDevices.select fun _ factor => factor.userId == user &&
    factor.status != .revoked).map Prod.fst

def executeFound (args : GovernedArgs) (row : GovernedRequest) (user : User) :
    Trans (List Uuid × Option (GovernedResetRecord × RecoveryUser)) := do
  let found ← ask (remainingFactors row.targetUserId) fun found =>
    .recovery (.factorsFound row.targetUserId found)
  let result ← executeWrites args row user found
  return (found, result)

def executeMfaReset (args : GovernedArgs) :
    Proc (Except (Fault AuthError) (List Uuid × Option (GovernedResetRecord × RecoveryUser))) :=
  attempt (fun result => .recovery (.resetExecuted args result.1 result.2))
    (executeWith ([], none) (executeFound args) args)

def getMfaReset (request : Uuid) (d : Db) : Option GovernedRequest :=
  d.governed.get request

end RecoveryRepository

end AuthCore
