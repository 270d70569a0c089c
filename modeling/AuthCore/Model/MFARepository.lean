/-
The queries and transactions on MFA factors, passkeys and linked identities.
-/
import AuthCore.Model.LoginRepository

namespace AuthCore

open Interleave Relational

namespace MFARepository

def isEmailProvider (provider : IdentityProvider) : Bool :=
  provider == .password || provider == .google || provider == .apple || provider == .microsoft

/-- The two queries of `user_profile`. -/
def userProfile (user : Uuid) : Proc (Option MFAUserProfile) := do
  let found ← look (fun d => d.users.get user) fun answer => .mfa (.user user answer)
  match found with
  | none => return none
  | some row =>
      if row.anonymizedAt.isSome then
        return none
      else
      let identities ← look (LoginRepository.verifiedIdentities user) fun answer =>
        .login (.verifiedIdentities user answer)
      let hasEmail := identities.any fun entry => isEmailProvider entry.2.provider
      let hasPhone := identities.any fun entry => entry.2.provider == .phone
      return some ⟨user, row.state, if hasEmail then row.email else none,
        if hasPhone then row.phoneE164 else none⟩

def passwordHash (user : Uuid) (d : Db) : Option String :=
  ((d.identities.select fun _ row => row.userId == user && row.provider == .password &&
    row.verified).map fun entry => entry.2.passwordHash).head?.join

def activeFactors (user : Uuid) : Proc (List (Uuid × MFADevice)) :=
  look (LoginRepository.activeFactors user) fun answer => .mfa (.activeFactors user answer)

def factorOf (user id : Uuid) (d : Db) : Option MFADevice :=
  (d.mfaDevices.get id).filter fun row => row.userId == user

def factor (user id : Uuid) : Proc (Option MFADevice) :=
  look (factorOf user id) fun answer => .mfa (.factor user id answer)

/-- Revoke a TOTP factor that is still pending once it is locked. -/
def dropPending (user : Uuid) (now : Time) (id : Uuid) : Trans Unit := do
  let factor ← lockRow (.factor id)
  match (show Option MFADevice from factor) with
  | none => return ()
  | some row =>
      if row.userId == user && row.factorType == .totp && row.status == .pending then
        write (DbChange.setFactor id fun row =>
          { row with status := .revoked, revokedAt := some now })
      else
        return ()

/-- The part of `create_pending_totp` after the pending factors are looked up. -/
def insertPendingTotp (user : Uuid) (secret label : String) (id : Uuid) (now : Time)
    (found : List Uuid) : Trans Unit := do
  Tx.each (dropPending user now) found
  write (DbChange.addFactor id
    ⟨user, .totp, some (.sealed secret), .pending, some label, none, none, none, none⟩)

def createPendingTotp (user : Uuid) (secret label : String) (id : Uuid) (now : Time) :
    Proc Unit :=
  .txn
    (fun i found w => w.record i (.mfa (.pendingTotpCreated user secret label id now found)))
    (do
      let found ← ask
        (fun d => (d.mfaDevices.select fun _ row => row.userId == user &&
          row.factorType == .totp && row.status == .pending).map Prod.fst)
        fun found => .mfa (.pendingTotps user found)
      insertPendingTotp user secret label id now found
      return found)
    fun
    | .ok _ => .done ()
    | .error _ => .raise .unhandled

/-- Lock a factor and change it if it still satisfies a condition. -/
def changeFactor (id : Uuid) (condition : MFADevice → Bool) (g : MFADevice → MFADevice) :
    Trans Bool := do
  let factor ← lockRow (.factor id)
  match (show Option MFADevice from factor) with
  | none => return false
  | some row =>
      if condition row then
        write (DbChange.setFactor id g)
        return true
      else
        return false

def activate (user id : Uuid) (step : Nat) (now : Time) : Trans Bool :=
  changeFactor id
    (fun row => row.userId == user && row.factorType == .totp && row.status == .pending)
    fun row => { row with
      status := .active, verifiedAt := some now, lastUsedAt := some now, lastTotpStep := some step }

def activateTotp (user id : Uuid) (step : Nat) (now : Time) : Proc Bool :=
  transact (fun result => .mfa (.totpActivated user id step now result))
    (activate user id step now)

def advance (id : Uuid) (previous : Option Nat) (step : Nat) (now : Time) : Trans Bool :=
  changeFactor id (fun row => row.status == .active && row.lastTotpStep == previous)
    fun row => { row with lastTotpStep := some step, lastUsedAt := some now }

def advanceTotpStep (id : Uuid) (previous : Option Nat) (step : Nat) (now : Time) : Proc Bool :=
  transact (fun result => .mfa (.totpAdvanced id previous step now result))
    (advance id previous step now)

def isBackup (user : Uuid) (row : MFADevice) : Bool :=
  row.userId == user && row.factorType == .backupCodes && row.status == .active

def backupFactor (user : Uuid) (d : Db) : Option Uuid :=
  ((d.mfaDevices.select fun _ row => isBackup user row).map Prod.fst).head?

/-- The part of `store_backup_codes` after the factor is looked up. -/
def putBackupCodes (user : Uuid) (hashes : List Digest) (id : Uuid) (now : Time) :
    Option Uuid → Trans Unit
  | none => insertNew
  | some found => do
      let changed ← changeFactor found (isBackup user) fun row =>
        { row with encryptedSecret := some (.codes hashes), lastUsedAt := none }
      if changed then
        return ()
      else
        insertNew
where
  insertNew : Trans Unit :=
    write (DbChange.addFactor id
      ⟨user, .backupCodes, some (.codes hashes), .active, some "Recovery codes", some now, none,
        none, none⟩)

def storeBackupCodes (user : Uuid) (hashes : List Digest) (id : Uuid) (now : Time) : Proc Unit :=
  .txn (fun i found w => w.record i (.mfa (.backupStored user hashes id now found)))
    (do
      let found ← ask (backupFactor user) fun found => .mfa (.backupFactor user found)
      putBackupCodes user hashes id now found
      return found)
    fun
    | .ok _ => .done ()
    | .error _ => .raise .unhandled

/-- The digests left after one use of a code; the last use revokes the factor. -/
def useCode (candidate : Digest) (now : Time) (row : MFADevice) : MFADevice :=
  match row.encryptedSecret with
  | some (.codes hashes) =>
      let left := hashes.erase candidate
      { row with
        encryptedSecret := some (.codes left)
        lastUsedAt := some now
        status := if left.isEmpty then .revoked else row.status
        revokedAt := if left.isEmpty then some now else row.revokedAt }
  | _ => row

def hasCode (candidate : Digest) (row : MFADevice) : Bool :=
  match row.encryptedSecret with
  | some (.codes hashes) => hashes.contains candidate
  | _ => false

/-- The part of `consume_backup_code` after the factor is looked up. -/
def takeCode (user : Uuid) (candidate : Digest) (now : Time) : Option Uuid → Trans Bool
  | none => return false
  | some id => changeFactor id (fun row => isBackup user row && hasCode candidate row)
      (useCode candidate now)

def consumeBackupCode (user : Uuid) (candidate : Digest) (now : Time) : Proc Bool :=
  .txn
    (fun i result w => w.record i (.mfa (.backupConsumed user candidate now result.1 result.2)))
    (do
      let found ← ask (backupFactor user) fun found => .mfa (.backupFactor user found)
      let used ← takeCode user candidate now found
      return (found, used))
    fun
    | .ok result => .done result.2
    | .error _ => .raise .unhandled

def stored (credential : String) (row : WebAuthnCredential) (user : Uuid) : StoredPasskey :=
  ⟨credential, row.mfaId, user, row.publicKey, row.signCount⟩

/-- The credentials of active factors that satisfy a condition. -/
def activeCredentials (condition : String → MFADevice → Bool) (d : Db) : List StoredPasskey :=
  (d.credentials.select fun _ _ => true).filterMap fun entry =>
    match d.mfaDevices.get entry.2.mfaId with
    | none => none
    | some factor =>
        if factor.status == .active && condition entry.1 factor then
          some (stored entry.1 entry.2 factor.userId)
        else
          none

def passkeys (user : Uuid) : Proc (List StoredPasskey) :=
  look (activeCredentials fun _ factor => factor.userId == user) fun answer =>
    .mfa (.passkeys user answer)

def passkey (credential : String) : Proc (Option StoredPasskey) :=
  look (fun d => (activeCredentials (fun id _ => id == credential) d).head?) fun answer =>
    .mfa (.passkey credential answer)

def insertPasskey (user : Uuid) (label credential publicKey : String) (signCount : Nat)
    (id : Uuid) (now : Time) : Trans Unit := do
  write (DbChange.addFactor id
    ⟨user, .passkey, none, .active, some label, some now, none, none, none⟩)
  let taken ← lockRow (.credential credential)
  if (show Option WebAuthnCredential from taken).isSome then
    .raise .integrity
  else
    write (DbChange.addCredential credential ⟨id, publicKey, signCount, false⟩)

def createPasskey (user : Uuid) (label credential publicKey : String) (signCount : Nat)
    (id : Uuid) (now : Time) : Proc (Except (Fault AuthError) Unit) :=
  attempt (fun _ => .mfa (.passkeyCreated user label credential publicKey signCount id now))
    (insertPasskey user label credential publicKey signCount id now)

def setCounter (credential : String) (previous new : Nat) (backupState : Bool) : Trans Bool := do
  let row ← lockRow (.credential credential)
  match (show Option WebAuthnCredential from row) with
  | none => return false
  | some row =>
      if row.signCount == previous then
        write (DbChange.setCredential credential fun row =>
          { row with signCount := new, backupState := backupState })
        return true
      else
        return false

def updatePasskeyCounter (credential : String) (previous new : Nat) (backupState : Bool) :
    Proc (Except (Fault AuthError) Bool) :=
  attempt (fun result => .mfa (.counterUpdated credential previous new backupState result))
    (setCounter credential previous new backupState)

def revoke (user id : Uuid) (now : Time) : Trans Bool :=
  changeFactor id (fun row => row.userId == user && row.status == .active)
    fun row => { row with status := .revoked, revokedAt := some now }

def revokeFactor (user id : Uuid) (now : Time) : Proc Bool :=
  transact (fun result => .mfa (.factorRevoked user id now result)) (revoke user id now)

def link (user : Uuid) (provider : IdentityProvider) (subject : String) (id : Uuid) :
    Trans Unit := do
  reserve (.identity provider subject) []
  write (DbChange.addIdentity id ⟨user, provider, subject, none, true⟩)

def linkOidcIdentity (user : Uuid) (provider : IdentityProvider) (subject : String)
    (id : Uuid) : Proc (Except (Fault AuthError) Unit) :=
  attempt (fun _ => .mfa (.linked user provider subject id)) (link user provider subject id)

end MFARepository

end AuthCore
