/-
The queries and transactions of primary login.
-/
import Mathlib.Data.List.Sort
import AuthCore.Model.SessionRepository

namespace AuthCore

open Interleave Relational

namespace LoginRepository

/-- An identity joined with its account, unless the account is anonymized. -/
def identity (provider : IdentityProvider) (subject : String) (d : Db) : Option LoginIdentity :=
  (d.identities.select fun _ row => row.provider == provider &&
    row.providerSubject == subject).findSome? fun entry =>
      match d.users.get entry.2.userId with
      | none => none
      | some user =>
          if user.anonymizedAt.isNone then
            some ⟨entry.2.userId, user.state, entry.2.passwordHash, entry.2.verified,
              user.phoneE164.isSome⟩
          else
            none

def activeUserByEmail (email : String) (d : Db) : Option LoginIdentity :=
  ((d.users.select fun _ user => user.email == some email &&
    user.anonymizedAt.isNone).map fun entry =>
      (⟨entry.1, entry.2.state, none, entry.2.state == .active, entry.2.phoneE164.isSome⟩ :
        LoginIdentity)).head?

/-- `personal_workspace_for` a user with these names. -/
def personalWorkspaceFor (user : Uuid) (givenName familyName : Option String) (slug : String) :
    Organization :=
  let names := ([givenName, familyName].filterMap id).filter (· ≠ "")
  ⟨if names.isEmpty then "My Personal Portfolio" else " ".intercalate names ++ "'s Portfolio",
    slug, .personal, some user, .active⟩

def personalWorkspace (user : Uuid) (profile : OIDCProfile) (slug : String) : Organization :=
  personalWorkspaceFor user profile.givenName profile.familyName slug

/-- The insertion of a user fails when its key is taken. -/
def newUser (id : Uuid) : Trans Unit := do
  let taken ← lockRow (.user id)
  if (UserView.row taken).isSome then
    .raise .integrity
  else
    return ()

def insertAccount (args : ProvisionArgs) : Trans LoginIdentity := do
  let profile := args.profile
  newUser args.userId
  reserve (.email args.email) []
  write (DbChange.addUser args.userId
    ⟨some args.email, profile.givenName, profile.familyName, none, .active, 1, none⟩)
  write (DbChange.addOrganization args.workspaceId
    (personalWorkspace args.userId profile args.slug))
  reserve (.identity profile.provider profile.subject) []
  write (DbChange.addIdentity args.identityId
    ⟨args.userId, profile.provider, profile.subject, none, true⟩)
  write (DbChange.addAudit ⟨none, some args.userId, none, "OIDC_USER_PROVISIONED", "success"⟩)
  return ⟨args.userId, .active, none, true, false⟩

def provisionOidc (args : ProvisionArgs) : Proc (Except (Fault AuthError) LoginIdentity) :=
  attempt (fun result => .login (.provisioned args result)) (insertAccount args)

/-- The part of `device_signals` after the device is looked up. -/
def noteDevice (args : SignalArgs) : Option Uuid → Trans DeviceSignals
  | none => unknown
  | some id => do
      let device ← lockRow (.device id)
      match (show Option TrustedDevice from device) with
      | some row =>
          if row.userId == args.userId && row.fingerprintHash == args.fingerprintHash then
            write (DbChange.touchDevice id args.ip args.now)
            return ⟨true, row.trustState == .trusted,
              args.ip.isSome && row.lastIpAddress.isSome && row.lastIpAddress != args.ip⟩
          else
            unknown
      | none => unknown
where
  unknown : Trans DeviceSignals := do
    reserve (.device args.userId args.fingerprintHash) []
    write (DbChange.addDevice args.deviceId
      ⟨args.userId, args.fingerprintHash, .unknown, args.ip, args.now⟩)
    return ⟨false, false, false⟩

def findDevice (user : Uuid) (fingerprint : Digest) (d : Db) : Option Uuid :=
  ((d.devices.select fun _ row => row.userId == user &&
    row.fingerprintHash == fingerprint).map Prod.fst).head?

def deviceSignals (args : SignalArgs) : Proc DeviceSignals :=
  .txn (fun i result w => w.record i (.login (.signalled args result.1 result.2)))
    (do
      let found ← ask (findDevice args.userId args.fingerprintHash) fun found =>
        .login (.deviceFound args.userId args.fingerprintHash found)
      let signals ← noteDevice args found
      return (found, signals))
    fun
    | .ok result => .done result.2
    | .error _ => .raise .unhandled

def verifiedIdentities (user : Uuid) (d : Db) : List (Uuid × Identity) :=
  d.identities.select fun _ row => row.userId == user && row.verified

def activeFactors (user : Uuid) (d : Db) : List (Uuid × MFADevice) :=
  d.mfaDevices.select fun _ row => row.userId == user && row.status == .active

def identityMethods (row : Identity) : List String :=
  match row.provider with
  | .password => ["password", "email_otp"]
  | .phone => ["sms_otp"]
  | other => [other.value]

def factorMethod (row : MFADevice) : String :=
  match row.factorType with
  | .email => "email_otp"
  | .sms => "sms_otp"
  | .backupCodes => "backup_code"
  | .totp => "totp"
  | .passkey => "passkey"

def fallbackMethods (user : Uuid) : Proc (List String) := do
  let identities ← look (verifiedIdentities user) fun answer =>
    .login (.verifiedIdentities user answer)
  let factors ← look (activeFactors user) fun answer => .mfa (.activeFactors user answer)
  let methods := identities.flatMap (fun entry => identityMethods entry.2) ++
    factors.map fun entry => factorMethod entry.2
  return methods.dedup.insertionSort (· ≤ ·)

/-- The password identity that `update_password_hash` finds. -/
def passwordIdentity (user : Uuid) (d : Db) : Option Uuid :=
  ((d.identities.select fun _ row => row.userId == user && row.provider == .password).map
    Prod.fst).head?

/-- The part of `update_password_hash` after the identity is looked up. -/
def storePasswordHash (user : Uuid) (hash : String) : Option Uuid → Trans Unit
  | none => return ()
  | some id => do
      let identity ← lockRow (.identity id)
      match IdentityView.row identity with
      | none => return ()
      | some row =>
          if row.userId == user && row.provider == .password then
            write (DbChange.setPasswordHash id hash)
          else
            return ()

def updatePasswordHash (user : Uuid) (hash : String) : Proc Unit :=
  .txn (fun i found w => w.record i (.login (.passwordUpdated user hash found)))
    (do
      let found ← ask (passwordIdentity user) fun found => .login (.passwordIdentity user found)
      storePasswordHash user hash found
      return found)
    fun
    | .ok _ => .done ()
    | .error _ => .raise .unhandled

def audit (eventType outcome : String) (user : Option Uuid) : Proc Unit :=
  let entry : AuditLog := ⟨none, user, none, eventType, outcome⟩
  transact (fun _ => .audited entry) (write (DbChange.addAudit entry))

end LoginRepository

end AuthCore
