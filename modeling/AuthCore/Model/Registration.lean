/-
Registration by email or phone, and the mailed and texted proofs that turn a
pending account into an active one.  Referrals are left out.
-/
import AuthCore.Model.LoginRepository

namespace AuthCore

open Interleave Relational

namespace RegistrationRepository

def pendingContact (entry : Uuid × User) : PendingContact :=
  ⟨entry.1, entry.2.state⟩

/-- `get_by_email` and `get_by_phone`. -/
def getByContact (contactType : ContactType) (value : String) (d : Db) : Option PendingContact :=
  ((d.users.select fun _ u => DbChange.contactOf u contactType == some value &&
    u.anonymizedAt.isNone).map pendingContact).head?

def insertEmailAccount (args : EmailArgs) : Trans Unit := do
  let user : Uuid := .drawn args.call 0
  LoginRepository.newUser user
  reserve (.email args.email) []
  write (DbChange.addUser user
    ⟨some args.email, some args.givenName, some args.familyName, none, .pending, 1, none⟩)
  write (DbChange.addOrganization (.drawn args.call 1)
    (LoginRepository.personalWorkspaceFor user (some args.givenName) (some args.familyName)
      args.slug))
  reserve (.identity .password args.email) []
  write (DbChange.addIdentity (.drawn args.call 2)
    ⟨user, .password, args.email, some args.passwordHash, false⟩)
  write (DbChange.addHistory (.drawn args.call 3)
    ⟨.drawn args.call 2, args.passwordHash, args.started⟩)
  reserve (.mailedToken args.tokenHash) []
  write (DbChange.addMailed (.drawn args.call 4)
    ⟨user, args.tokenHash, .emailVerify, args.expiresAt, none⟩)
  write (DbChange.addAudit ⟨none, some user, none, "USER_REGISTRATION_PENDING", "success"⟩)

def createEmailRegistration (args : EmailArgs) : Proc (Except (Fault AuthError) Unit) :=
  attempt (fun _ => .recovery (.emailRegistered args)) (insertEmailAccount args)

def insertPhoneAccount (args : PhoneArgs) : Trans Unit := do
  let user : Uuid := .drawn args.call 0
  LoginRepository.newUser user
  reserve (.phone args.phone) []
  write (DbChange.addUser user
    ⟨none, args.givenName, args.familyName, some args.phone, .pending, 1, none⟩)
  write (DbChange.addOrganization (.drawn args.call 1)
    (LoginRepository.personalWorkspaceFor user args.givenName args.familyName args.slug))
  reserve (.identity .phone args.phone) []
  write (DbChange.addIdentity (.drawn args.call 2) ⟨user, .phone, args.phone, none, false⟩)
  write (DbChange.addAudit ⟨none, some user, none, "USER_REGISTRATION_PENDING", "success"⟩)

def createPhoneRegistration (args : PhoneArgs) : Proc (Except (Fault AuthError) Unit) :=
  attempt (fun _ => .recovery (.phoneRegistered args)) (insertPhoneAccount args)

/-- Use up a token of the user that is still open. -/
def useUp (args : MailArgs) (id : Uuid) : Trans Unit := do
  let token ← lockRow (.mailed id)
  match (show Option EphemeralToken from token) with
  | none => return ()
  | some row =>
      if row.userId == args.userId && args.purposes.contains row.purpose &&
          row.consumedAt.isNone then
        write (DbChange.useMailed id args.now)
      else
        return ()

def insertMailed (args : MailArgs) (found : List Uuid) : Trans Unit := do
  Tx.each (useUp args) found
  reserve (.mailedToken args.tokenHash) []
  write (DbChange.addMailed args.tokenId
    ⟨args.userId, args.tokenHash, args.purpose, args.expiresAt, none⟩)
  write (DbChange.addAudit args.entry)

/-- The tokens of the user that are open. -/
def unused (user : Uuid) (purposes : List TokenPurpose) (d : Db) : List Uuid :=
  (d.ephemeral.select fun _ row => row.userId == user && purposes.contains row.purpose &&
    row.consumedAt.isNone).map Prod.fst

/-- A new token takes the place of the open ones.  `issue_email_verification`
and `issue_password_reset` differ in their arguments. -/
def replaceMailed (args : MailArgs) : Proc Unit :=
  .txn (fun i found w => w.record i (.recovery (.mailed args found)))
    (do
      let found ← ask (unused args.userId args.purposes) fun found =>
        .recovery (.unusedFound args.userId args.purposes found)
      insertMailed args found
      return found)
    fun
    | .ok _ => .done ()
    | .error _ => .raise .unhandled

def issueEmailVerification (user : Uuid) (tokenHash : Digest) (expiresAt : Time)
    (tokenId : Uuid) : Proc Unit := do
  let now ← clock
  replaceMailed ⟨user, tokenHash, .emailVerify, [.emailVerify], expiresAt, now, tokenId,
    ⟨none, some user, none, "EMAIL_VERIFICATION_REISSUED", "success"⟩⟩

def findMailed (hash : Digest) (purposes : List TokenPurpose) (d : Db) : Option Uuid :=
  ((d.ephemeral.select fun _ t => t.tokenHash == hash &&
    purposes.contains t.purpose).map Prod.fst).head?

/-- Lock the token of a link, unless it is gone, used or out of time. -/
def lockMailed (hash : Digest) (purposes : List TokenPurpose) (now : Time) :
    Option Uuid → Trans (Option (Uuid × EphemeralToken))
  | none => return none
  | some id => do
      let token ← lockRow (.mailed id)
      match (show Option EphemeralToken from token) with
      | none => return none
      | some row =>
          if row.tokenHash == hash && purposes.contains row.purpose && row.consumedAt.isNone &&
              now < row.expiresAt then
            return some (id, row)
          else
            return none

/-- The statement that marks the identities of a user as verified. -/
def markVerified (user : Uuid) (provider : IdentityProvider) (id : Uuid) : Trans Unit := do
  let identity ← lockRow (.identity id)
  match IdentityView.row identity with
  | none => return ()
  | some row =>
      if row.userId == user && row.provider == provider then
        write (DbChange.setVerified id)
      else
        return ()

/-- The account can still be verified: it is pending or active. -/
def verifiable (user : User) : Bool :=
  user.state == .pending || user.state == .active

/-- The token is used up even when the account is out of reach. -/
def verifyMailed (hash : Digest) (now : Time) (found : Option Uuid) : Trans Bool := do
  match ← lockMailed hash [.emailVerify] now found with
  | none => return false
  | some (id, token) =>
      write (DbChange.useMailed id now)
      let user ← lockRow (.user token.userId)
      if ((UserView.row user).any verifiable) then
        write (DbChange.setUserState token.userId .active)
        Tx.each (markVerified token.userId .password) (UserView.passwords user)
        write (DbChange.addAudit ⟨none, some token.userId, none, "EMAIL_VERIFIED", "success"⟩)
        return true
      else
        return false

def verifyEmail (hash : Digest) (now : Time) : Proc Bool :=
  .txn (fun i result w => w.record i (.recovery (.emailVerified hash now result.1 result.2)))
    (do
      let found ← ask (findMailed hash [.emailVerify]) fun found =>
        .recovery (.mailedFound hash found)
      let result ← verifyMailed hash now found
      return (found, result))
    fun
    | .ok result => .done result.2
    | .error _ => .raise .unhandled

/-- The account becomes active before its phone identity is looked for; without
one the change stays. -/
def activatePhone (user : Uuid) : Trans Bool := do
  let view ← lockRow (.user user)
  if ((UserView.row view).any verifiable) then
    write (DbChange.setUserState user .active)
    match UserView.phones view with
    | [] => return false
    | id :: _ =>
        markVerified user .phone id
        write (DbChange.addAudit ⟨none, some user, none, "PHONE_VERIFIED", "success"⟩)
        return true
  else
    return false

def verifyPhone (user : Uuid) : Proc Bool :=
  transact (fun result => .recovery (.phoneVerified user result)) (activatePhone user)

end RegistrationRepository

namespace RegistrationControl

open RegistrationRepository

variable (env : Env) (me : Nat)

def emailTokenLifetime : Time := seconds 900
def phoneRateWindowSeconds : Nat := 60
def phoneRateLimit : Nat := 3
def emailRateLimit : Nat := 5
def otpMaxAttempts : Nat := 3

def providerUnavailable : AuthError :=
  .registration .providerUnavailable
    "A required verification service is temporarily unavailable. Please try again." 503

def captchaInvalid : AuthError :=
  .registration .captchaInvalid
    "The security check could not be verified. Please try again." 400

def rateLimited : AuthError :=
  .registration .rateLimited "Too many requests. Please wait and try again." 429

def passwordBreached : AuthError :=
  .registration .passwordBreached
    "Choose a password that has not appeared in a known public breach." 400

def verificationInvalid : AuthError :=
  .registration .verificationInvalid
    "This verification link is invalid, expired, or has already been used." 400

def phoneInvalid : AuthError :=
  .registration .verificationInvalid
    "Enter a valid international phone number, including the country code." 400

def invalidOtp : AuthError :=
  .registration .otpInvalid "The verification code is invalid or expired." 400

def verifyCaptcha : Proc Unit := do
  match ← captchaVerify with
  | none => fail providerUnavailable
  | some false => fail captchaInvalid
  | some true => return ()

def limit (route subject : String) (most window : Nat) : Proc Unit := do
  let count ← Redis.incrementRateLimit route (.text subject) window
  if most < count then
    fail rateLimited
  else
    return ()

/-- Whether the password is in a public breach, or none when the service is
unreachable. -/
def breachCount : Proc (Option Bool) :=
  choose [some false, some true, none] fun found => .recovery (.breached found)

def look (contactType : ContactType) (value : String) : Proc (Option PendingContact) :=
  AuthCore.look (getByContact contactType value) fun answer =>
    .recovery (.contact contactType value answer)

def sendEmail (email : String) : Proc Result := do
  let delivered ← send email
  if delivered then
    return .nothing
  else
    fail providerUnavailable

/-- Replace the open verification tokens of a pending account. -/
def sendEmailToken (user : Uuid) (email : String) : Proc Result := do
  let now ← clock
  issueEmailVerification user (env.verificationHash (.drawn me 5)) (now + emailTokenLifetime)
    (.drawn me 4)
  sendEmail email

def registerEmail (email password givenName familyName : String) : Proc Result := do
  let normalizedEmail := env.normalizeEmail email
  verifyCaptcha
  limit "signup_email" normalizedEmail emailRateLimit 60
  match env.passwordPolicy password with
  | some (message, status) => fail (.registration .passwordPolicy message status)
  | none =>
      match ← breachCount with
      | none => fail providerUnavailable
      | some true => fail passwordBreached
      | some false =>
          match ← look .email normalizedEmail with
          | some existing =>
              if existing.state = .pending then
                sendEmailToken env me existing.userId normalizedEmail
              else
                return .nothing
          | none =>
              let now ← clock
              let started ← clock
              let created ← createEmailRegistration
                ⟨normalizedEmail, env.stripName givenName, env.stripName familyName,
                  env.passwordHash password (.drawn me 6), env.verificationHash (.drawn me 5),
                  now + emailTokenLifetime, started, env.slug "personal" (.drawn me 0), me⟩
              match created with
              | .error .integrity => return .nothing
              | .error _ => fail .unhandled
              | .ok _ => sendEmail normalizedEmail

def requestEmailVerification (email : String) : Proc Result := do
  let normalizedEmail := env.normalizeEmail email
  verifyCaptcha
  limit "verify_email_request" normalizedEmail 3 900
  match ← look .email normalizedEmail with
  | none => return .nothing
  | some existing =>
      if existing.state = .pending then
        sendEmailToken env me existing.userId normalizedEmail
      else
        return .nothing

def verifyEmail (token : Token) : Proc Result := do
  let now ← clock
  let valid ← RegistrationRepository.verifyEmail (env.verificationHash token) now
  if valid then
    return .nothing
  else
    fail verificationInvalid

def sendPhoneOtp (user : Uuid) (phone : String) : Proc Result := do
  Redis.storeOtpHash user .phoneVerify (env.otpHash (env.otpCode (.drawn me 3)))
  let delivered ← send phone
  if delivered then
    return .nothing
  else
    Redis.consumeOtp user .phoneVerify
    fail providerUnavailable

def registerPhone (phone : String) (givenName familyName : Option String) : Proc Result := do
  let some normalizedPhone := env.normalizePhone phone | fail phoneInvalid
  verifyCaptcha
  limit "signup_phone" normalizedPhone phoneRateLimit phoneRateWindowSeconds
  match ← look .phone normalizedPhone with
  | some existing =>
      if existing.state = .pending then
        sendPhoneOtp env me existing.userId normalizedPhone
      else
        return .nothing
  | none =>
      let created ← createPhoneRegistration
        ⟨normalizedPhone, (givenName.filter (· ≠ "")).map env.stripName,
          (familyName.filter (· ≠ "")).map env.stripName,
          env.slug "personal" (.drawn me 0), me⟩
      match created with
      | .error .integrity => return .nothing
      | .error _ => fail .unhandled
      | .ok _ => sendPhoneOtp env me (.drawn me 0) normalizedPhone

def requestPhoneVerification (phone : String) : Proc Result := do
  let some normalizedPhone := env.normalizePhone phone | fail phoneInvalid
  verifyCaptcha
  limit "verify_phone_request" normalizedPhone phoneRateLimit phoneRateWindowSeconds
  match ← look .phone normalizedPhone with
  | none => return .nothing
  | some existing =>
      if existing.state = .pending then
        sendPhoneOtp env me existing.userId normalizedPhone
      else
        return .nothing

def verifyPhone (phone code : String) : Proc Result := do
  let some normalizedPhone := env.normalizePhone phone | fail phoneInvalid
  verifyCaptcha
  match ← look .phone normalizedPhone with
  | none => fail invalidOtp
  | some existing =>
      if existing.state ≠ .pending then
        fail invalidOtp
      else
      let outcome ← Redis.verifyAndConsumeOtp existing.userId .phoneVerify (env.otpHash code)
        otpMaxAttempts
      if outcome ≠ 1 then
        fail invalidOtp
      else
      let verified ← RegistrationRepository.verifyPhone existing.userId
      if verified then
        return .nothing
      else
        fail invalidOtp

end RegistrationControl

end AuthCore
