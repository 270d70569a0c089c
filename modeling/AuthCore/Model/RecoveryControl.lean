/-
The calls of recovery: links for a new password, changes of a contact, and what
staff may do to an account.
-/
import AuthCore.Model.Recovery

namespace AuthCore

open Interleave

namespace RecoveryControl

open SupportAdminControl

variable (env : Env) (me : Nat)

def resetTtl : Time := seconds 900
def contactChangeTtl : Time := seconds 600
def passwordResetLimit : Nat := 3
def passwordResetWindowSeconds : Nat := 3600

def rateLimited : AuthError :=
  .recovery .rateLimited "Too many requests. Please wait and try again." 429

def passwordBreached : AuthError :=
  .recovery .passwordBreached
    "Choose a password that has not appeared in a known public breach." 400

def providerUnavailable : AuthError :=
  .recovery .providerUnavailable
    "A required security service is temporarily unavailable. Please try again." 503

def passwordReused : AuthError :=
  .recovery .passwordReused "Choose a password you have not used recently." 400

def tokenInvalid : AuthError :=
  .recovery .tokenInvalid
    "This recovery link is invalid, expired, or has already been used." 400

def contactInvalid : AuthError :=
  .recovery .contactInvalid
    "The contact-change request or verification code is invalid or expired." 400

/-- A message whose failure is not caught. -/
def notify (recipient : String) : Proc Unit := do
  let delivered ← send recipient
  if delivered then
    return ()
  else
    fail .unhandled

def requestPasswordReset (email : String) : Proc Result := do
  let normalized := env.normalizeEmail email
  let count ← Redis.incrementRateLimit "password_reset" (.text normalized)
    passwordResetWindowSeconds
  if passwordResetLimit < count then
    fail rateLimited
  else
  match ← RecoveryRepository.eligibleUserByEmail normalized with
  | none => return .nothing
  | some user =>
      match user.email with
      | none => return .nothing
      | some address =>
          let now ← clock
          RecoveryRepository.issuePasswordReset user.userId (env.resetHash (.drawn me 0))
            .passwordReset (now + resetTtl) none (.drawn me 1)
          let _ ← send address
          return .nothing

def resetPassword (token : Token) (password : String) : Proc Result := do
  match env.passwordPolicy password with
  | some (message, status) => fail (.recovery .passwordPolicy message status)
  | none =>
      match ← RegistrationControl.breachCount with
      | none => fail providerUnavailable
      | some true => fail passwordBreached
      | some false =>
          let now ← clock
          let started ← clock
          let (outcome, user) ← RecoveryRepository.consumePasswordReset env
            ⟨env.resetHash token, password, env.passwordHash password (.drawn me 0), now,
              started, .drawn me 1⟩
          match outcome, user with
          | .reused, _ => fail passwordReused
          | .updated, some user => do
              let _ ← SessionControl.revokeUserAccess user.userId "password_reset"
              match user.email with
              | none => return .nothing
              | some address => do
                  notify address
                  return .nothing
          | _, _ => fail tokenInvalid

def normalizeContact (contactType : ContactType) (value : String) : Option String :=
  match contactType with
  | .email => some (env.normalizeEmail value)
  | .phone => env.normalizePhone value

def startContactChange (claims : AccessClaims) (contactType : ContactType) (newValue : String) :
    Proc Result := do
  if ¬recentMfa claims then
    fail recentMfaRequired
  else
  let some normalized := normalizeContact env contactType newValue | fail contactInvalid
  let now ← clock
  let outcome ← RecoveryRepository.createContactChange
    ⟨claims.userId, contactType, normalized, env.otpHash (env.otpCode (.drawn me 0)),
      env.otpHash (env.otpCode (.drawn me 1)), now + contactChangeTtl, .drawn me 2⟩
  match outcome with
  | .error (.thrown error) => fail error
  | .error _ => fail .unhandled
  | .ok none => fail contactInvalid
  | .ok (some record) => do
      notify record.oldValue
      notify record.newValue
      return .contactChange record

def verifyContactChange (claims : AccessClaims) (request : Uuid) (proof : ContactProof)
    (code : String) : Proc Result := do
  if ¬recentMfa claims then
    fail recentMfaRequired
  else if ¬env.contactCode code then
    fail contactInvalid
  else
  let now ← clock
  let outcome ← RecoveryRepository.verifyContactChange
    ⟨claims.userId, request, proof, env.otpHash code, now⟩
  match outcome with
  | .error .integrity => fail RecoveryRepository.contactConflict
  | .error _ => fail .unhandled
  | .ok none => fail contactInvalid
  | .ok (some record) =>
      if record.appliedAt.isSome then do
        let _ ← SessionControl.revokeUserAccess claims.userId "contact_change"
        notify record.oldValue
        notify record.newValue
        return .contactChange record
      else
        return .contactChange record

end RecoveryControl

namespace SupportAdminControl

open RecoveryControl (notify resetTtl)

variable (env : Env) (me : Nat)

def governedDelay : Time := seconds (12 * 3600)

def governedInvalid : AuthError :=
  .recovery .governedInvalid "This governed request is unavailable in its current state." 409

def staffHasRole (user : Uuid) (role : StaffRole) : Proc Bool :=
  look (RecoveryRepository.staffHasRole user role) fun answer =>
    .account (.staffRole user role answer)

def authorize (claims : AccessClaims) (role : StaffRole) : Proc Unit := do
  if ¬recentMfa claims then
    fail recentMfaRequired
  else
  let allowed ← staffHasRole claims.userId role
  if allowed then
    return ()
  else
    fail staffForbidden

def unlock (claims : AccessClaims) (target : Uuid) : Proc Result := do
  authorize claims .supportAgentL2
  let user ← RecoveryRepository.unlockUser claims.userId target
  match user with
  | none => fail targetMissing
  | some _ => return .nothing

def supportRecovery (claims : AccessClaims) (target : Uuid) : Proc Result := do
  authorize claims .supportAgentL2
  let user ← RecoveryRepository.unlockUser claims.userId target
  match user.bind (·.email) with
  | none => fail targetMissing
  | some address =>
      let now ← clock
      RecoveryRepository.issuePasswordReset target (env.resetHash (.drawn me 0))
        .supportRecovery (now + resetTtl) (some claims.userId) (.drawn me 1)
      notify address
      return .nothing

/-- Tell the user at the address or number it has, if it has one. -/
def notifyUser (user : RecoveryUser) : Proc Unit :=
  match user.email.or user.phoneE164 with
  | none => return ()
  | some destination => notify destination

def initiateMfaReset (claims : AccessClaims) (target : Uuid) (ticketReference : String) :
    Proc Result := do
  authorize claims .supportAgentL2
  let now ← clock
  let result ← RecoveryRepository.initiateMfaReset
    ⟨claims.userId, target, ticketReference, now + governedDelay, .drawn me 0⟩
  match result with
  | none => fail targetMissing
  | some (record, user) =>
      notifyUser user
      return .governed record

def approveMfaReset (claims : AccessClaims) (request : Uuid) : Proc Result := do
  authorize claims .securitySupervisorL3
  let now ← clock
  let outcome ← RecoveryRepository.approveMfaReset ⟨claims.userId, request, now⟩
  match outcome with
  | .error (.thrown error) => fail error
  | .error _ => fail .unhandled
  | .ok none => fail governedInvalid
  | .ok (some record) => return .governed record

def executeMfaReset (claims : AccessClaims) (request : Uuid) : Proc Result := do
  authorize claims .securitySupervisorL3
  let now ← clock
  let outcome ← RecoveryRepository.executeMfaReset ⟨claims.userId, request, now⟩
  match outcome with
  | .error (.thrown error) => fail error
  | .error _ => fail .unhandled
  | .ok (_, none) => fail governedInvalid
  | .ok (_, some (record, user)) => do
      let _ ← SessionControl.revokeUserAccess user.userId "governed_mfa_reset"
      notifyUser user
      return .governed record

def getMfaReset (claims : AccessClaims) (request : Uuid) : Proc Result := do
  if ¬recentMfa claims then
    fail recentMfaRequired
  else
  let agent ← staffHasRole claims.userId .supportAgentL2
  let allowed ← if agent then pure true else staffHasRole claims.userId .securitySupervisorL3
  if ¬allowed then
    fail staffForbidden
  else
  let row ← look (RecoveryRepository.getMfaReset request) fun answer =>
    .recovery (.governed request answer)
  match row with
  | none => fail governedInvalid
  | some row => return .governed (RecoveryRepository.governedRecord request row)

end SupportAdminControl

end AuthCore
