/-
The security store as its methods leave it on the server: names built from keyed digests,
payloads as JSON texts, codes as hashes, counters and cut-offs as numbers.  The store of the
model, with a value of its own kind under each key, is what this one is for.
-/
import AuthCore.Gateway.Verifiers
import AuthCore.KeyValue.Server
import AuthCore.Model.Commands

namespace AuthCore

open Interleave KeyValue Gateway

/-- How payloads are turned into text and back, as `json.dumps` and `json.loads` do. -/
structure Codec (α : Type) where
  dumps : α → String
  loads : String → Option α

/-- How the store writes what it is given. -/
structure Spelling where
  keys : KeyFactory
  token : Token → String
  digest : Digest → String
  workflow : Codec Workflow
  challenge : Codec Challenge
  webauthn : Codec WebAuthnChallenge
  oidc : Codec OIDCWorkflow

namespace Spelling

variable (sp : Spelling)

def purpose : OtpPurpose → String
  | .phoneLogin => "phone_login"
  | .phoneVerify => "phone_verify"
  | .mfa token => "mfa:" ++ sp.token token

def subject : Subject → String
  | .text value => value
  | .id value => sp.keys.format.text value
  | .member user workspace =>
      sp.keys.format.text user ++ ":" ++ sp.keys.format.text workspace

end Spelling

namespace SecurityKeyFactory

variable (sp : Spelling)

def otp (user : Uuid) (purpose : OtpPurpose) : String :=
  "auth:otp:" ++ sp.keys.opaqueText (sp.keys.format.text user) ++ ":" ++
    sp.keys.opaqueText (sp.purpose purpose)

def mfaChallenge (challengeId : Token) : String :=
  "auth:mfa-challenge:" ++ sp.keys.opaqueText (sp.token challengeId)

def webauthnChallenge (challengeId : Token) : String :=
  "auth:webauthn:" ++ sp.keys.opaqueText (sp.token challengeId)

def rateLimit (route : String) (subject : Subject) : String :=
  "auth:rate:" ++ sp.keys.opaqueText route ++ ":" ++ sp.keys.opaqueText (sp.subject subject)

def factorLock (factor : Uuid) : String :=
  "auth:lock:mfa:" ++ sp.keys.opaqueText (sp.keys.format.text factor)

def loginLock (subject : String) : String :=
  "auth:lock:login:" ++ sp.keys.opaqueText subject

def loginWorkflow (token : Token) : String :=
  "auth:login-workflow:" ++ sp.keys.opaqueText (sp.token token)

def oidcWorkflow (state : Token) : String :=
  "auth:oidc:" ++ sp.keys.opaqueText (sp.token state)

/-- The name of each key; those of the revocations are the ones the gateway looks up. -/
def name : CacheKey → String
  | .loginWorkflow token => loginWorkflow sp token
  | .mfaChallenge token => mfaChallenge sp token
  | .webauthnChallenge token => webauthnChallenge sp token
  | .oidcWorkflow state => oidcWorkflow sp state
  | .otp user purpose => otp sp user purpose
  | .rateLimit route subject => rateLimit sp route subject
  | .loginLock subject => loginLock sp subject
  | .factorLock factor => factorLock sp factor
  | .accessRevocation jti => sp.keys.accessRevocation jti
  | .familyRevocation family => sp.keys.familyRevocation family
  | .userRevocation user => sp.keys.userRevocation user
  | .organizationRevocation user org => sp.keys.organizationRevocation user org

end SecurityKeyFactory

open SecurityKeyFactory

/-- What a method does at a time: its answer and the server after it, or an exception. -/
abbrev Method (β : Type) := Time → Server → Option (β × Server)

namespace RedisSecurityStore

variable (sp : Spelling)

def setText (key value : String) (ttl : Nat) : Method Unit := fun now s =>
  some ((), s.setEx now key value (seconds ttl))

def loadText {α : Type} (codec : Codec α) (key : String) : Method (Option α) := fun now s => do
  match ← s.get now key with
  | none => return (none, s)
  | some text => return (some (← codec.loads text), s)

def takeText {α : Type} (codec : Codec α) (key : String) : Method (Option α) := fun now s => do
  let (value, s) ← s.getdel now key
  match value with
  | none => return (none, s)
  | some text => return (some (← codec.loads text), s)

def delete (key : String) : Method Unit := fun _ s =>
  some ((), s.del key)

def present (key : String) : Method Bool := fun now s =>
  some (s.present now key, s)

/-- `str(int(timestamp))` and `datetime.fromtimestamp(int(value), UTC)`. -/
def timestamp : Codec Time where
  dumps t := (t / 1000000).repr
  loads text := text.toNat?.map seconds

/-- The first of the two commands of `store_otp_hash`. -/
def hsetOtp (user : Uuid) (purpose : OtpPurpose) (otpHash : Digest) : Method Unit := fun now s => do
  return ((), ← s.hset now (otp sp user purpose)
    [("hash", sp.digest otpHash), ("attempts", "0")])

def expireOtp (user : Uuid) (purpose : OtpPurpose) : Method Unit := fun now s =>
  some ((), s.expire now (otp sp user purpose) (seconds otpTtlSeconds))

def consumeOtp (user : Uuid) (purpose : OtpPurpose) : Method Unit :=
  delete (otp sp user purpose)

/-- `VERIFY_OTP_SCRIPT` -/
def verifyAndConsumeOtp (user : Uuid) (purpose : OtpPurpose) (candidate : Digest)
    (maxAttempts : Nat) : Method Int := fun now s => do
  let key := otp sp user purpose
  match ← s.hget now key "hash" with
  | none => return (-1, s)
  | some stored =>
      if stored = sp.digest candidate then
        return (1, s.del key)
      else
        let (attempts, s) ← s.hincr now key "attempts"
        if maxAttempts ≤ attempts then
          return (0, s.del key)
        else
          return (0, s)

/-- `RATE_LIMIT_SCRIPT` -/
def incrementRateLimit (route : String) (subject : Subject) (window : Nat) : Method Nat :=
  fun now s => do
    let key := rateLimit sp route subject
    let (current, s) ← s.incr now key
    if current = 1 then
      return (current, s.expire now key (seconds window))
    else
      return (current, s)

def resetRateLimit (route : String) (subject : Subject) : Method Unit :=
  delete (rateLimit sp route subject)

def lockLogin (subject : String) : Method Unit :=
  setText (loginLock sp subject) "1" loginLockTtlSeconds

def loginIsLocked (subject : String) : Method Bool :=
  present (loginLock sp subject)

def storeLoginWorkflow (token : Token) (payload : Workflow) : Method Unit :=
  setText (loginWorkflow sp token) (sp.workflow.dumps payload) loginWorkflowTtlSeconds

def getLoginWorkflow (token : Token) : Method (Option Workflow) :=
  loadText sp.workflow (loginWorkflow sp token)

def consumeLoginWorkflow (token : Token) : Method (Option Workflow) :=
  takeText sp.workflow (loginWorkflow sp token)

def storeMfaChallenge (token : Token) (payload : Challenge) : Method Unit :=
  setText (mfaChallenge sp token) (sp.challenge.dumps payload) mfaChallengeTtlSeconds

def getMfaChallenge (token : Token) : Method (Option Challenge) :=
  loadText sp.challenge (mfaChallenge sp token)

def consumeMfaChallenge (token : Token) : Method (Option Challenge) :=
  takeText sp.challenge (mfaChallenge sp token)

def storeWebauthnChallenge (token : Token) (payload : WebAuthnChallenge) : Method Unit :=
  setText (webauthnChallenge sp token) (sp.webauthn.dumps payload) webauthnChallengeTtlSeconds

def consumeWebauthnChallenge (token : Token) : Method (Option WebAuthnChallenge) :=
  takeText sp.webauthn (webauthnChallenge sp token)

def lockFactor (factor : Uuid) : Method Unit :=
  setText (factorLock sp factor) "1" factorLockTtlSeconds

def factorIsLocked (factor : Uuid) : Method Bool :=
  present (factorLock sp factor)

def storeOidcWorkflow (state : Token) (payload : OIDCWorkflow) : Method Unit :=
  setText (oidcWorkflow sp state) (sp.oidc.dumps payload) oidcWorkflowTtlSeconds

def consumeOidcWorkflow (state : Token) : Method (Option OIDCWorkflow) :=
  takeText sp.oidc (oidcWorkflow sp state)

def revokeAccessToken (jti : Uuid) (remainingLifetime : Nat) : Method Unit :=
  setText (sp.keys.accessRevocation jti) "1" remainingLifetime

def accessTokenIsRevoked (jti : Uuid) : Method Bool :=
  present (sp.keys.accessRevocation jti)

def revokeFamily (family : Uuid) (remainingLifetime : Nat) : Method Unit :=
  setText (sp.keys.familyRevocation family) "1" (max 1 remainingLifetime)

def familyIsRevoked (family : Uuid) : Method Bool :=
  present (sp.keys.familyRevocation family)

def revokeUser (user : Uuid) (issuedBefore : Time) : Method Unit :=
  setText (sp.keys.userRevocation user) (timestamp.dumps issuedBefore) userRevocationTtlSeconds

def userRevokedAt (user : Uuid) : Method (Option Time) :=
  loadText timestamp (sp.keys.userRevocation user)

def revokeOrganization (user org : Uuid) (issuedBefore : Time) : Method Unit :=
  setText (sp.keys.organizationRevocation user org) (timestamp.dumps issuedBefore)
    userRevocationTtlSeconds

def organizationRevokedAt (user org : Uuid) : Method (Option Time) :=
  loadText timestamp (sp.keys.organizationRevocation user org)

def clearOrganizationRevocation (user org : Uuid) : Method Unit :=
  delete (sp.keys.organizationRevocation user org)

end RedisSecurityStore

/-- One use of the store; `store_otp_hash` is two. -/
inductive Use where
  | hsetOtp (user : Uuid) (purpose : OtpPurpose) (hash : Digest)
  | expireOtp (user : Uuid) (purpose : OtpPurpose)
  | consumeOtp (user : Uuid) (purpose : OtpPurpose)
  | verifyAndConsumeOtp (user : Uuid) (purpose : OtpPurpose) (candidate : Digest)
      (maxAttempts : Nat)
  | incrementRateLimit (route : String) (subject : Subject) (window : Nat)
  | resetRateLimit (route : String) (subject : Subject)
  | lockLogin (subject : String)
  | loginIsLocked (subject : String)
  | storeLoginWorkflow (token : Token) (payload : Workflow)
  | getLoginWorkflow (token : Token)
  | consumeLoginWorkflow (token : Token)
  | storeMfaChallenge (token : Token) (payload : Challenge)
  | getMfaChallenge (token : Token)
  | consumeMfaChallenge (token : Token)
  | storeWebauthnChallenge (token : Token) (payload : WebAuthnChallenge)
  | consumeWebauthnChallenge (token : Token)
  | lockFactor (factor : Uuid)
  | factorIsLocked (factor : Uuid)
  | storeOidcWorkflow (state : Token) (payload : OIDCWorkflow)
  | consumeOidcWorkflow (state : Token)
  | revokeAccessToken (jti : Uuid) (remainingLifetime : Nat)
  | accessTokenIsRevoked (jti : Uuid)
  | revokeFamily (family : Uuid) (remainingLifetime : Nat)
  | familyIsRevoked (family : Uuid)
  | revokeUser (user : Uuid) (issuedBefore : Time)
  | userRevokedAt (user : Uuid)
  | revokeOrganization (user org : Uuid) (issuedBefore : Time)
  | organizationRevokedAt (user org : Uuid)
  | clearOrganizationRevocation (user org : Uuid)

namespace Use

def Answer : Use → Type
  | verifyAndConsumeOtp .. => Int
  | incrementRateLimit .. => Nat
  | loginIsLocked _ | factorIsLocked _ | accessTokenIsRevoked _ | familyIsRevoked _ => Bool
  | getLoginWorkflow _ | consumeLoginWorkflow _ => Option Workflow
  | getMfaChallenge _ | consumeMfaChallenge _ => Option Challenge
  | consumeWebauthnChallenge _ => Option WebAuthnChallenge
  | consumeOidcWorkflow _ => Option OIDCWorkflow
  | userRevokedAt _ | organizationRevokedAt _ _ => Option Time
  | _ => Unit

/-- The key that is used. -/
def key : Use → CacheKey
  | hsetOtp user purpose _ | expireOtp user purpose | consumeOtp user purpose
  | verifyAndConsumeOtp user purpose _ _ => .otp user purpose
  | incrementRateLimit route subject _ | resetRateLimit route subject => .rateLimit route subject
  | lockLogin subject | loginIsLocked subject => .loginLock subject
  | storeLoginWorkflow token _ | getLoginWorkflow token | consumeLoginWorkflow token =>
      .loginWorkflow token
  | storeMfaChallenge token _ | getMfaChallenge token | consumeMfaChallenge token =>
      .mfaChallenge token
  | storeWebauthnChallenge token _ | consumeWebauthnChallenge token => .webauthnChallenge token
  | lockFactor factor | factorIsLocked factor => .factorLock factor
  | storeOidcWorkflow state _ | consumeOidcWorkflow state => .oidcWorkflow state
  | revokeAccessToken jti _ | accessTokenIsRevoked jti => .accessRevocation jti
  | revokeFamily family _ | familyIsRevoked family => .familyRevocation family
  | revokeUser user _ | userRevokedAt user => .userRevocation user
  | revokeOrganization user org _ | organizationRevokedAt user org
  | clearOrganizationRevocation user org => .organizationRevocation user org

/-- The step of the model. -/
def proc : (use : Use) → Proc use.Answer
  | hsetOtp user purpose hash =>
      step (fun _ w => ((), Redis.setOtp user purpose hash w)) fun _ =>
        .otpStored user purpose hash
  | expireOtp user purpose =>
      step (fun _ w => ((), Redis.expireOtp user purpose w)) fun _ => .otpExpires user purpose
  | consumeOtp user purpose => Redis.consumeOtp user purpose
  | verifyAndConsumeOtp user purpose candidate maxAttempts =>
      Redis.verifyAndConsumeOtp user purpose candidate maxAttempts
  | incrementRateLimit route subject window => Redis.incrementRateLimit route subject window
  | resetRateLimit route subject => Redis.resetRateLimit route subject
  | lockLogin subject => Redis.lockLogin subject
  | loginIsLocked subject => Redis.loginIsLocked subject
  | storeLoginWorkflow token payload => Redis.storeLoginWorkflow token payload
  | getLoginWorkflow token => Redis.getLoginWorkflow token
  | consumeLoginWorkflow token => Redis.consumeLoginWorkflow token
  | storeMfaChallenge token payload => Redis.storeMfaChallenge token payload
  | getMfaChallenge token => Redis.getMfaChallenge token
  | consumeMfaChallenge token => Redis.consumeMfaChallenge token
  | storeWebauthnChallenge token payload => Redis.storeWebauthnChallenge token payload
  | consumeWebauthnChallenge token => Redis.consumeWebauthnChallenge token
  | lockFactor factor => Redis.lockFactor factor
  | factorIsLocked factor => Redis.factorIsLocked factor
  | storeOidcWorkflow state payload => Redis.storeOidcWorkflow state payload
  | consumeOidcWorkflow state => Redis.consumeOidcWorkflow state
  | revokeAccessToken jti remaining => Redis.revokeAccessToken jti remaining
  | accessTokenIsRevoked jti => Redis.accessTokenIsRevoked jti
  | revokeFamily family remaining => Redis.revokeFamily family remaining
  | familyIsRevoked family => Redis.familyIsRevoked family
  | revokeUser user issuedBefore => Redis.revokeUser user issuedBefore
  | userRevokedAt user => Redis.userRevokedAt user
  | revokeOrganization user org issuedBefore => Redis.revokeOrganization user org issuedBefore
  | organizationRevokedAt user org => Redis.organizationRevokedAt user org
  | clearOrganizationRevocation user org => Redis.clearOrganizationRevocation user org

/-- The method on the server. -/
def method (sp : Spelling) : (use : Use) → Method use.Answer
  | hsetOtp user purpose hash => RedisSecurityStore.hsetOtp sp user purpose hash
  | expireOtp user purpose => RedisSecurityStore.expireOtp sp user purpose
  | consumeOtp user purpose => RedisSecurityStore.consumeOtp sp user purpose
  | verifyAndConsumeOtp user purpose candidate maxAttempts =>
      RedisSecurityStore.verifyAndConsumeOtp sp user purpose candidate maxAttempts
  | incrementRateLimit route subject window =>
      RedisSecurityStore.incrementRateLimit sp route subject window
  | resetRateLimit route subject => RedisSecurityStore.resetRateLimit sp route subject
  | lockLogin subject => RedisSecurityStore.lockLogin sp subject
  | loginIsLocked subject => RedisSecurityStore.loginIsLocked sp subject
  | storeLoginWorkflow token payload => RedisSecurityStore.storeLoginWorkflow sp token payload
  | getLoginWorkflow token => RedisSecurityStore.getLoginWorkflow sp token
  | consumeLoginWorkflow token => RedisSecurityStore.consumeLoginWorkflow sp token
  | storeMfaChallenge token payload => RedisSecurityStore.storeMfaChallenge sp token payload
  | getMfaChallenge token => RedisSecurityStore.getMfaChallenge sp token
  | consumeMfaChallenge token => RedisSecurityStore.consumeMfaChallenge sp token
  | storeWebauthnChallenge token payload =>
      RedisSecurityStore.storeWebauthnChallenge sp token payload
  | consumeWebauthnChallenge token => RedisSecurityStore.consumeWebauthnChallenge sp token
  | lockFactor factor => RedisSecurityStore.lockFactor sp factor
  | factorIsLocked factor => RedisSecurityStore.factorIsLocked sp factor
  | storeOidcWorkflow state payload => RedisSecurityStore.storeOidcWorkflow sp state payload
  | consumeOidcWorkflow state => RedisSecurityStore.consumeOidcWorkflow sp state
  | revokeAccessToken jti remaining => RedisSecurityStore.revokeAccessToken sp jti remaining
  | accessTokenIsRevoked jti => RedisSecurityStore.accessTokenIsRevoked sp jti
  | revokeFamily family remaining => RedisSecurityStore.revokeFamily sp family remaining
  | familyIsRevoked family => RedisSecurityStore.familyIsRevoked sp family
  | revokeUser user issuedBefore => RedisSecurityStore.revokeUser sp user issuedBefore
  | userRevokedAt user => RedisSecurityStore.userRevokedAt sp user
  | revokeOrganization user org issuedBefore =>
      RedisSecurityStore.revokeOrganization sp user org issuedBefore
  | organizationRevokedAt user org => RedisSecurityStore.organizationRevokedAt sp user org
  | clearOrganizationRevocation user org =>
      RedisSecurityStore.clearOrganizationRevocation sp user org

end Use

end AuthCore
