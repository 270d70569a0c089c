/-
The single steps of a call: clock readings, commands of the security store,
signing, deliveries and plain queries.  Each is atomic and records itself.
-/
import AuthCore.Model.Events

namespace AuthCore

open Interleave

def otpTtlSeconds : Nat := 180
def mfaChallengeTtlSeconds : Nat := 300
def webauthnChallengeTtlSeconds : Nat := 300
def factorLockTtlSeconds : Nat := 900
def userRevocationTtlSeconds : Nat := 2592000
def loginLockTtlSeconds : Nat := 900
def loginWorkflowTtlSeconds : Nat := 300
def oidcWorkflowTtlSeconds : Nat := 300

/-- An action with one answer. -/
def step {β : Type} (f : Db → World → β × World) (event : β → Event) : Proc β :=
  .act (fun i d w => [((f d w).1, (f d w).2.record i (event (f d w).1))]) .done

/-- An action whose answer the model leaves open. -/
def choose {β : Type} (answers : List β) (event : β → Event) : Proc β :=
  .act (fun i _ w => answers.map fun b => (b, w.record i (event b))) .done

/-- A query in a session of its own. -/
def look {β : Type} (query : Db → β) (event : β → Event) : Proc β :=
  step (fun d w => (query d, w)) event

/-- A query inside a transaction. -/
def ask {β : Type} (query : Db → β) (event : β → Event) : Trans β :=
  .select query (fun i b w => w.record i (event b)) .ret

def clock : Proc Time :=
  step (fun _ w => (w.now, w)) .clock

/-- A message handed to a delivery service that can fail. -/
def send (recipient : String) : Proc Bool :=
  choose [true, false] (.sent recipient)

/-- The answer of the captcha service, or none when it is unreachable. -/
def captchaVerify : Proc (Option Bool) :=
  choose [some true, some false, none] .captcha

namespace Redis

def get (key : CacheKey) : Proc (Option key.Value) :=
  step (fun _ w => (w.cache.get w.now key, w)) (.got key)

def set (key : CacheKey) (value : key.Value) (ttl : Nat) : Proc Unit :=
  step (fun _ w => ((), { w with cache := w.cache.put key value (some (w.now + seconds ttl)) }))
    fun _ => .put key value ttl

def getdel (key : CacheKey) : Proc (Option key.Value) :=
  step (fun _ w => (w.cache.get w.now key, { w with cache := w.cache.remove key })) (.taken key)

def delete (key : CacheKey) : Proc Unit :=
  step (fun _ w => ((), { w with cache := w.cache.remove key })) fun _ => .removed key

/-- `INCR`, with `EXPIRE` on the first count. -/
def count (route : String) (subject : Subject) (window : Nat) (w : World) : Nat × World :=
  let key := CacheKey.rateLimit route subject
  match w.cache.get w.now key with
  | none => (1, { w with cache := w.cache.put key (1 : Nat) (some (w.now + seconds window)) })
  | some (count : Nat) =>
      (count + 1, { w with
        cache := w.cache.put key (count + 1 : Nat) (w.cache.expiry w.now key) })

def incrementRateLimit (route : String) (subject : Subject) (window : Nat) : Proc Nat :=
  step (fun _ w => count route subject window w) (.counted route subject window)

def resetRateLimit (route : String) (subject : Subject) : Proc Unit :=
  delete (.rateLimit route subject)

/-- `HSET` keeps the expiry the key has. -/
def setOtp (user : Uuid) (purpose : OtpPurpose) (hash : Digest) (w : World) : World :=
  { w with
    cache := w.cache.put (.otp user purpose) (⟨hash, 0⟩ : StoredOtp)
      (w.cache.expiry w.now (.otp user purpose)) }

def expireOtp (user : Uuid) (purpose : OtpPurpose) (w : World) : World :=
  match w.cache.get w.now (.otp user purpose) with
  | none => w
  | some otp => { w with
      cache := w.cache.put (.otp user purpose) otp (some (w.now + seconds otpTtlSeconds)) }

/-- `HSET`, then `EXPIRE` as a second command. -/
def storeOtpHash (user : Uuid) (purpose : OtpPurpose) (hash : Digest) : Proc Unit := do
  step (fun _ w => ((), setOtp user purpose hash w)) fun _ => .otpStored user purpose hash
  step (fun _ w => ((), expireOtp user purpose w)) fun _ => .otpExpires user purpose

def consumeOtp (user : Uuid) (purpose : OtpPurpose) : Proc Unit :=
  delete (.otp user purpose)

/-- The script compares, counts and deletes in one step. -/
def tryOtp (user : Uuid) (purpose : OtpPurpose) (candidate : Digest) (maxAttempts : Nat)
    (w : World) : Int × World :=
  match w.cache.get w.now (.otp user purpose) with
  | none => (-1, w)
  | some (otp : StoredOtp) =>
      if otp.hash = candidate then
        (1, { w with cache := w.cache.remove (.otp user purpose) })
      else if maxAttempts ≤ otp.attempts + 1 then
        (0, { w with cache := w.cache.remove (.otp user purpose) })
      else
        (0, { w with
          cache := w.cache.put (.otp user purpose) (⟨otp.hash, otp.attempts + 1⟩ : StoredOtp)
            (w.cache.expiry w.now (.otp user purpose)) })

def verifyAndConsumeOtp (user : Uuid) (purpose : OtpPurpose) (candidate : Digest)
    (maxAttempts : Nat) : Proc Int :=
  step (fun _ w => tryOtp user purpose candidate maxAttempts w)
    (.otpTried user purpose candidate maxAttempts)

def revokeAccessToken (jti : Uuid) (remainingLifetime : Nat) : Proc Unit :=
  set (.accessRevocation jti) () remainingLifetime

def accessTokenIsRevoked (jti : Uuid) : Proc Bool :=
  return (← get (.accessRevocation jti)).isSome

def revokeFamily (family : Uuid) (remainingLifetime : Nat) : Proc Unit :=
  set (.familyRevocation family) () (max 1 remainingLifetime)

def familyIsRevoked (family : Uuid) : Proc Bool :=
  return (← get (.familyRevocation family)).isSome

def revokeUser (user : Uuid) (issuedBefore : Time) : Proc Unit :=
  set (.userRevocation user) (wholeSecond issuedBefore) userRevocationTtlSeconds

def userRevokedAt (user : Uuid) : Proc (Option Time) :=
  get (.userRevocation user)

def revokeOrganization (user org : Uuid) (issuedBefore : Time) : Proc Unit :=
  set (.organizationRevocation user org) (wholeSecond issuedBefore) userRevocationTtlSeconds

def organizationRevokedAt (user org : Uuid) : Proc (Option Time) :=
  get (.organizationRevocation user org)

def clearOrganizationRevocation (user org : Uuid) : Proc Unit :=
  delete (.organizationRevocation user org)

def storeLoginWorkflow (token : Token) (payload : Workflow) : Proc Unit :=
  set (.loginWorkflow token) payload loginWorkflowTtlSeconds

def getLoginWorkflow (token : Token) : Proc (Option Workflow) :=
  get (.loginWorkflow token)

def consumeLoginWorkflow (token : Token) : Proc (Option Workflow) :=
  getdel (.loginWorkflow token)

def storeMfaChallenge (token : Token) (payload : Challenge) : Proc Unit :=
  set (.mfaChallenge token) payload mfaChallengeTtlSeconds

def getMfaChallenge (token : Token) : Proc (Option Challenge) :=
  get (.mfaChallenge token)

def consumeMfaChallenge (token : Token) : Proc (Option Challenge) :=
  getdel (.mfaChallenge token)

def storeWebauthnChallenge (token : Token) (payload : WebAuthnChallenge) : Proc Unit :=
  set (.webauthnChallenge token) payload webauthnChallengeTtlSeconds

def consumeWebauthnChallenge (token : Token) : Proc (Option WebAuthnChallenge) :=
  getdel (.webauthnChallenge token)

def storeOidcWorkflow (state : Token) (payload : OIDCWorkflow) : Proc Unit :=
  set (.oidcWorkflow state) payload oidcWorkflowTtlSeconds

def consumeOidcWorkflow (state : Token) : Proc (Option OIDCWorkflow) :=
  getdel (.oidcWorkflow state)

def lockLogin (subject : String) : Proc Unit :=
  set (.loginLock subject) () loginLockTtlSeconds

def loginIsLocked (subject : String) : Proc Bool :=
  return (← get (.loginLock subject)).isSome

def lockFactor (factor : Uuid) : Proc Unit :=
  set (.factorLock factor) () factorLockTtlSeconds

def factorIsLocked (factor : Uuid) : Proc Bool :=
  return (← get (.factorLock factor)).isSome

end Redis

/-- The claims of an access token signed at `now`. -/
def accessClaims (user session family jti : Uuid) (client : ClientType)
    (assurance : List String) (now : Time)
    (workspace : Option (Uuid × WorkspaceType × List String)) : AccessClaims where
  userId := user
  sessionId := session
  familyId := family
  jti := jti
  issuedAt := wholeSecond now
  expiresAt := wholeSecond (now + seconds accessTtlSeconds)
  clientType := client
  assurance := assurance
  workspaceId := workspace.map fun w => w.1
  workspaceType := workspace.map fun w => w.2.1
  roles := (workspace.map fun w => w.2.2).getD []

/-- Sign an access token; its expiry is returned with it. -/
def issue (claims : AccessClaims) (now : Time) : Proc (AccessClaims × Time) := do
  step (fun _ w => ((), { w with issued := claims :: w.issued })) fun _ => .signed claims
  return (claims, now + seconds accessTtlSeconds)

/-- Signatures are not forged: what verifies has been signed.  Expiry and issue
time are compared with the verifier's own clock. -/
def verifies (token : AccessClaims) (w : World) : Bool :=
  decide (token ∈ w.issued) && decide (w.now < token.expiresAt) &&
    decide (token.issuedAt ≤ w.now)

def verify (token : AccessClaims) : Proc Bool :=
  step (fun _ w => (verifies token w, w)) (.verified token)

/-- A transaction whose failure is not caught. -/
def transact {β : Type} (event : β → Event) (body : Trans β) : Proc β :=
  .txn (fun i b w => w.record i (event b)) body fun
    | .ok b => .done b
    | .error _ => .raise .unhandled

/-- A transaction whose failure the code handles. -/
def attempt {β : Type} (event : β → Event) (body : Trans β) : Proc (Except (Fault AuthError) β) :=
  .txn (fun i b w => w.record i (event b)) body .done

/-- Lock a row and read its latest version. -/
def lockRow (row : Row) : Trans row.View :=
  .lock (L := schema) row .ret

def write (change : Change schema) : Trans Unit :=
  .write change (.ret ())

def fail {β : Type} (e : AuthError) : Proc β :=
  .raise e

/-- An insertion into a unique index: any entry that this transaction has not
itself removed is a violation. -/
def reserve (key : IndexKey) (removed : List Uuid) : Trans Unit := do
  let entries ← lockRow (.index key)
  if (show List Uuid from entries).all removed.contains then
    return ()
  else
    .raise .integrity

end AuthCore
