/-
Sessions, access tokens and their revocation.  `me` is the number of the call:
its random values are `.drawn me 0`, `.drawn me 1` and so on.
-/
import AuthCore.Model.SessionRepository

namespace AuthCore

open Interleave

namespace SessionControl

variable (env : Env) (me : Nat)

def workflowInvalid : AuthError :=
  .session .workflowInvalid "This session workflow is invalid or expired." 400

def tokenInvalid : AuthError :=
  .session .tokenInvalid "The session token is invalid or expired." 401

def accessTokenInvalid : AuthError :=
  .session .tokenInvalid "The access token is invalid or expired." 401

def tokenReused : AuthError :=
  .session .tokenReused
    "This session may have been stolen and has been ended. Please sign in again." 401

def clientMismatch : AuthError :=
  .session .clientMismatch "This refresh token does not belong to this client or device." 401

def sessionExpired : AuthError :=
  .session .sessionExpired "This session has expired. Please sign in again." 401

def sessionNotFound : AuthError :=
  .session .sessionNotFound "The selected session was not found." 404

def applyRevocation (value : RevocationResult) : Proc Unit := do
  Redis.revokeAccessToken value.accessJti accessTtlSeconds
  Redis.revokeFamily value.familyId refreshFamilySeconds

def assurance (workflow : Workflow) : List String :=
  let method := (workflow.mfaMethod.or workflow.primaryMethod).getD "unknown"
  match workflow.assurance with
  | some assurance => [method, assurance]
  | none => [method]

/-- The browser client also gets a token against request forgery. -/
def csrfToken (clientType : ClientType) (token : Token) : Option Token :=
  if clientType = .web then some token else none

def createArgs (user : Uuid) (clientType : ClientType) (fingerprint : String)
    (ip : Option String) (now stored : Time) : CreateArgs where
  userId := user
  clientType := clientType
  fingerprintHash := env.fingerprintHash fingerprint
  ip := ip
  refreshTokenHash := env.tokenHash (.drawn me 0)
  accessJti := .drawn me 2
  familyExpiresAt := now + seconds refreshFamilySeconds
  sessionExpiresAt := now + seconds sessionAbsoluteSeconds
  refreshExpiresAt := now + seconds refreshFamilySeconds
  now := stored
  familyId := .drawn me 3
  sessionId := .drawn me 4
  refreshTokenId := .drawn me 5

def createSession (workflowToken : Token) (clientType : ClientType) (fingerprint : String)
    (ip : Option String) : Proc Result := do
  let some workflow ← Redis.consumeLoginWorkflow workflowToken | fail workflowInvalid
  if workflow.decision ≠ .sessionReady then
    fail workflowInvalid
  else
  let user := workflow.userId
  let isActive ← look (SessionRepository.userIsActive user) fun answer =>
    .session (.userIsActive user answer)
  if ¬isActive then
    fail workflowInvalid
  else
  let now ← clock
  let stored ← clock
  let created ← SessionRepository.createSession
    (createArgs env me user clientType fingerprint ip now stored)
  let (accessToken, accessExpiresAt) ← issue
    (accessClaims user created.record.sessionId created.record.familyId (.drawn me 2) clientType
      (assurance workflow) now none) now
  Prog.each applyRevocation created.evicted
  SessionRepository.audit "SESSION_CREATED" "success" user
  return .pair ⟨accessToken, .drawn me 0, accessExpiresAt,
    now + seconds sessionAbsoluteSeconds, created.record.sessionId,
    csrfToken clientType (.drawn me 1)⟩

def rotateArgs (refreshToken : Token) (clientType : ClientType) (fingerprint : String)
    (now : Time) : RotateArgs where
  tokenHash := env.tokenHash refreshToken
  replacementHash := env.tokenHash (.drawn me 0)
  replacementExpiresAt := now + seconds refreshFamilySeconds
  newAccessJti := .drawn me 1
  clientType := clientType
  fingerprintHash := env.fingerprintHash fingerprint
  idleTimeout := idleTimeoutSeconds
  now := now
  replacementId := .drawn me 2

/-- The revocation that follows a rotation, by its status. -/
def applyRotation (result : RotationResult) : Proc Unit :=
  match result.revoked with
  | none => return ()
  | some revoked =>
      if result.status = .rotated then
        Redis.revokeAccessToken revoked.accessJti accessTtlSeconds
      else
        applyRevocation revoked

def refresh (refreshToken : Token) (clientType : ClientType) (fingerprint : String) :
    Proc Result := do
  let now ← clock
  let result ← SessionRepository.rotateRefreshToken
    (rotateArgs env me refreshToken clientType fingerprint now)
  applyRotation result
  match result.status with
  | .reused => do
      match result.revoked with
      | some revoked =>
          SessionRepository.audit "REFRESH_TOKEN_REUSE_DETECTED" "denied" revoked.userId
      | none => pure ()
      fail tokenReused
  | .clientMismatch => fail clientMismatch
  | .expired => fail sessionExpired
  | .invalid => fail tokenInvalid
  | .rotated =>
      match result.record with
      | none => fail tokenInvalid
      | some record => do
          let (accessToken, accessExpiresAt) ← issue
            (accessClaims record.userId record.sessionId record.familyId (.drawn me 1)
              clientType ["refresh_token"] now none) now
          SessionRepository.audit "SESSION_REFRESHED" "success" record.userId
          return .pair ⟨accessToken, .drawn me 0, accessExpiresAt, record.expiresAt,
            record.sessionId, csrfToken clientType (.drawn me 3)⟩

/-- The organization cut-off applies to tokens scoped to an organization. -/
def organizationCutoff (claims : AccessClaims) : Proc (Option Time) :=
  match claims.workspaceId with
  | some workspace =>
      if claims.workspaceType = some .organization then
        Redis.organizationRevokedAt claims.userId workspace
      else
        return none
  | none => return none

def issuedBefore (claims : AccessClaims) (cutoff : Option Time) : Bool :=
  match cutoff with
  | some revokedAt => decide (claims.issuedAt ≤ revokedAt)
  | none => false

def authenticate (accessToken : AccessClaims) : Proc AccessClaims := do
  let now ← clock
  let signed ← verify accessToken
  if ¬signed then
    fail accessTokenInvalid
  else
  let claims := accessToken
  if ← Redis.accessTokenIsRevoked claims.jti then
    fail tokenInvalid
  else
  if ← Redis.familyIsRevoked claims.familyId then
    fail tokenInvalid
  else
  let revokedAt ← Redis.userRevokedAt claims.userId
  if issuedBefore claims revokedAt then
    fail tokenInvalid
  else
  let orgRevokedAt ← organizationCutoff claims
  if issuedBefore claims orgRevokedAt then
    fail tokenInvalid
  else
  let isActive ← look (SessionRepository.sessionIsActive claims.sessionId now) fun answer =>
    .session (.sessionIsActive claims.sessionId now answer)
  if ¬isActive then
    fail tokenInvalid
  else
  return claims

def scopeArgs (claims : AccessClaims) (workspace : WorkspaceSummary) (now : Time) :
    ScopeArgs where
  userId := claims.userId
  sessionId := claims.sessionId
  workspaceId := workspace.workspaceId
  accessJti := .drawn me 0
  now := now

def scopedClaims (claims : AccessClaims) (workspace : WorkspaceSummary) (now : Time) :
    AccessClaims :=
  accessClaims claims.userId claims.sessionId claims.familyId (.drawn me 0) claims.clientType
    claims.assurance now
    (some (workspace.workspaceId, workspace.workspaceType, workspace.roles))

def issueWorkspaceScope (claims : AccessClaims) (workspace : WorkspaceSummary) :
    Proc (AccessClaims × Time) := do
  let now ← clock
  let some previousJti ← SessionRepository.scopeSession (scopeArgs me claims workspace now)
    | fail tokenInvalid
  Redis.revokeAccessToken previousJti accessTtlSeconds
  let (token, expiresAt) ← issue (scopedClaims me claims workspace now) now
  SessionRepository.audit "WORKSPACE_CONTEXT_SWITCHED" "success" claims.userId
  return (token, expiresAt)

def revokeOrganizationAccess (user workspace : Uuid) (accessJtis : List Uuid) : Proc Unit := do
  let now ← clock
  Redis.revokeOrganization user workspace now
  Prog.each (fun jti => Redis.revokeAccessToken jti accessTtlSeconds) accessJtis

def revokeUserAccess (user : Uuid) (reason : String) : Proc Nat := do
  let now ← clock
  let results ← SessionRepository.revokeAll ⟨user, reason, now⟩
  Redis.revokeUser user now
  Prog.each applyRevocation results
  return results.length

def restoreOrganizationAccess (user workspace : Uuid) : Proc Unit :=
  Redis.clearOrganizationRevocation user workspace

def logout (claims : AccessClaims) : Proc Result := do
  let now ← clock
  let result ← SessionRepository.revokeSession ⟨claims.userId, claims.sessionId, "logout", now⟩
  match result with
  | some revoked => applyRevocation revoked
  | none => pure ()
  SessionRepository.audit "SESSION_LOGGED_OUT" "success" claims.userId
  return .nothing

def logoutAll (claims : AccessClaims) : Proc Result := do
  let now ← clock
  let results ← SessionRepository.revokeAll ⟨claims.userId, "logout_all", now⟩
  Redis.revokeUser claims.userId now
  Prog.each applyRevocation results
  SessionRepository.audit "ALL_SESSIONS_LOGGED_OUT" "success" claims.userId
  return .count results.length

def sessions (claims : AccessClaims) : Proc Result := do
  let now ← clock
  let values ← look (SessionRepository.listSessions claims.userId now) fun values =>
    .session (.listed claims.userId now values)
  return .sessions (values.map fun item =>
    { item with current := item.sessionId == claims.sessionId })

def revokeSelected (claims : AccessClaims) (session : Uuid) : Proc Result := do
  let now ← clock
  let some revoked ← SessionRepository.revokeSession ⟨claims.userId, session, "user_selected", now⟩
    | fail sessionNotFound
  applyRevocation revoked
  SessionRepository.audit "SESSION_REVOKED" "success" claims.userId
  return .nothing

end SessionControl

end AuthCore
