/-
Organizations and their members: creation, invitations, role changes,
offboarding and the switch of a session into a workspace.
-/
import AuthCore.Model.SessionControl
import AuthCore.Model.WorkspaceRepository

namespace AuthCore

open Interleave

namespace WorkspaceControl

variable (env : Env) (me : Nat)

def organizationInvitationLimitPerDay : Nat := 50
def invitationLifetime : Time := seconds (7 * 86400)

def forbidden : AuthError :=
  .workspace .forbidden "You do not have permission to perform this workspace operation." 403

def lastOwner : AuthError :=
  .workspace .lastOwner "Transfer ownership before removing or changing the last owner." 409

def invalidName : AuthError :=
  .workspace .invalid "Enter a valid organization name." 400

def invalidRole : AuthError :=
  .workspace .invalid "Select an approved invitation role." 400

def rateLimited : AuthError :=
  .workspace .rateLimited "The daily organization invitation limit has been reached." 429

def undelivered : AuthError :=
  .workspace .providerUnavailable
    "The organization invitation could not be delivered. Please try again." 503

def invitationInvalid : AuthError :=
  .workspace .invitationInvalid
    "This invitation is invalid, expired, or cannot be accepted by this account." 400

def createOrganization (user : Uuid) (name : String) : Proc Result := do
  let normalizedName := env.normalizeName name
  if normalizedName.length < 2 then
    fail invalidName
  else
  let created ← WorkspaceRepository.createOrganization
    ⟨user, normalizedName, env.slug normalizedName (.drawn me 0), .drawn me 1, me⟩
  return .workspace created

def inviteOrganizationMember (actor workspace : Uuid) (email : String)
    (role : OrganizationRole) : Proc Result := do
  if role = .owner then
    fail invalidRole
  else
  let some access ← WorkspaceRepository.getWorkspaceAccess actor workspace | fail forbidden
  if ¬access.roles.contains "OWNER" then
    fail forbidden
  else
  let normalizedEmail := env.normalizeEmail email
  let count ← Redis.incrementRateLimit "organization_invite" (.member actor workspace) 86400
  if organizationInvitationLimitPerDay < count then
    fail rateLimited
  else
  let now ← clock
  let args : InviteArgs := ⟨actor, workspace, normalizedEmail, role,
    env.tokenHash (.drawn me 0), now + invitationLifetime, .drawn me 1⟩
  let some invitation ← WorkspaceRepository.createOrganizationInvitation args | fail forbidden
  let delivered ← send normalizedEmail
  if ¬delivered then
    WorkspaceRepository.revokeOrganizationInvitation args
    fail undelivered
  else
  return .invitation invitation

def acceptOrganizationInvitation (user : Uuid) (token : Token) : Proc Result := do
  let now ← clock
  let some workspace ← WorkspaceRepository.acceptOrganizationInvitation env.normalizeEmail
    ⟨user, env.tokenHash token, now, me⟩ | fail invitationInvalid
  SessionControl.restoreOrganizationAccess user workspace.workspaceId
  return .workspace workspace

/-- The last-owner error of the repository becomes an error of the boundary. -/
def repositoryError : Fault AuthError → AuthError
  | .thrown .lastOwner => lastOwner
  | _ => .unhandled

def replaceMemberRole (actor workspace member : Uuid) (role : OrganizationRole) :
    Proc Result := do
  let now ← clock
  let outcome ← WorkspaceRepository.replaceMemberRole ⟨actor, workspace, member, now, me⟩ role
  match outcome with
  | .error fault => fail (repositoryError fault)
  | .ok (_, none) => fail forbidden
  | .ok (_, some summary) => return .member summary

def offboardMember (actor workspace member : Uuid) : Proc Result := do
  let now ← clock
  let outcome ← WorkspaceRepository.offboardMember ⟨actor, workspace, member, now, me⟩
  match outcome with
  | .error fault => fail (repositoryError fault)
  | .ok (_, none) => fail forbidden
  | .ok (_, some result) => do
      SessionControl.revokeOrganizationAccess result.userId workspace result.revokedAccessJtis
      return .nothing

/-- The boundary authenticates the bearer token and passes its claims on. -/
def switchWorkspace (accessToken : AccessClaims) (workspace : Uuid) : Proc Result := do
  let claims ← SessionControl.authenticate accessToken
  let some access ← WorkspaceRepository.getWorkspaceAccess claims.userId workspace
    | fail forbidden
  let (token, expiresAt) ← SessionControl.issueWorkspaceScope me claims access
  return .scope token expiresAt access

end WorkspaceControl

end AuthCore
