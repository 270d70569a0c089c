/-
Organizations, role bindings and invitations.  Reads here take no locks; an
update first looks for its rows and then locks each of them.
-/
import Mathlib.Data.List.Sort
import AuthCore.Model.SessionRepository

namespace AuthCore

open Interleave Relational

namespace WorkspaceRepository

/-- The unrevoked bindings of a workspace whose catalog entry satisfies `p`. -/
def boundEntries (org : Uuid) (p : UserRoleBinding → RolePermissionCatalog → Bool) (d : Db) :
    List (Uuid × UserRoleBinding) :=
  d.bindings.select fun _ binding =>
    binding.orgId == org && binding.revokedAt.isNone &&
      match d.catalog.get binding.catalogId with
      | none => false
      | some entry => p binding entry

/-- The distinct active roles of a user in a workspace, in order. -/
def roles (user org : Uuid) (d : Db) : List String :=
  let bound := boundEntries org (fun binding entry => binding.userId == user && entry.active) d
  (((bound.filterMap fun row => d.catalog.get row.2.catalogId).map (·.role)).dedup).insertionSort
    (· ≤ ·)

def hasPermission (user org : Uuid) (permission : String) (d : Db) : Bool :=
  !(boundEntries org (fun binding entry => binding.userId == user &&
    entry.permission == permission && entry.active) d).isEmpty

def catalogForRole (role : String) (d : Db) : List Uuid :=
  (d.catalog.select fun _ entry => entry.role == role && entry.active).map Prod.fst

/-- The number of distinct users with an active owner entry. -/
def ownerCount (org : Uuid) (d : Db) : Nat :=
  ((boundEntries org (fun _ entry => entry.role == OrganizationRole.owner.value &&
    entry.active) d).map fun row => row.2.userId).dedup.length

def unrevokedBindings (user org : Uuid) (d : Db) : List Uuid :=
  (d.bindings.select fun _ binding => binding.userId == user && binding.orgId == org &&
    binding.revokedAt.isNone).map Prod.fst

def summary (id : Uuid) (organization : Organization) (roles : List String) : WorkspaceSummary :=
  ⟨id, organization.name, organization.slug, organization.workspaceType, roles⟩

def audit (eventType : String) (actor : Uuid) (org : Option Uuid) : Trans Unit :=
  write (DbChange.addAudit ⟨some actor, none, org, eventType, "success"⟩)

/-- Insert one binding; `removed` are the bindings this transaction revoked. -/
def grant (user org grantedBy : Uuid) (removed : List Uuid) (entry : Uuid × Uuid) :
    Trans Unit := do
  reserve (.roleBinding user org entry.2) removed
  write (DbChange.addBinding entry.1 ⟨user, org, entry.2, grantedBy, none⟩)

/-- The identifiers of new rows, one for each catalog entry. -/
def named (call offset : Nat) (catalog : List Uuid) : List (Uuid × Uuid) :=
  catalog.mapIdx fun index entry => (.drawn call (offset + index), entry)

/-- The part of `create_organization` after its queries. -/
def insertOrganization (args : OrganizationArgs) (catalog : List Uuid) :
    Trans WorkspaceSummary := do
  let organization : Organization := ⟨args.name, args.slug, .organization, none, .active⟩
  write (DbChange.addOrganization args.workspaceId organization)
  Tx.each (grant args.userId args.workspaceId args.userId []) (named args.call 2 catalog)
  audit "ORGANIZATION_CREATED" args.userId (some args.workspaceId)
  return summary args.workspaceId organization ["OWNER"]

def isActive (user : Option User) : Bool :=
  match user with
  | none => false
  | some row => row.state == .active

def createOrganization (args : OrganizationArgs) : Proc WorkspaceSummary :=
  .txn
    (fun i result w => w.record i (.workspace (.organizationCreated args result.1 result.2)))
    (do
      let user ← ask (fun d => d.users.get args.userId) fun answer =>
        .workspace (.user args.userId answer)
      if ¬isActive user then
        .raise (.thrown .unhandled)
      else
      let catalog ← ask (catalogForRole OrganizationRole.owner.value) fun answer =>
        .workspace (.catalogForRole OrganizationRole.owner.value answer)
      if catalog.isEmpty then
        .raise (.thrown .unhandled)
      else
      let created ← insertOrganization args catalog
      return (catalog, created))
    fun
    | .ok result => .done result.2
    | .error _ => .raise .unhandled

/-- The two queries of `get_workspace_access`. -/
def getWorkspaceAccess (user workspace : Uuid) : Proc (Option WorkspaceSummary) := do
  let found ← look (fun d => d.organizations.get workspace) fun answer =>
    .workspace (.organization workspace answer)
  match found with
  | none => return none
  | some organization =>
      if organization.state ≠ .active then
        return none
      else if organization.workspaceType = .personal then
        if organization.personalOwnerUserId = some user then
          return some (summary workspace organization ["OWNER"])
        else
          return none
      else
        let roles ← look (roles user workspace) fun answer =>
          .workspace (.roles user workspace answer)
        if roles.isEmpty then
          return none
        else
          return some (summary workspace organization roles)

/-- The SQL function `auth.user_has_org_membership`: any unrevoked binding will do. -/
def hasOrgMembership (org user : Uuid) (d : Db) : Bool :=
  !(unrevokedBindings user org d).isEmpty

/-- By the type of a workspace, then by its name. -/
def listedBefore (a b : Uuid × Organization) : Prop :=
  a.2.workspaceType.value < b.2.workspaceType.value ∨
    a.2.workspaceType = b.2.workspaceType ∧ a.2.name ≤ b.2.name

instance : DecidableRel listedBefore := fun _ _ =>
  inferInstanceAs (Decidable (_ ∨ _))

def workspacesOf (user : Uuid) (d : Db) : List (Uuid × Organization) :=
  (d.organizations.select fun id row => row.state == .active &&
    (row.personalOwnerUserId == some user || hasOrgMembership id user d)).insertionSort
      listedBefore

/-- The roles that `list_workspaces` shows. -/
def listedRoles (user id : Uuid) (organization : Organization) : Proc (List String) :=
  if organization.workspaceType = .personal then
    return ["OWNER"]
  else
    look (roles user id) fun answer => .workspace (.roles user id answer)

def summaries (user : Uuid) : List (Uuid × Organization) → Proc (List WorkspaceSummary)
  | [] => return []
  | (id, organization) :: rest => do
      let held ← listedRoles user id organization
      let others ← summaries user rest
      return summary id organization held :: others

def listWorkspaces (user : Uuid) : Proc (List WorkspaceSummary) := do
  let found ← look (workspacesOf user) fun found =>
    .workspace (.workspacesFound user (found.map Prod.fst))
  summaries user found

/-- Revoke an invitation that is still pending. -/
def revokeInvitation (condition : Invitation → Bool) (id : Uuid) : Trans Unit := do
  let invitation ← lockRow (.invitation id)
  match (show Option Invitation from invitation) with
  | none => return ()
  | some row =>
      if condition row && row.state == .pending then
        write (DbChange.setInvitation id fun row => { row with state := .revoked })
      else
        return ()

/-- The part of `create_organization_invitation` after its queries. -/
def insertInvitation (args : InviteArgs) (pending : List Uuid) :
    Trans (Option InvitationRecord) := do
  Tx.each (revokeInvitation fun row => row.orgId == args.workspace &&
    row.inviteeEmail == args.email) pending
  write (DbChange.addInvitation args.invitationId
    ⟨args.workspace, args.email, args.tokenHash, [args.role.value], args.actor, .pending,
      args.expiresAt, none⟩)
  audit "ORGANIZATION_INVITATION_CREATED" args.actor (some args.workspace)
  return some ⟨args.invitationId, args.workspace, args.email, args.role, args.expiresAt⟩

def rolesOf (org : Uuid) : Option Uuid → Trans (List String)
  | none => return []
  | some user => ask (roles user org) fun answer => .workspace (.roles user org answer)

def isOrganization (organization : Option Organization) : Bool :=
  match organization with
  | none => false
  | some row => row.workspaceType == .organization

def createOrganizationInvitation (args : InviteArgs) : Proc (Option InvitationRecord) :=
  .txn (fun i result w => w.record i (.workspace (.invited args result.1 result.2)))
    (do
      let organization ← ask (fun d => d.organizations.get args.workspace) fun answer =>
        .workspace (.organization args.workspace answer)
      if ¬isOrganization organization then
        return ([], none)
      else
      let allowed ← ask (hasPermission args.actor args.workspace "members.manage") fun answer =>
        .workspace (.permission args.actor args.workspace "members.manage" answer)
      if ¬allowed then
        return ([], none)
      else
      let existing ← ask
        (fun d => ((d.users.select fun _ user => user.email == some args.email &&
          user.anonymizedAt.isNone).map Prod.fst).head?)
        fun answer => .workspace (.userWithEmail args.email answer)
      let existingRoles ← rolesOf args.workspace existing
      if ¬existingRoles.isEmpty then
        return ([], none)
      else
      let pending ← ask
        (fun d => (d.invitations.select fun _ row => row.orgId == args.workspace &&
          row.inviteeEmail == args.email && row.state == .pending).map Prod.fst)
        fun found => .workspace (.pendingInvitations args.workspace args.email found)
      let created ← insertInvitation args pending
      return (pending, created))
    fun
    | .ok result => .done result.2
    | .error _ => .raise .unhandled

def revokeOrganizationInvitation (args : InviteArgs) : Proc Unit :=
  transact (fun _ => .workspace (.invitationRevoked args))
    (revokeInvitation (fun row => row.orgId == args.workspace &&
      row.issuedByUserId == args.actor) args.invitationId)

/-- The invitation and role that a user can accept, as locked. -/
def acceptable (normalizeEmail : String → String) (args : AcceptArgs)
    (invitation : Option Invitation) (user : Option User) :
    Option (Invitation × OrganizationRole) :=
  match invitation, user with
  | some row, some user =>
      match user.email with
      | none => none
      | some email =>
          if user.state ≠ .active || row.state ≠ .pending || row.expiresAt ≤ args.now ||
              normalizeEmail email ≠ normalizeEmail row.inviteeEmail then
            none
          else
            match row.proposedRoles.head? with
            | some "MEMBER" => some (row, .member)
            | some "VIEWER" => some (row, .viewer)
            | _ => none
  | _, _ => none

/-- The writes of an acceptance. -/
def join (args : AcceptArgs) (admission : Admission) : Trans Unit := do
  let row := admission.invitation
  Tx.each (grant args.userId row.orgId row.issuedByUserId []) (named args.call 0 admission.catalog)
  write (DbChange.setInvitation admission.invitationId fun row =>
    { row with state := .accepted, acceptedAt := some args.now })

def acceptOrganizationInvitation (normalizeEmail : String → String) (args : AcceptArgs) :
    Proc (Option WorkspaceSummary) :=
  .txn (fun i result w => w.record i (.workspace (.accepted args result.1 result.2)))
    (do
      let found ← ask
        (fun d => ((d.invitations.select fun _ row => row.tokenHash == args.tokenHash &&
          row.state == .pending && decide (args.now < row.expiresAt)).map
            fun row => (row.1, row.2.orgId)).head?)
        fun found => .workspace (.invitationWithHash args.tokenHash args.now found)
      match found with
      | none => return (none, none)
      | some (id, _) =>
          let invitation ← lockRow (.invitation id)
          let user ← ask (fun d => d.users.get args.userId) fun answer =>
            .workspace (.user args.userId answer)
          match acceptable normalizeEmail args invitation user with
          | none => return (none, none)
          | some (row, role) =>
              let held ← ask (roles args.userId row.orgId) fun answer =>
                .workspace (.roles args.userId row.orgId answer)
              if ¬held.isEmpty then
                return (none, none)
              else
              let catalog ← ask (catalogForRole role.value) fun answer =>
                .workspace (.catalogForRole role.value answer)
              if catalog.isEmpty then
                return (none, none)
              else
              join args ⟨id, row, catalog⟩
              let organization ← ask (fun d => d.organizations.get row.orgId) fun answer =>
                .workspace (.organization row.orgId answer)
              match organization with
              | none => return (some ⟨id, row, catalog⟩, none)
              | some organization =>
                  audit "ORGANIZATION_INVITATION_ACCEPTED" args.userId (some row.orgId)
                  return (some ⟨id, row, catalog⟩,
                    some (summary row.orgId organization [role.value])))
    fun
    | .ok result => .done result.2
    | .error _ => .raise .unhandled

/-- Revoke one binding that is still unrevoked once it is locked. -/
def revokeBinding (user org : Uuid) (now : Time) (id : Uuid) : Trans (Option Uuid) := do
  let binding ← lockRow (.binding id)
  match (show Option UserRoleBinding from binding) with
  | none => return none
  | some row =>
      if row.userId == user && row.orgId == org && row.revokedAt.isNone then
        write (DbChange.revokeBinding id row now)
        return some id
      else
        return none

/-- The writes of a role replacement. -/
def swapRole (args : MemberArgs) (change : RoleChange) : Trans Unit := do
  let removed ← Tx.collect (revokeBinding args.member args.workspace args.now) change.found
  Tx.each (grant args.member args.workspace args.actor removed) (named args.call 0 change.catalog)

/-- The guard of the last owner, before an owner is removed. -/
def guardLastOwner (org : Uuid) (removesOwner : Bool) : Trans Unit :=
  if removesOwner then do
    let owners ← ask (ownerCount org) fun answer => .workspace (.ownerCount org answer)
    if owners ≤ 1 then
      .raise (.thrown .lastOwner)
    else
      return ()
  else
    return ()

def replaceMemberRole (args : MemberArgs) (role : OrganizationRole) :
    Proc (Except (Fault AuthError) (Option RoleChange × Option MemberSummary)) :=
  .txn (fun i result w => w.record i (.workspace (.replaced args role result.1 result.2)))
    (do
      let allowed ← ask (hasPermission args.actor args.workspace "members.manage") fun answer =>
        .workspace (.permission args.actor args.workspace "members.manage" answer)
      if ¬allowed then
        return (none, none)
      else
      let current ← ask (roles args.member args.workspace) fun answer =>
        .workspace (.roles args.member args.workspace answer)
      if current.isEmpty then
        return (none, none)
      else
      guardLastOwner args.workspace (current.contains "OWNER" && role != .owner)
      let catalog ← ask (catalogForRole role.value) fun answer =>
        .workspace (.catalogForRole role.value answer)
      if catalog.isEmpty then
        return (none, none)
      else
      let found ← ask (unrevokedBindings args.member args.workspace) fun found =>
        .workspace (.bindingsFound args.member args.workspace found)
      swapRole args ⟨found, catalog⟩
      let user ← ask (fun d => d.users.get args.member) fun answer =>
        .workspace (.user args.member answer)
      match user with
      | none => return (some ⟨found, catalog⟩, none)
      | some user =>
          audit "ORGANIZATION_MEMBER_ROLE_REPLACED" args.actor (some args.workspace)
          return (some ⟨found, catalog⟩,
            some ⟨args.member, user.email, user.givenName, user.familyName, [role]⟩))
    .done

/-- The sessions of a user that are scoped to a workspace. -/
def scopedSessions (user org : Uuid) (d : Db) : List Uuid :=
  (d.sessions.select fun _ session => session.userId == user && session.orgId == some org &&
    session.revokedAt.isNone).map Prod.fst

/-- Lock a scoped session and keep its current token identifier. -/
def lockScoped (args : MemberArgs) (id : Uuid) : Trans (Option (Uuid × Uuid)) := do
  let session ← lockRow (.session id)
  match (show Option Session from session) with
  | none => return none
  | some row =>
      if row.userId == args.member && row.orgId == some args.workspace &&
          row.revokedAt.isNone then
        return some (id, row.accessJti)
      else
        return none

/-- Take a session out of the workspace under a new token identifier. -/
def unscope (args : MemberArgs) (entry : (Uuid × Uuid) × Uuid) : Trans Unit :=
  write (DbChange.setSession entry.1.1
    (fun session => { session with
      orgId := none, accessJti := entry.2, lastActivityAt := args.now }) fun _ => rfl)

/-- The locked sessions with the identifiers drawn for them. -/
def renamed (call : Nat) (rows : List (Uuid × Uuid)) : List ((Uuid × Uuid) × Uuid) :=
  rows.mapIdx fun index row => (row, .drawn call index)

def unscopeAll (args : MemberArgs) (sessions : List Uuid) : Trans (List Uuid) := do
  let rows ← Tx.collect (lockScoped args) sessions
  Tx.each (unscope args) (renamed args.call rows)
  return rows.map Prod.snd

def offboardMember (args : MemberArgs) :
    Proc (Except (Fault AuthError) (Option Departure × Option OffboardResult)) :=
  .txn (fun i result w => w.record i (.workspace (.offboarded args result.1 result.2)))
    (do
      let allowed ← ask (hasPermission args.actor args.workspace "members.manage") fun answer =>
        .workspace (.permission args.actor args.workspace "members.manage" answer)
      if ¬allowed then
        return (none, none)
      else
      let current ← ask (roles args.member args.workspace) fun answer =>
        .workspace (.roles args.member args.workspace answer)
      if current.isEmpty then
        return (none, none)
      else
      guardLastOwner args.workspace (current.contains "OWNER")
      let found ← ask (unrevokedBindings args.member args.workspace) fun found =>
        .workspace (.bindingsFound args.member args.workspace found)
      let _ ← Tx.collect (revokeBinding args.member args.workspace args.now) found
      let sessions ← ask (scopedSessions args.member args.workspace) fun found =>
        .workspace (.sessionsFound args.member args.workspace found)
      let jtis ← unscopeAll args sessions
      audit "ORGANIZATION_MEMBER_OFFBOARDED" args.actor (some args.workspace)
      return (some ⟨found, sessions⟩, some ⟨args.member, jtis⟩))
    .done

end WorkspaceRepository

end AuthCore
