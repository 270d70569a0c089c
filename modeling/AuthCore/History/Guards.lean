/-
What a call has recorded before it records an event.  A call runs through its
program in order, so the events before a commit, a signature or a new token are
known, latest first.
-/
import AuthCore.History.Effects

namespace AuthCore

open Interleave SessionControl

namespace Event

/-- The events that create a live token, a session or a link. -/
def produces : Event → Bool
  | put (.loginWorkflow _) _ _ => true
  | put (.mfaChallenge _) _ _ => true
  | put (.webauthnChallenge _) (.register ..) _ => true
  | put (.webauthnChallenge _) (.authenticate _ workflow) _ => workflow.isSome
  | session (.created ..) => true
  | mfa (.linked ..) => true
  | _ => false

/-- The events that take a live token out of the store. -/
def consumes : Event → Bool
  | taken (.loginWorkflow _) value => value.isSome
  | taken (.mfaChallenge _) value => value.isSome
  | taken (.webauthnChallenge _) value => value.isSome
  | _ => false

/-- The access-token identifiers that a commit replaces. -/
def displaces : Event → List Uuid
  | session (.rotated _ _ result) =>
      if result.status = .rotated then (result.revoked.map (·.accessJti)).toList else []
  | session (.scoped _ _ previous) => previous.toList
  | workspace (.offboarded _ _ result) => (result.map (·.revokedAccessJtis)).getD []
  | _ => []

/-- The factor that an event inserts. -/
def newFactor : Event → Option Uuid
  | mfa (.pendingTotpCreated _ _ _ id _ _) => some id
  | mfa (.backupStored _ _ id _ _) => some id
  | mfa (.passkeyCreated _ _ _ _ _ id _) => some id
  | _ => none

def revokesAccess (jti : Uuid) : Event :=
  .put (.accessRevocation jti) () accessTtlSeconds

def revokesFamily (family : Uuid) : Event :=
  .put (.familyRevocation family) () refreshFamilySeconds

end Event

/-- Every replaced access token has been revoked in the store. -/
def Settled (t : List Event) : Prop :=
  ∀ e ∈ t, ∀ jti ∈ e.displaces, Event.revokesAccess jti ∈ t

def Fresh (t : List Event) : Prop :=
  ∀ e ∈ t, e.produces = false

def Unspent (t : List Event) : Prop :=
  ∀ e ∈ t, e.consumes = false

theorem Fresh.of_all {t : List Event} (h : t.all (fun e => !e.produces) = true) : Fresh t := by
  intro e he
  simpa using List.all_eq_true.mp h e he

theorem Fresh.append {s t : List Event} (hs : Fresh s) (ht : Fresh t) :
    Fresh (s ++ t) := by
  intro e he
  rcases List.mem_append.mp he with hnew | hold
  · exact hs e hnew
  · exact ht e hold

theorem Unspent.of_all {t : List Event} (h : t.all (fun e => !e.consumes) = true) :
    Unspent t := by
  intro e he
  simpa using List.all_eq_true.mp h e he

/-- The record of revoking a list of sessions in the store. -/
def revocations (values : List RevocationResult) : List Event :=
  (values.flatMap fun value =>
    [Event.revokesAccess value.accessJti, Event.revokesFamily value.familyId]).reverse

section Sessions

variable (env : Env) (i : Nat)

inductive Creates : List Event → CreateArgs → List SessionMatch → Prop
  | intro {token : Token} {client : ClientType} {fingerprint : String} {ip : Option String}
      {workflow : Workflow} {now stored : Time} {found : List SessionMatch} :
      workflow.decision = .sessionReady →
      Creates
        [.session (.capCandidates workflow.userId stored found), .clock stored, .clock now,
          .session (.userIsActive workflow.userId true),
          .taken (.loginWorkflow token) (some workflow),
          .called (.createSession token client fingerprint ip)]
        (createArgs env i workflow.userId client fingerprint ip now stored) found

inductive Rotates : List Event → RotateArgs → Option TokenMatch → Prop
  | intro {token : Token} {client : ClientType} {fingerprint : String} {now : Time}
      {found : Option TokenMatch} :
      Rotates
        [.session (.presented (env.tokenHash token) found), .clock now,
          .called (.refresh token client fingerprint)]
        (rotateArgs env i token client fingerprint now) found

inductive RevokesAll : List Event → RevokeAllArgs → List SessionMatch → Prop
  | intro {args : RevokeAllArgs} {found : List SessionMatch} {rest : List Event} :
      RevokesAll (.session (.activeSessions args.userId found) :: .clock args.now :: rest)
        args found

/-- The cut-off read by an authentication, if its token is scoped. -/
def cutoffRead (claims : AccessClaims) (cutoff : Option Time) : List Event :=
  match claims.workspaceId with
  | some workspace =>
      if claims.workspaceType = some .organization then
        [.got (.organizationRevocation claims.userId workspace) cutoff]
      else
        []
  | none => []

/-- An authentication that accepted the token. -/
inductive Passed (claims : AccessClaims) (base : List Event) : List Event → Prop
  | intro {now : Time} {revokedAt cutoff : Option Time} :
      issuedBefore claims cutoff = false →
      Passed claims base
        (.session (.sessionIsActive claims.sessionId now true) ::
          (cutoffRead claims cutoff ++
            .got (.userRevocation claims.userId) revokedAt ::
            .got (.familyRevocation claims.familyId) none ::
            .got (.accessRevocation claims.jti) none ::
            .verified claims true :: .clock now :: base))

/-- An authentication that found the token, its family or its session revoked, or an
organization left. -/
inductive Withdrawn (claims : AccessClaims) (t : List Event) : Prop
  | token : .got (.accessRevocation claims.jti) (some ()) ∈ t → Withdrawn claims t
  | family : .got (.familyRevocation claims.familyId) (some ()) ∈ t → Withdrawn claims t
  | organization {workspace : Uuid} {cutoff : Time} :
      .got (.organizationRevocation claims.userId workspace) (some cutoff) ∈ t →
      claims.issuedAt ≤ cutoff → Withdrawn claims t
  | session {now : Time} :
      .session (.sessionIsActive claims.sessionId now false) ∈ t → Withdrawn claims t

/-- An authentication that refused the token. -/
def Rejected (claims : AccessClaims) (t : List Event) : Prop :=
  .verified claims false ∈ t ∨ Withdrawn claims t ∨ ∃ revokedAt,
    .got (.userRevocation claims.userId) (some revokedAt) ∈ t ∧ claims.issuedAt ≤ revokedAt

/-- The queries that gave a user access to a workspace. -/
inductive Accessed (user id : Uuid) : List Event → WorkspaceSummary → Prop
  | personal {organization : Organization} :
      organization.workspaceType = .personal →
      Accessed user id [.workspace (.organization id (some organization))]
        (WorkspaceRepository.summary id organization ["OWNER"])
  | member {organization : Organization} {roles : List String} :
      organization.workspaceType = .organization → roles ≠ [] →
      Accessed user id
        [.workspace (.roles user id roles), .workspace (.organization id (some organization))]
        (WorkspaceRepository.summary id organization roles)

inductive Scopes (claims : AccessClaims) (workspace : WorkspaceSummary) :
    List Event → ScopeArgs → Option SessionMatch → Prop
  | intro {id : Uuid} {access auth : List Event} {now : Time} {found : Option SessionMatch} :
      Passed claims [.called (.switchWorkspace claims id)] auth →
      Accessed claims.userId id access workspace →
      Scopes claims workspace
        (.session (.scopeFound (scopeArgs i claims workspace now) found) :: .clock now ::
          (access ++ auth))
        (scopeArgs i claims workspace now) found

/-- The record of a rotation in the store. -/
def rotationMarks (result : RotationResult) : List Event :=
  match result.revoked with
  | none => []
  | some revoked =>
      if result.status = .rotated then [Event.revokesAccess revoked.accessJti]
      else [Event.revokesFamily revoked.familyId, Event.revokesAccess revoked.accessJti]

inductive Signs : List Event → AccessClaims → Prop
  | created {token : Token} {workflow : Workflow} {args : CreateArgs} {found : List SessionMatch}
      {result : CreatedSession} {now : Time} {t : List Event} :
      .taken (.loginWorkflow token) (some workflow) ∈ t → .clock now ∈ t →
      Signs (.session (.created args found result) :: t)
        (accessClaims args.userId result.record.sessionId result.record.familyId args.accessJti
          args.clientType (SessionControl.assurance workflow) now none)
  | rotated {args : RotateArgs} {found : Option TokenMatch} {result : RotationResult}
      {record : SessionRecord} {t : List Event} :
      result.status = .rotated → result.record = some record →
      Signs
        (rotationMarks result ++ .session (.rotated args found result) :: t)
        (accessClaims record.userId record.sessionId record.familyId args.newAccessJti
          args.clientType ["refresh_token"] args.now none)
  | scoped {claims : AccessClaims} {workspace : WorkspaceSummary} {args : ScopeArgs}
      {found : Option SessionMatch} {previous : Uuid} {t : List Event} :
      Scopes i claims workspace t args found →
      Signs
        (Event.revokesAccess previous :: .session (.scoped args found (some previous)) :: t)
        (scopedClaims i claims workspace args.now)

end Sessions

section Workspaces

variable (env : Env) (i : Nat)

inductive Founds : List Event → OrganizationArgs → List Uuid → Prop
  | intro {user : Uuid} {name : String} {owner : Option User} {catalog : List Uuid} :
      catalog ≠ [] →
      Founds
        [.workspace (.catalogForRole OrganizationRole.owner.value catalog),
          .workspace (.user user owner), .called (.createOrganization user name)]
        ⟨user, env.normalizeName name, env.slug (env.normalizeName name) (.drawn i 0),
          .drawn i 1, i⟩
        catalog

inductive Accepts : List Event → AcceptArgs → Admission → Prop
  | intro {user : Uuid} {token : Token} {now : Time} {found : Option (Uuid × Uuid)} {id : Uuid}
      {row : Invitation} {role : OrganizationRole} {catalog : List Uuid}
      {organization : Option Organization} {owner : Option User} :
      role ≠ .owner → catalog ≠ [] →
      Accepts
        [.workspace (.organization row.orgId organization),
          .workspace (.catalogForRole role.value catalog),
          .workspace (.roles user row.orgId []), .workspace (.user user owner),
          .workspace (.invitationWithHash (env.tokenHash token) now found), .clock now,
          .called (.acceptOrganizationInvitation user token)]
        ⟨user, env.tokenHash token, now, i⟩ ⟨id, row, catalog⟩

/-- The guard of the last owner, when it applies. -/
inductive OwnerGuard (org : Uuid) : Bool → List Event → Prop
  | skipped : OwnerGuard org false []
  | passed {owners : Nat} : 1 < owners →
      OwnerGuard org true [.workspace (.ownerCount org owners)]

/-- The queries with which a change of a member begins. -/
def memberQueries (actor org member : Uuid) (now : Time) (current : List String)
    (guard : List Event) (call : Call) : List Event :=
  guard ++ [.workspace (.roles member org current),
    .workspace (.permission actor org "members.manage" true), .clock now, .called call]

inductive Replaces : List Event → MemberArgs → OrganizationRole → RoleChange → Prop
  | intro {actor org member : Uuid} {role : OrganizationRole} {now : Time}
      {current : List String} {guard : List Event} {catalog found : List Uuid}
      {user : Option User} :
      current ≠ [] → catalog ≠ [] →
      OwnerGuard org (current.contains "OWNER" && role != .owner) guard →
      Replaces
        (.workspace (.user member user) :: .workspace (.bindingsFound member org found) ::
          .workspace (.catalogForRole role.value catalog) ::
          memberQueries actor org member now current guard
            (.replaceMemberRole actor org member role))
        ⟨actor, org, member, now, i⟩ role ⟨found, catalog⟩

inductive Offboards : List Event → MemberArgs → Departure → Prop
  | intro {actor org member : Uuid} {now : Time} {current : List String} {guard : List Event}
      {found sessions : List Uuid} :
      current ≠ [] → OwnerGuard org (current.contains "OWNER") guard →
      Offboards
        (.workspace (.sessionsFound member org sessions) ::
          .workspace (.bindingsFound member org found) ::
          memberQueries actor org member now current guard (.offboardMember actor org member))
        ⟨actor, org, member, now, i⟩ ⟨found, sessions⟩

/-- What an erasure found, statement by statement, latest first. -/
def eraseFinds (user : Uuid) (found : ErasureFound) : List Event :=
  [.account (.found user "organizations" found.organizations),
    .account (.found user "invitations" found.invitations),
    .account (.found user "refresh_token_families" found.families),
    .account (.found user "identities" found.identities),
    .account (.found user "user_role_bindings" found.bindings),
    .account (.found user "trusted_devices" found.devices),
    .account (.factorsFound user found.factors),
    .account (.found user "ephemeral_tokens" found.requests.mailed),
    .account (.found user "contact_change_requests" found.requests.contactChanges),
    .account (.found user "gdpr_requests" found.requests.exports),
    .account (.found user "privacy_export_artifacts" found.requests.artifacts)]

/-- An erasure went ahead after counting the other owners of every owned
organization. -/
inductive Erases (args : ErasureArgs) (found : ErasureFound) : List Event → Prop
  | intro {owned : List Uuid} {others rest : List Event} :
      (∀ org ∈ owned, ∃ n, n ≠ 0 ∧ .account (.otherOwners args.userId org n) ∈ others) →
      Erases args found
        (eraseFinds args.userId found ++
          (others ++ .account (.ownedOrganizations args.userId owned) :: rest))

/-- The cut-off an offboarding writes. -/
inductive CutsOff : List Event → Uuid → Uuid → Time → Prop
  | intro {args : MemberArgs} {departure : Option Departure} {jtis : List Uuid} {now : Time}
      {rest : List Event} :
      CutsOff
        (.clock now ::
          .workspace (.offboarded args departure (some ⟨args.member, jtis⟩)) :: rest)
        args.member args.workspace (wholeSecond now)

/-- The acceptance that restores access. -/
inductive Restores : List Event → Uuid → Uuid → Prop
  | intro {args : AcceptArgs} {admission : Admission} {summary : WorkspaceSummary}
      {rest : List Event} :
      Restores (.workspace (.accepted args (some admission) (some summary)) :: rest)
        args.userId admission.invitation.orgId

end Workspaces

section Recovery

open RecoveryRepository SupportAdminControl

variable (env : Env) (i : Nat)

/-- The beginning of a call of staff. -/
def authorized (claims : AccessClaims) (role : StaffRole) (call : Call) : List Event :=
  [.account (.staffRole claims.userId role true), .called call]

inductive Initiates : List Event → InitiateArgs → Option User → Prop
  | intro {claims : AccessClaims} {target : Uuid} {ticket : String} {now : Time}
      {user : Option User} :
      Initiates
        (.recovery (.target target user) :: .clock now ::
          authorized claims .supportAgentL2 (.initiateMfaReset claims target ticket))
        ⟨claims.userId, target, ticket, now + governedDelay, .drawn i 0⟩ user

inductive Approves : List Event → GovernedArgs → Prop
  | intro {claims : AccessClaims} {request target : Uuid} {now : Time} {user : Option User} :
      Approves
        (.recovery (.target target user) :: .clock now ::
          authorized claims .securitySupervisorL3 (.approveMfaReset claims request))
        ⟨claims.userId, request, now⟩

inductive Executes : List Event → GovernedArgs → Prop
  | intro {claims : AccessClaims} {request target : Uuid} {now : Time} {found : List Uuid} :
      Executes
        (.recovery (.factorsFound target found) :: .clock now ::
          authorized claims .securitySupervisorL3 (.executeMfaReset claims request))
        ⟨claims.userId, request, now⟩

/-- A token that a call mails is one that it drew. -/
inductive Mails : List Event → MailArgs → List Uuid → Prop
  | verification {rest : List Event} {args : MailArgs} {found : List Uuid}
      (hrest : ∀ args' found', .recovery (.mailed args' found') ∉ rest)
      (hhash : args.tokenHash = env.verificationHash (.drawn i 5))
      (hid : args.tokenId = .drawn i 4) (hpurpose : args.purpose = .emailVerify)
      (hpurposes : args.purposes = [.emailVerify]) :
      Mails (.recovery (.unusedFound args.userId args.purposes found) :: rest) args found
  | link {rest : List Event} {args : MailArgs} {found : List Uuid}
      (hrest : ∀ args' found', .recovery (.mailed args' found') ∉ rest)
      (hhash : args.tokenHash = env.resetHash (.drawn i 0)) (hid : args.tokenId = .drawn i 1)
      (hpurpose : args.purpose ∈ RecoveryRepository.resetPurposes)
      (hpurposes : args.purposes = RecoveryRepository.resetPurposes) :
      Mails (.recovery (.unusedFound args.userId args.purposes found) :: rest) args found

inductive Resets : List Event → ResetArgs → Option Uuid → Prop
  | intro {token : Token} {password : String} {now started : Time} {found : Option Uuid} :
      Resets
        [.recovery (.mailedFound (env.resetHash token) found), .clock started, .clock now,
          .recovery (.breached (some false)), .called (.resetPassword token password)]
        ⟨env.resetHash token, password, env.passwordHash password (.drawn i 0), now, started,
          .drawn i 1⟩ found

inductive Proves : List Event → ProofArgs → Prop
  | intro {claims : AccessClaims} {request : Uuid} {proof : ContactProof} {code : String}
      {now : Time} :
      Proves [.clock now, .called (.verifyContactChange claims request proof code)]
        ⟨claims.userId, request, proof, env.otpHash code, now⟩

end Recovery

section Logins

variable (env : Env) (i : Nat)

/-- The password that a login presents has been checked against the stored
hash of the user. -/
def PasswordChecked (call : Call) (user : Uuid) (t : List Event) : Prop :=
  ∀ email password fingerprint ip, call = .loginPassword email password fingerprint ip →
    ∃ row : LoginIdentity, .login (.identity .password (env.normalizeEmail email) (some row)) ∈ t ∧
      row.userId = user ∧
      env.passwordVerify (row.passwordHash.getD env.dummyPasswordHash) password = true

/-- The new hash of a password that has been checked. -/
inductive Rehashes : List Event → Uuid → String → Option Uuid → Prop
  | intro {email password fingerprint : String} {ip : Option String} {row : LoginIdentity}
      {checks : List Event} {found : Option Uuid} :
      env.passwordVerify (row.passwordHash.getD env.dummyPasswordHash) password = true →
      Rehashes
        (.login (.passwordIdentity row.userId found) ::
          .removed (.rateLimit "login_password" (.text (env.normalizeEmail email))) ::
          .login (.identity .password (env.normalizeEmail email) (some row)) ::
          (checks ++ [.called (.loginPassword email password fingerprint ip)]))
        row.userId (env.passwordHash password (.drawn i 2)) found

/-- The fingerprint and address that a primary login presents. -/
def Call.presents : Call → Option (String × Option String)
  | .loginPassword _ _ fingerprint ip => some (fingerprint, ip)
  | .loginPhone _ _ fingerprint ip => some (fingerprint, ip)
  | .loginOidc _ _ _ fingerprint ip => some (fingerprint, ip)
  | _ => none

/-- A primary authentication: the decision on the device signals, or the
collision of a social account with an existing one. -/
inductive Primary : List Event → Workflow → Prop
  | decided {user : Uuid} {fingerprint method : String} {ip : Option String} {now : Time}
      {found : Option Uuid} {signals : DeviceSignals} {identities : List (Uuid × Identity)}
      {factors : List (Uuid × MFADevice)} {methods : List String} {call : Call}
      {rest : List Event} :
      call.presents = some (fingerprint, ip) → .called call ∈ rest →
      PasswordChecked env call user rest → ¬SupportAdminControl.strongMethods.contains method →
      Fresh rest → Unspent rest →
      Primary
        (.mfa (.activeFactors user factors) ::
          .login (.verifiedIdentities user identities) ::
          .login (.signalled ⟨user, env.signalHash fingerprint, ip, now, .drawn i 1⟩ found
            signals) :: rest)
        ⟨user, LoginControl.decisionFor (LoginControl.riskLevel (LoginControl.riskScore signals)),
          some (LoginControl.riskLevel (LoginControl.riskScore signals)), methods, some method,
          none, none, none⟩
  | collision {email : String} {row : LoginIdentity} {identities : List (Uuid × Identity)}
      {factors : List (Uuid × MFADevice)} {methods : List String}
      {provider : IdentityProvider} {subject : String} {call : Call} {rest : List Event} :
      .called call ∈ rest → PasswordChecked env call row.userId rest →
      LoginControl.isOidc provider = true → Fresh rest → Unspent rest →
      Primary
        (.mfa (.activeFactors row.userId factors) ::
          .login (.verifiedIdentities row.userId identities) ::
          .login (.activeUserByEmail email (some row)) :: rest)
        ⟨row.userId, .collisionProofRequired, some .high, methods, some "oidc_collision",
          some (provider, subject), none, none⟩

/-- The events of a new set of recovery codes, if the user had none. -/
inductive Codes (user : Uuid) : List Event → Prop
  | kept {factors : List (Uuid × MFADevice)} : Codes user [.mfa (.activeFactors user factors)]
  | stored {factors : List (Uuid × MFADevice)} {now : Time} {found : Option Uuid}
      {hashes : List Digest} {id : Uuid} :
      Codes user
        [.mfa (.backupStored user hashes id now found), .mfa (.backupFactor user found),
          .clock now, .mfa (.activeFactors user factors)]

/-- The workflow a passkey starts when it is used without one. -/
def passkeyWorkflow (user : Uuid) : Workflow :=
  ⟨user, .passkeyPrimary, none, [], none, none, none, none⟩

/-- A completed security check of `user` on the consumed `workflow`. -/
inductive Checked : List Event → Uuid → Workflow → String → Prop
  | otp {token : Token} {code : String} {payload consumed : Challenge} :
      payload.purpose = .verify → payload.method = .emailOtp ∨ payload.method = .smsOtp →
      Checked
        [.taken (.mfaChallenge token) (some consumed),
          .otpTried payload.userId (.mfa token) (env.otpHash code) MFAControl.otpMaxAttempts 1,
          .got (.mfaChallenge token) (some payload), .called (.verifyChallenge token code)]
        payload.userId consumed.workflow payload.method.value
  | totp {token : Token} {code : String} {payload consumed : Challenge} {id : Uuid}
      {row : MFADevice} {step : Nat} {now : Time} {secret : String} :
      payload.purpose = .verify → payload.method = .totp → payload.factorId = some id →
      row.status = .active → MFAControl.openSecret env payload.userId row = some (some secret) →
      env.totpVerify secret code row.lastTotpStep now = some step →
      Checked
        [.taken (.mfaChallenge token) (some consumed),
          .mfa (.totpAdvanced id row.lastTotpStep step now true), .clock now,
          .mfa (.factor payload.userId id (some row)), .got (.factorLock id) none,
          .got (.mfaChallenge token) (some payload), .called (.verifyChallenge token code)]
        payload.userId consumed.workflow payload.method.value
  | backup {token : Token} {code : String} {payload consumed : Challenge} {found : Option Uuid}
      {now : Time} :
      payload.purpose = .verify → payload.method = .backupCode →
      Checked
        [.taken (.mfaChallenge token) (some consumed),
          .mfa (.backupConsumed payload.userId (env.backupHash code) now found true),
          .mfa (.backupFactor payload.userId found), .clock now,
          .got (.mfaChallenge token) (some payload), .called (.verifyChallenge token code)]
        payload.userId consumed.workflow payload.method.value
  | enrollTotp {token : Token} {code : String} {payload consumed : Challenge} {id : Uuid}
      {row : MFADevice} {step : Nat} {now : Time} {codes : List Event} :
      payload.purpose = .enrollTotp → payload.factorId = some id →
      Codes payload.userId codes →
      Checked
        (codes ++
          [.taken (.mfaChallenge token) (some consumed),
            .mfa (.totpActivated payload.userId id step now true), .clock now,
            .mfa (.factor payload.userId id (some row)),
            .got (.mfaChallenge token) (some payload), .called (.confirmTotp token code)])
        payload.userId consumed.workflow "totp_enrollment"
  | enrollPasskey {token : Token} {credential label id key : String} {count : Nat} {now : Time}
      {user : Uuid} {challenge : Token} {workflow : Workflow} {codes : List Event} :
      Codes user codes →
      Checked
        (codes ++
          [.mfa (.passkeyCreated user label id key count (.drawn i 0) now), .clock now,
            .taken (.webauthnChallenge token) (some (.register user label challenge workflow)),
            .called (.confirmPasskeyRegistration token credential)])
        user workflow "passkey_enrollment"
  | passkey {token : Token} {credential : String} {challenge : Token} {stored : StoredPasskey}
      {count : Nat} {backupState : Bool} {workflow : Workflow} :
      env.verifyAuthentication credential challenge stored = some (count, backupState) →
      workflow.userId = stored.userId →
      Checked
        [.mfa (.counterUpdated (env.credentialId credential) stored.signCount count backupState
            true),
          .mfa (.passkey (env.credentialId credential) (some stored)),
          .taken (.webauthnChallenge token) (some (.authenticate challenge (some workflow))),
          .called (.verifyPasskey token credential)]
        stored.userId workflow "passkey"
  | passkeyPrimary {token : Token} {credential : String} {challenge : Token}
      {stored : StoredPasskey} {count : Nat} {backupState : Bool} :
      env.verifyAuthentication credential challenge stored = some (count, backupState) →
      Checked
        [.mfa (.counterUpdated (env.credentialId credential) stored.signCount count backupState
            true),
          .mfa (.passkey (env.credentialId credential) (some stored)),
          .taken (.webauthnChallenge token) (some (.authenticate challenge none)),
          .called (.verifyPasskey token credential)]
        stored.userId (passkeyWorkflow stored.userId) "passkey"
  | password {token : Token} {password hash : String} {workflow consumed : Workflow} :
      workflow.decision = .collisionProofRequired → env.passwordVerify hash password = true →
      Checked
        [.taken (.loginWorkflow token) (some consumed),
          .mfa (.passwordHash workflow.userId (some hash)),
          .got (.loginWorkflow token) (some workflow),
          .called (.proveCollisionPassword token password)]
        workflow.userId consumed "password_reauthentication"
  | management {token : Token} {factor : Uuid} {workflow consumed : Workflow}
      {factors : List (Uuid × MFADevice)} {now : Time} {entry : AuditLog} :
      workflow.assurance = some "mfa" →
      Checked
        [.audited entry, .mfa (.factorRevoked workflow.userId factor now true), .clock now,
          .taken (.loginWorkflow token) (some consumed),
          .mfa (.activeFactors workflow.userId factors),
          .got (.loginWorkflow token) (some workflow), .called (.revokeFactor token factor)]
        workflow.userId workflow "factor_management"

/-- A login workflow has been exchanged and nothing has been made of it yet. -/
inductive Exchanged (user : Uuid) (consumed : Workflow) (t : List Event) : Prop
  | intro (token : Token) (workflow : Workflow) :
      .got (.loginWorkflow token) (some workflow) ∈ t → workflow.userId = user →
      .taken (.loginWorkflow token) (some consumed) ∈ t → Fresh t →
      Exchanged user consumed t

/-- An enrolment has begun: the factors were counted, and a strong one among them
asks for a workflow that has passed a second check. -/
inductive Screened (user : Uuid) (consumed : Workflow) (t : List Event) : Prop
  | intro (token : Token) (workflow : Workflow) (factors : List (Uuid × MFADevice)) :
      .got (.loginWorkflow token) (some workflow) ∈ t →
      .taken (.loginWorkflow token) (some consumed) ∈ t →
      .mfa (.activeFactors user factors) ∈ t →
      ((factors.any fun entry => MFAControl.isStrong entry.2) = true →
        workflow.assurance = some "mfa") →
      Screened user consumed t

/-- The end of a TOTP enrolment, with the step whose code was presented. -/
inductive Confirms : List Event → Uuid → Uuid → Nat → Time → Prop
  | intro {token : Token} {code secret : String} {payload : Challenge} {id : Uuid}
      {row : MFADevice} {step : Nat} {now : Time} :
      payload.purpose = .enrollTotp → payload.factorId = some id → row.status = .pending →
      MFAControl.openSecret env payload.userId row = some (some secret) →
      env.totpVerify secret code none now = some step →
      Confirms
        [.clock now, .mfa (.factor payload.userId id (some row)),
          .got (.mfaChallenge token) (some payload), .called (.confirmTotp token code)]
        payload.userId id step now

/-- The code of a later step has been presented for a factor that is not locked. -/
inductive Advances : List Event → Uuid → Option Nat → Nat → Time → Prop
  | intro {token : Token} {code secret : String} {payload : Challenge} {id : Uuid}
      {row : MFADevice} {step : Nat} {now : Time} :
      payload.purpose = .verify → payload.method = .totp → payload.factorId = some id →
      row.status = .active → MFAControl.openSecret env payload.userId row = some (some secret) →
      env.totpVerify secret code row.lastTotpStep now = some step →
      Advances
        [.clock now, .mfa (.factor payload.userId id (some row)), .got (.factorLock id) none,
          .got (.mfaChallenge token) (some payload), .called (.verifyChallenge token code)]
        id row.lastTotpStep step now

/-- A recovery code has been presented. -/
inductive Spends : List Event → Uuid → Digest → Time → Option Uuid → Prop
  | intro {token : Token} {code : String} {payload : Challenge} {now : Time}
      {found : Option Uuid} :
      payload.purpose = .verify → payload.method = .backupCode →
      Spends
        [.mfa (.backupFactor payload.userId found), .clock now,
          .got (.mfaChallenge token) (some payload), .called (.verifyChallenge token code)]
        payload.userId (env.backupHash code) now found

/-- The end of the registration of a passkey. -/
inductive Attests : List Event → Uuid → Prop
  | intro {token : Token} {credential label : String} {now : Time} {user : Uuid}
      {challenge : Token} {workflow : Workflow} :
      Attests
        [.clock now,
          .taken (.webauthnChallenge token) (some (.register user label challenge workflow)),
          .called (.confirmPasskeyRegistration token credential)]
        user

/-- A factor is removed by a call that has counted the factors; if it is strong,
there was another strong one. -/
inductive Retires : List Event → Uuid → Uuid → Prop
  | intro {token : Token} {factor : Uuid} {workflow consumed : Workflow}
      {factors : List (Uuid × MFADevice)} {target : Uuid × MFADevice} {now : Time} :
      workflow.assurance = some "mfa" →
      factors.find? (fun entry => entry.1 == factor) = some target →
      (MFAControl.isStrong target.2 = true →
        1 < (factors.filter fun entry => MFAControl.isStrong entry.2).length) →
      Retires
        [.clock now, .taken (.loginWorkflow token) (some consumed),
          .mfa (.activeFactors workflow.userId factors),
          .got (.loginWorkflow token) (some workflow), .called (.revokeFactor token factor)]
        workflow.userId factor

/-- The address a code goes to is a verified one of the user. -/
inductive Addressed (user : Uuid) (recipient : String) (t : List Event) : Prop
  | intro (row : User) (identities : List (Uuid × Identity)) :
      .mfa (.user user (some row)) ∈ t → .login (.verifiedIdentities user identities) ∈ t →
      row.email = some recipient ∧
          (identities.any fun entry => MFARepository.isEmailProvider entry.2.provider) = true ∨
        row.phoneE164 = some recipient ∧
          (identities.any fun entry => entry.2.provider == .phone) = true →
      Addressed user recipient t

end Logins

section Returns

/-- The error that a rotation without a new token ends in. -/
def rotationError : RotationStatus → AuthError
  | .reused => tokenReused
  | .clientMismatch => clientMismatch
  | .expired => sessionExpired
  | _ => tokenInvalid

/-- A refresh reports what its rotation answered, unless the database failed. -/
inductive Refreshed (t : List Event) : Except AuthError Result → Prop
  | failed : Refreshed t (.error .unhandled)
  | refused {args : RotateArgs} {found : Option TokenMatch} {result : RotationResult} :
      .session (.rotated args found result) ∈ t → result.status ≠ .rotated →
      Refreshed t (.error (rotationError result.status))
  | rotated {args : RotateArgs} {found : Option TokenMatch} {result : RotationResult}
      {answer : Except AuthError Result} :
      .session (.rotated args found result) ∈ t → result.status = .rotated →
      Refreshed t answer

/-- What a suspension has done when it returns. -/
inductive Suspends (target : Uuid) : List Event → Prop
  | intro {actor : Uuid} {now : Time} {found : List SessionMatch}
      {results : List RevocationResult} {rest : List Event} :
      Suspends target
        (revocations results ++
          .put (.userRevocation target) (wholeSecond now) userRevocationTtlSeconds ::
          .session (.revokedAll ⟨target, "account_suspended", now⟩ found results) ::
          .session (.activeSessions target found) :: .clock now ::
          .account (.suspended target actor true) :: rest)

/-- What an offboarding has done when it returns. -/
inductive Offboarded (actor org member : Uuid) : List Event → Prop
  | intro {now cutoff : Time} {departure : Departure} {jtis : List Uuid} {call : Nat}
      {rest : List Event} :
      Offboarded actor org member
        ((jtis.map Event.revokesAccess).reverse ++
          .put (.organizationRevocation member org) (wholeSecond cutoff)
            userRevocationTtlSeconds ::
          .clock cutoff ::
          .workspace (.offboarded ⟨actor, org, member, now, call⟩ (some departure)
            (some ⟨member, jtis⟩)) :: rest)

/-- The calls that start or prove a change of contact. -/
def Call.movesContact : Call → Bool
  | .startContactChange .. => true
  | .verifyContactChange .. => true
  | _ => false

/-- What a call has recorded when it returns. -/
structure Returns (t : List Event) (answer : Except AuthError Result) : Prop where
  settled : Settled t
  pair : ∀ pair, answer = .ok (.pair pair) → .signed pair.accessToken ∈ t
  claims : ∀ claims, answer = .ok (.claims claims) →
    Passed claims [.called (.authenticate claims)] t
  decision : ∀ decision, answer = .ok (.decision decision) → ∃ workflow ttl,
    .put (.loginWorkflow decision.workflowToken) workflow ttl ∈ t ∧
      workflow.decision = decision.decision
  refresh : ∀ token client fingerprint, .called (.refresh token client fingerprint) ∈ t →
    Refreshed t answer
  suspend : ∀ claims target value, .called (.suspend claims target) ∈ t →
    answer = .ok value → Suspends target t
  offboard : ∀ actor org member value, .called (.offboardMember actor org member) ∈ t →
    answer = .ok value → Offboarded actor org member t
  reset : ∀ token password value, .called (.resetPassword token password) ∈ t →
    answer = .ok value → ∃ args found user,
      .recovery (.passwordReset args found (.updated, user)) ∈ t
  conflict : ∀ call, .called call ∈ t → call.movesContact = true →
    answer = .error RecoveryRepository.contactConflict → ∀ e ∈ t, e.commit = none
  authenticate : ∀ claims error, .called (.authenticate claims) ∈ t → answer = .error error →
    Rejected claims t

/-- Neither a commit that replaces access tokens nor a call whose answer the
record has to explain. -/
def Event.plain : Event → Bool
  | called (.refresh ..) => false
  | called (.suspend ..) => false
  | called (.offboardMember ..) => false
  | called (.resetPassword ..) => false
  | called (.startContactChange ..) => false
  | called (.verifyContactChange ..) => false
  | called (.authenticate _) => false
  | session (.rotated ..) => false
  | session (.scoped ..) => false
  | workspace (.offboarded ..) => false
  | _ => true

theorem Event.plain_of_movesContact {call : Call} (h : call.movesContact = true) :
    (Event.called call).plain = false := by
  cases call with
  | startContactChange => rfl
  | verifyContactChange => rfl
  | _ => cases h

theorem Event.displaces_of_plain {e : Event} (h : e.plain = true) : e.displaces = [] := by
  unfold Event.displaces
  split
  · cases h
  · cases h
  · cases h
  · rfl

theorem Settled.append {t : List Event} (pre : List Event) (hpre : ∀ e ∈ pre, e.displaces = [])
    (ht : Settled t) : Settled (pre ++ t) := by
  intro e he jti hjti
  rcases List.mem_append.mp he with hnew | hold
  · rw [hpre e hnew] at hjti
    cases hjti
  · exact List.mem_append_right _ (ht e hold jti hjti)

theorem Settled.of_empty {t : List Event} (h : ∀ e ∈ t, e.displaces = []) : Settled t := by
  intro e he jti hjti
  rw [h e he] at hjti
  cases hjti

theorem displaces_of_all_plain {t : List Event} (h : t.all Event.plain = true) :
    ∀ e ∈ t, e.displaces = [] :=
  fun e he => Event.displaces_of_plain (List.all_eq_true.mp h e he)

/-- A call that stops on a failure of the database. -/
theorem Returns.unhandled {t : List Event} (h : Settled t)
    (hcalls : ∀ claims, .called (.authenticate claims) ∉ t) : Returns t (.error .unhandled) where
  authenticate _ _ hcall := absurd hcall (hcalls _)
  reset _ _ _ _ heq := by cases heq
  conflict _ _ _ heq := by cases heq
  settled := h
  pair _ heq := by cases heq
  claims _ heq := by cases heq
  decision _ heq := by cases heq
  refresh _ _ _ _ := .failed
  suspend _ _ _ _ heq := by cases heq
  offboard _ _ _ _ _ heq := by cases heq

/-- What an answer asks of the record, apart from the calls it explains. -/
def Result.Recorded (t : List Event) : Result → Prop
  | pair value => .signed value.accessToken ∈ t
  | claims value => Passed value [.called (.authenticate value)] t
  | decision value => ∃ workflow ttl,
      .put (.loginWorkflow value.workflowToken) workflow ttl ∈ t ∧
        workflow.decision = value.decision
  | _ => True

theorem Returns.of_settled {t : List Event} {answer : Except AuthError Result}
    (hsettled : Settled t)
    (hcalls : ∀ call, .called call ∈ t → (Event.called call).plain = true)
    (hrecorded : ∀ value, answer = .ok value → value.Recorded t) : Returns t answer where
  authenticate _ _ hcall := by cases hcalls _ hcall
  settled := hsettled
  pair _ heq := hrecorded _ heq
  claims _ heq := hrecorded _ heq
  decision _ heq := hrecorded _ heq
  refresh _ _ _ hcall := by cases hcalls _ hcall
  suspend _ _ _ hcall := by cases hcalls _ hcall
  offboard _ _ _ _ hcall := by cases hcalls _ hcall
  reset _ _ _ hcall := by cases hcalls _ hcall
  conflict call hcall hmoves := by
    have hplain := hcalls _ hcall
    rw [Event.plain_of_movesContact hmoves] at hplain
    cases hplain

theorem Returns.error_of_plain {t : List Event} {error : AuthError}
    (h : t.all Event.plain = true) : Returns t (.error error) := by
  refine .of_settled (.of_empty (displaces_of_all_plain h)) ?_ ?_
  · exact fun call hcall => List.all_eq_true.mp h _ hcall
  · intro value heq
    cases heq

theorem Returns.ok_of_plain {t : List Event} {result : Result} (h : t.all Event.plain = true)
    (hresult : result.Recorded t) : Returns t (.ok result) := by
  refine .of_settled (.of_empty (displaces_of_all_plain h)) ?_ ?_
  · exact fun call hcall => List.all_eq_true.mp h _ hcall
  · intro value heq
    cases heq
    exact hresult

/-- Nothing that an exception would have to explain. -/
def Event.still : Event → Bool
  | called (.refresh ..) => false
  | called (.startContactChange ..) => false
  | called (.verifyContactChange ..) => false
  | called (.authenticate _) => false
  | session (.rotated ..) => false
  | session (.scoped _ _ previous) => previous.isNone
  | workspace (.offboarded _ _ result) => result.isNone
  | _ => true

theorem Event.still_of_movesContact {call : Call} (h : call.movesContact = true) :
    (Event.called call).still = false := by
  cases call with
  | startContactChange => rfl
  | verifyContactChange => rfl
  | _ => cases h

theorem Event.displaces_of_still {e : Event} (h : e.still = true) : e.displaces = [] := by
  unfold Event.displaces
  split
  · cases h
  · rename_i previous
    cases previous with
    | none => rfl
    | some jti => cases h
  · rename_i result
    cases result with
    | none => rfl
    | some value => cases h
  · rfl

theorem Returns.error_of_still {t : List Event} {error : AuthError}
    (h : t.all Event.still = true) : Returns t (.error error) where
  authenticate _ _ hcall := by cases List.all_eq_true.mp h _ hcall
  settled := .of_empty fun e he => Event.displaces_of_still (List.all_eq_true.mp h e he)
  pair _ heq := by cases heq
  claims _ heq := by cases heq
  decision _ heq := by cases heq
  refresh _ _ _ hcall := by cases List.all_eq_true.mp h _ hcall
  suspend _ _ _ _ heq := by cases heq
  offboard _ _ _ _ _ heq := by cases heq
  reset _ _ _ _ heq := by cases heq
  conflict call hcall hmoves := by
    have hstill := List.all_eq_true.mp h _ hcall
    rw [Event.still_of_movesContact hmoves] at hstill
    cases hstill

theorem still_of_plain {t : List Event} (h : t.all Event.plain = true) :
    t.all Event.still = true := by
  rw [List.all_eq_true] at h ⊢
  intro e he
  have hplain := h e he
  unfold Event.still
  split
  · cases hplain
  · cases hplain
  · cases hplain
  · cases hplain
  · cases hplain
  · cases hplain
  · cases hplain
  · rfl

theorem settled_scoped {args : ScopeArgs} {found : Option SessionMatch} {previous : Uuid}
    {base : List Event} (hbase : base.all Event.plain = true) :
    Settled (Event.revokesAccess previous :: .session (.scoped args found (some previous)) ::
      base) := by
  intro e he jti hjti
  simp only [List.mem_cons] at he
  rcases he with rfl | rfl | hold
  · cases hjti
  · have heq : jti = previous := by simpa [Event.displaces] using hjti
    simp [heq]
  · rw [displaces_of_all_plain hbase e hold] at hjti
    cases hjti

theorem settled_rotation {args : RotateArgs} {found : Option TokenMatch}
    {result : RotationResult} {base : List Event} (hbase : ∀ e ∈ base, e.displaces = []) :
    Settled (rotationMarks result ++ .session (.rotated args found result) :: base) := by
  intro e he jti hjti
  have hlast : e = .session (.rotated args found result) := by
    rcases List.mem_append.mp he with hmark | hrest
    · exfalso
      unfold rotationMarks at hmark
      split at hmark
      · cases hmark
      · split at hmark
        · simp only [List.mem_singleton] at hmark
          subst hmark
          cases hjti
        · simp only [List.mem_cons, List.not_mem_nil, or_false] at hmark
          rcases hmark with rfl | rfl
          · cases hjti
          · cases hjti
    · rcases List.mem_cons.mp hrest with rfl | hold
      · rfl
      · rw [hbase e hold] at hjti
        cases hjti
  subst hlast
  refine List.mem_append_left _ ?_
  simp only [Event.displaces] at hjti
  split at hjti
  · rename_i hrotated
    cases hrevoked : result.revoked with
    | none => simp [hrevoked] at hjti
    | some revoked =>
        have heq : jti = revoked.accessJti := by simpa [hrevoked] using hjti
        simp [rotationMarks, hrevoked, hrotated, heq]
  · cases hjti

/-- Neither takes nor makes a token, and explains no answer. -/
def Event.idle (e : Event) : Bool :=
  e.plain && !e.produces && !e.consumes

theorem plain_of_idle {t : List Event} (h : t.all Event.idle = true) :
    t.all Event.plain = true := by
  rw [List.all_eq_true] at h ⊢
  intro e he
  have hidle := h e he
  simp only [Event.idle, Bool.and_eq_true] at hidle
  exact hidle.1.1

theorem Fresh.of_idle {t : List Event} (h : t.all Event.idle = true) : Fresh t := by
  intro e he
  have hidle := List.all_eq_true.mp h e he
  simp only [Event.idle, Bool.and_eq_true, Bool.not_eq_true'] at hidle
  exact hidle.1.2

theorem Unspent.of_idle {t : List Event} (h : t.all Event.idle = true) : Unspent t := by
  intro e he
  have hidle := List.all_eq_true.mp h e he
  simp only [Event.idle, Bool.and_eq_true, Bool.not_eq_true'] at hidle
  exact hidle.2

end Returns

/-- The event does what a privacy request asks for. -/
def Event.fulfils : Event → Bool
  | .account (.exportCompleted _ _) => true
  | .account (.erased _ (.erased _ _) _) => true
  | _ => false

/-- A call fulfils the request that it drew, and nothing before. -/
def Fulfils (i : Nat) (id : Uuid) (t : List Event) : Prop :=
  id = .drawn i 0 ∧ ∀ e ∈ t, e.fulfils = false

/-- What a call records on the way to fulfil its request. -/
def Event.preparatory (e : Event) : Bool :=
  e.plain && !e.fulfils

theorem plain_of_preparatory {t : List Event} (h : t.all Event.preparatory = true) :
    t.all Event.plain = true := by
  rw [List.all_eq_true] at h ⊢
  intro e he
  exact (Bool.and_eq_true_iff.mp (h e he)).1

theorem preparatory_append {t : List Event} (pre : List Event)
    (hpre : pre.all Event.preparatory = true) (ht : t.all Event.preparatory = true) :
    (pre ++ t).all Event.preparatory = true := by
  rw [List.all_append, hpre, ht]
  rfl

theorem Fulfils.of_preparatory {i : Nat} {id : Uuid} {t : List Event} (hid : id = .drawn i 0)
    (ht : t.all Event.preparatory = true) : Fulfils i id t := by
  refine ⟨hid, fun e he => ?_⟩
  have hentry := Bool.and_eq_true_iff.mp (List.all_eq_true.mp ht e he)
  simpa using hentry.2

section Follows

variable (env : Env) (i : Nat) (t : List Event)

def SessionEvent.Follows : SessionEvent → Prop
  | created args found _ => Creates env i t args found
  | rotated args found _ => Rotates env i t args found
  | revokedAll args found _ => RevokesAll t args found
  | .scoped args found _ => ∃ claims workspace, Scopes i claims workspace t args found
  | _ => True

def WorkspaceEvent.Follows : WorkspaceEvent → Prop
  | organizationCreated args catalog _ => Founds env i t args catalog
  | invited args _ (some _) => ∃ organization : Organization,
      .workspace (.organization args.workspace (some organization)) ∈ t ∧
        organization.workspaceType = .organization
  | accepted args (some admission) result => Accepts env i t args admission ∧
      ∀ summary, result = some summary → summary.workspaceId = admission.invitation.orgId
  | accepted _ none result => result = none
  | replaced args role (some change) _ => Replaces i t args role change
  | offboarded args (some departure) result => Offboards i t args departure ∧
      ∃ jtis, result = some ⟨args.member, jtis⟩
  | offboarded _ none result => result = none
  | _ => True

def AccountEvent.Follows : AccountEvent → Prop
  | erased args (.erased _ rows) _ => Erases args rows t ∧ Fulfils i args.requestId t
  | exportCompleted args _ => Fulfils i args.requestId t
  | requestCreated id _ _ (some _, true) => id = .drawn i 0
  | exportCreated id _ _ _ (_, true) => id = .drawn i 0
  | _ => True

def LoginEvent.Follows : LoginEvent → Prop
  | passwordUpdated user hash found => Rehashes env i t user hash found
  | provisioned args _ => LoginControl.isOidc args.profile.provider = true
  | _ => True

def RecoveryEvent.Follows : RecoveryEvent → Prop
  | resetInitiated args user _ => Initiates i t args user
  | resetApproved args (some _) => Approves t args
  | resetExecuted args _ (some _) => Executes t args
  | mailed args found => Mails env i t args found
  | passwordReset args found _ => Resets env i t args found
  | contactVerified args _ => Proves env t args
  | _ => True

def MFAEvent.Follows : MFAEvent → Prop
  | pendingTotpCreated _ _ _ id _ _ => id = .drawn i 1 ∧ ∀ e ∈ t, e.newFactor = none
  | totpActivated owner id step now _ => Confirms env t owner id step now
  | totpAdvanced id previous step now _ => Advances env t id previous step now
  | backupStored _ _ id _ _ => id = .drawn i 10
  | backupConsumed owner candidate now found _ => Spends env t owner candidate now found
  | passkeyCreated owner _ _ _ _ id _ => Attests t owner ∧ id = .drawn i 0
  | factorRevoked owner id _ _ => Retires t owner id
  | linked owner provider subject _ => ∃ workflow method, Checked env i t owner workflow method ∧
      workflow.decision = .collisionProofRequired ∧ workflow.oidc = some (provider, subject)
  | _ => True

/-- What goes into the store: the token of a call is one that it drew. -/
def Puts : (key : CacheKey) → key.Value → Nat → Prop
  | .loginWorkflow token, workflow, _ =>
      token = .drawn i 0 ∧ Primary env i t workflow ∨
        token = .drawn i 9 ∧ ∃ user carried method, Checked env i t user carried method ∧
          carried.decision ≠ .collisionProofRequired ∧
          workflow = MFAControl.completedWorkflow user method
  | .mfaChallenge token, challenge, _ =>
      (∃ serial, token = .drawn i serial) ∧ Exchanged challenge.userId challenge.workflow t ∧
        (challenge.purpose = .enrollTotp → Screened challenge.userId challenge.workflow t)
  | .webauthnChallenge token, .register user _ _ workflow, _ =>
      (∃ serial, token = .drawn i serial) ∧ Exchanged user workflow t ∧ Screened user workflow t
  | .webauthnChallenge token, .authenticate _ (some workflow), _ =>
      (∃ serial, token = .drawn i serial) ∧ ∃ user, Exchanged user workflow t
  | .accessRevocation _, _, ttl => ttl = accessTtlSeconds
  | .organizationRevocation user org, cutoff, ttl =>
      CutsOff t user org cutoff ∧ ttl = userRevocationTtlSeconds
  | .otp _ _, _, _ => False
  | _, _, _ => True

def Takes : CacheKey → Prop
  | .loginWorkflow _ => Unspent t
  | .mfaChallenge _ => Unspent t
  | .webauthnChallenge _ => Unspent t
  | .oidcWorkflow _ => True
  | _ => False

def Removes : CacheKey → Prop
  | .rateLimit _ _ => True
  | .otp _ _ => True
  | .organizationRevocation user org => Restores t user org
  | _ => False

/-- Call `i`, having recorded `t`, may record this event. -/
def Event.Follows : Event → Prop
  | called _ => t = []
  | returned answer => Returns t answer
  | signed claims => Signs i t claims
  | put key value ttl => Puts env i t key value ttl
  | taken key _ => Takes t key
  | removed key => Removes t key
  | otpStored user (.mfa _) _ => ∃ recipient, Addressed user recipient t
  | sent recipient _ => ∀ user token hash, .otpStored user (.mfa token) hash ∈ t →
      Addressed user recipient t
  | session event => event.Follows env i t
  | workspace event => event.Follows env i t
  | account event => event.Follows i t
  | login event => event.Follows env i t
  | mfa event => event.Follows env i t
  | recovery event => event.Follows env i t
  | _ => True

end Follows

/-- The application as a ledger: an event is enabled when it follows what its
call has recorded and agrees with the state. -/
def ledger (env : Env) : Ledger Db World Event where
  log := World.log
  enabled i c e := e.Follows env i (trace i c.store.log) ∧ e.Agrees c
  apply := Event.apply
  pass n w := { w with now := w.now + n }
  ended e := ∃ answer, e = .returned answer
  log_apply i e c := by
    change (i, e) :: (e.stored c.store).log = (i, e) :: c.store.log
    rw [Event.log_stored]
  log_pass _ _ := rfl

end AuthCore
