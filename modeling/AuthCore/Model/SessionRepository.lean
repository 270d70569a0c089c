/-
The transactions on sessions, refresh-token families and refresh tokens.  A
locking query is a plain query for its candidates followed by a lock on each
and a second look at the condition: rows that appear after the first look are
not seen.
-/
import AuthCore.Model.Changes
import AuthCore.Model.Commands

namespace AuthCore

open Interleave Relational

/-- Order rows by a key, keeping the order of equal ones. -/
def orderBy {α : Type} (key : α → Nat) : List α → List α
  | [] => []
  | a :: rest => insertBy a (orderBy key rest)
where
  insertBy (a : α) : List α → List α
    | [] => [a]
    | b :: rest => if key a ≤ key b then a :: b :: rest else b :: insertBy a rest

namespace SessionRepository

def userIsActive (user : Uuid) (d : Db) : Bool :=
  match d.users.get user with
  | none => false
  | some row => row.state == .active && row.anonymizedAt.isNone

/-- A session and its family, both as locked. -/
structure Locked where
  sessionId : Uuid
  session : Session
  family : RefreshTokenFamily
deriving DecidableEq, Repr

/-- Lock the joined row and keep it if it still satisfies the condition. -/
def lockJoined (condition : Session → RefreshTokenFamily → Bool) (found : SessionMatch) :
    Trans (Option Locked) := do
  let family ← lockRow (.family found.familyId)
  let session ← lockRow (.session found.sessionId)
  match (show FamilyView from family).row, (show Option Session from session) with
  | some family, some session =>
      if condition session family && session.familyId == found.familyId then
        return some ⟨found.sessionId, session, family⟩
      else
        return none
  | _, _ => return none

/-- The sessions that satisfy a condition together with their families. -/
def joined (condition : Uuid → Session → RefreshTokenFamily → Bool) (d : Db) :
    List (Uuid × Session) :=
  d.sessions.select fun id session =>
    match d.families.get session.familyId with
    | none => false
    | some family => condition id session family

def candidates (rows : List (Uuid × Session)) : List SessionMatch :=
  rows.map fun row => ⟨row.1, row.2.familyId⟩

def record (id : Uuid) (session : Session) : SessionRecord where
  sessionId := id
  familyId := session.familyId
  userId := session.userId
  accessJti := session.accessJti
  clientType := session.clientId
  deviceFingerprintHash := session.deviceFingerprintHash
  ipAddress := session.ipAddress
  createdAt := session.createdAt
  lastActivityAt := session.lastActivityAt
  expiresAt := session.expiresAt
  revokedAt := session.revokedAt

def revocation (row : Locked) : RevocationResult :=
  ⟨row.session.userId, row.session.familyId, row.session.accessJti⟩

/-- A family and session count against the cap of their user. -/
def active (user : Uuid) (now : Time) (session : Session) (family : RefreshTokenFamily) : Bool :=
  family.userId == user && family.revokedAt.isNone && session.revokedAt.isNone &&
    decide (now < session.expiresAt)

/-- Revoke the family, the session and every token of the family. -/
def evict (now : Time) (row : Locked) : Trans Unit := do
  write (DbChange.setFamily row.session.familyId fun family =>
    { family with revokedAt := some now, revocationReason := some "session_cap" })
  write (DbChange.setSession row.sessionId (fun session => { session with revokedAt := some now })
    fun _ => rfl)
  write (DbChange.updateTokens row.session.familyId (fun _ _ => true)
    (fun token => { token with revokedAt := some now }) (fun _ => rfl) fun _ => rfl)

def newFamily (args : CreateArgs) : RefreshTokenFamily where
  userId := args.userId
  deviceFingerprintHash := args.fingerprintHash
  clientId := args.clientType
  createdAt := args.now
  absoluteExpiresAt := args.familyExpiresAt
  revokedAt := none
  revocationReason := none

def newSession (args : CreateArgs) : Session where
  familyId := args.familyId
  userId := args.userId
  orgId := none
  accessJti := args.accessJti
  clientId := args.clientType
  deviceFingerprintHash := args.fingerprintHash
  ipAddress := args.ip
  createdAt := args.now
  lastActivityAt := args.now
  expiresAt := args.sessionExpiresAt
  revokedAt := none

def newToken (args : CreateArgs) : RefreshToken where
  familyId := args.familyId
  tokenHash := args.refreshTokenHash
  generation := 0
  issuedAt := args.now
  usedAt := none
  revokedAt := none
  expiresAt := args.refreshExpiresAt

/-- The part of `create_session` after the candidates for eviction are chosen. -/
def insertSession (args : CreateArgs) (found : List SessionMatch) : Trans CreatedSession := do
  let activeRows ← Tx.collect (lockJoined (active args.userId args.now)) found
  let overflow := activeRows.length + 1 - maxActiveSessions
  Tx.each (evict args.now) (activeRows.take overflow)
  write (DbChange.addFamily args.familyId (newFamily args))
  write (DbChange.addSession args.sessionId (newSession args))
  reserve (.tokenHash args.refreshTokenHash) []
  write (DbChange.addToken args.refreshTokenId (newToken args))
  return ⟨record args.sessionId (newSession args),
    (activeRows.take overflow).map fun row => { revocation row with userId := args.userId }⟩

def createSession (args : CreateArgs) : Proc CreatedSession :=
  .txn (fun i result w => w.record i (.session (.created args result.1 result.2)))
    (do
      let found ← ask
        (fun d => candidates (orderBy (fun row => row.2.createdAt)
          (joined (fun _ => active args.userId args.now) d)))
        fun found => .session (.capCandidates args.userId args.now found)
      let created ← insertSession args found
      return (found, created))
    fun
    | .ok result => .done result.2
    | .error _ => .raise .unhandled

/-- Revoke what is not yet revoked of a family, its session and its tokens. -/
def revokeLocked (row : Locked) (now : Time) (reason : String) : Trans Unit := do
  write (DbChange.setFamily row.session.familyId fun family =>
    { family with
      revokedAt := family.revokedAt.or (some now)
      revocationReason := family.revocationReason.or (some reason) })
  write (DbChange.setSession row.sessionId
    (fun session => { session with revokedAt := session.revokedAt.or (some now) })
    fun _ => rfl)
  write (DbChange.updateTokens row.session.familyId (fun _ token => token.revokedAt.isNone)
    (fun token => { token with revokedAt := some now }) (fun _ => rfl) fun _ => rfl)

/-- The session after a rotation. -/
def rotatedSession (args : RotateArgs) (session : Session) : Session :=
  { session with accessJti := args.newAccessJti, orgId := none, lastActivityAt := args.now }

def replacementToken (args : RotateArgs) (token : RefreshToken) (family : RefreshTokenFamily) :
    RefreshToken where
  familyId := token.familyId
  tokenHash := args.replacementHash
  generation := token.generation + 1
  issuedAt := args.now
  usedAt := none
  revokedAt := none
  expiresAt := min args.replacementExpiresAt family.absoluteExpiresAt

def expired (args : RotateArgs) (token : RefreshToken) (row : Locked) : Bool :=
  decide (token.expiresAt ≤ args.now) || decide (row.family.absoluteExpiresAt ≤ args.now) ||
    decide (row.session.expiresAt ≤ args.now) ||
    decide (row.session.lastActivityAt + seconds args.idleTimeout ≤ args.now)

/-- The branches of a rotation, on the locked token, family and session. -/
def rotateLocked (args : RotateArgs) (tokenId : Uuid) (token : RefreshToken) (row : Locked) :
    Trans RotationResult := do
  if token.usedAt.isSome then
    revokeLocked row args.now "token_reuse"
    return ⟨.reused, none, some (revocation row)⟩
  else if token.revokedAt.isSome || row.family.revokedAt.isSome ||
      row.session.revokedAt.isSome then
    return ⟨.invalid, none, none⟩
  else if expired args token row then
    revokeLocked row args.now "expired"
    return ⟨.expired, none, some (revocation row)⟩
  else if row.family.clientId != args.clientType ||
      row.family.deviceFingerprintHash != args.fingerprintHash then
    revokeLocked row args.now "client_mismatch"
    return ⟨.clientMismatch, none, some (revocation row)⟩
  else
    write (DbChange.updateTokens token.familyId (fun id _ => id == tokenId)
      (fun token => { token with usedAt := some args.now, revokedAt := some args.now })
      (fun _ => rfl) fun _ => rfl)
    reserve (.tokenHash args.replacementHash) []
    write (DbChange.addToken args.replacementId (replacementToken args token row.family))
    write (DbChange.setSession row.sessionId (rotatedSession args) fun _ => rfl)
    return ⟨.rotated, some (record row.sessionId (rotatedSession args row.session)),
      some (revocation row)⟩

/-- The part of `rotate_refresh_token` after the presented hash is looked up. -/
def rotateMatch (args : RotateArgs) : Option TokenMatch → Trans RotationResult
  | none => return ⟨.invalid, none, none⟩
  | some found => do
      let family ← lockRow (.family found.familyId)
      let session ← lockRow (.session found.sessionId)
      let view : FamilyView := family
      match view.tokens.find? (fun entry => entry.1 == found.tokenId), view.row,
        (show Option Session from session) with
      | some (_, token), some family, some session =>
          if token.tokenHash == args.tokenHash && session.familyId == found.familyId then
            rotateLocked args found.tokenId token ⟨found.sessionId, session, family⟩
          else
            return ⟨.invalid, none, none⟩
      | _, _, _ => return ⟨.invalid, none, none⟩

/-- The token with a hash, joined with its family and session. -/
def tokenMatch (hash : Digest) (d : Db) : Option TokenMatch :=
  (d.tokens.select fun _ token => token.tokenHash == hash).findSome? fun entry =>
    (d.families.get entry.2.familyId).bind fun _ =>
      (d.sessions.select fun _ session => session.familyId == entry.2.familyId).head?.map
        fun session => ⟨entry.1, entry.2.familyId, session.1⟩

def rotateRefreshToken (args : RotateArgs) : Proc RotationResult :=
  .txn (fun i result w => w.record i (.session (.rotated args result.1 result.2)))
    (do
      let found ← ask (tokenMatch args.tokenHash) fun found =>
        .session (.presented args.tokenHash found)
      let rotation ← rotateMatch args found
      return (found, rotation))
    fun
    | .ok result => .done result.2
    | .error _ => .raise .unhandled

/-- The part of `revoke_session` after the session is looked up. -/
def revokeMatch (args : RevokeArgs) : Option SessionMatch → Trans (Option RevocationResult)
  | none => return none
  | some found => do
      let locked ← lockJoined (fun session _ => session.userId == args.userId) found
      match locked with
      | none => return none
      | some row =>
          revokeLocked row args.now args.reason
          return some (revocation row)

def revokeSession (args : RevokeArgs) : Proc (Option RevocationResult) :=
  .txn (fun i result w => w.record i (.session (.revoked args result.1 result.2)))
    (do
      let found ← ask
        (fun d => (candidates (joined (fun id session _ => id == args.sessionId &&
          session.userId == args.userId) d)).head?)
        fun found => .session (.sessionFound args.userId args.sessionId found)
      let revoked ← revokeMatch args found
      return (found, revoked))
    fun
    | .ok result => .done result.2
    | .error _ => .raise .unhandled

def unrevoked (user : Uuid) (session : Session) (family : RefreshTokenFamily) : Bool :=
  session.userId == user && session.revokedAt.isNone && family.revokedAt.isNone

/-- The part of `revoke_all` after the sessions are looked up. -/
def revokeMatches (args : RevokeAllArgs) (found : List SessionMatch) :
    Trans (List RevocationResult) := do
  let rows ← Tx.collect (lockJoined (unrevoked args.userId)) found
  Tx.each (fun row => revokeLocked row args.now args.reason) rows
  return rows.map revocation

def revokeAll (args : RevokeAllArgs) : Proc (List RevocationResult) :=
  .txn (fun i result w => w.record i (.session (.revokedAll args result.1 result.2)))
    (do
      let found ← ask (fun d => candidates (joined (fun _ => unrevoked args.userId) d))
        fun found => .session (.activeSessions args.userId found)
      let revoked ← revokeMatches args found
      return (found, revoked))
    fun
    | .ok result => .done result.2
    | .error _ => .raise .unhandled

/-- Neither the session nor its family is revoked or past its lifetime. -/
def live (now : Time) (session : Session) (family : RefreshTokenFamily) : Bool :=
  session.revokedAt.isNone && decide (now < session.expiresAt) && family.revokedAt.isNone &&
    decide (now < family.absoluteExpiresAt)

def listSessions (user : Uuid) (now : Time) (d : Db) : List SessionSummary :=
  let rows := joined (fun _ session family => session.userId == user && live now session family) d
  (orderBy (fun row => row.2.lastActivityAt) rows).reverse.map fun row =>
    ⟨row.1, row.2.clientId, row.2.deviceFingerprintHash, row.2.ipAddress, row.2.createdAt,
      row.2.lastActivityAt, row.2.expiresAt, false⟩

def sessionIsActive (session : Uuid) (now : Time) (d : Db) : Bool :=
  !(joined (fun id row family => id == session && live now row family) d).isEmpty

def scopable (args : ScopeArgs) (session : Session) (family : RefreshTokenFamily) : Bool :=
  session.userId == args.userId && live args.now session family

/-- The part of `scope_session` after the session is looked up. -/
def scopeMatch (args : ScopeArgs) : Option SessionMatch → Trans (Option Uuid)
  | none => return none
  | some found => do
      let locked ← lockJoined (scopable args) found
      match locked with
      | none => return none
      | some row =>
          write (DbChange.setSession row.sessionId (fun session => { session with
            orgId := some args.workspaceId, accessJti := args.accessJti,
            lastActivityAt := args.now }) fun _ => rfl)
          return some row.session.accessJti

def scopeSession (args : ScopeArgs) : Proc (Option Uuid) :=
  .txn (fun i result w => w.record i (.session (.scoped args result.1 result.2)))
    (do
      let found ← ask
        (fun d => (candidates (joined (fun id session family => id == args.sessionId &&
          scopable args session family) d)).head?)
        fun found => .session (.scopeFound args found)
      let previous ← scopeMatch args found
      return (found, previous))
    fun
    | .ok result => .done result.2
    | .error _ => .raise .unhandled

def audit (eventType outcome : String) (user : Uuid) : Proc Unit :=
  let entry : AuditLog := ⟨some user, some user, none, eventType, outcome⟩
  transact (fun _ => .audited entry) (write (DbChange.addAudit entry))

end SessionRepository

end AuthCore
