/-
The transactions that touch refresh-token families, as operations on the three
tables: each commit is a chain of revocations, changes of scope and deletions,
or ends in a new family or a new token.
-/
import AuthCore.History.Alone
import AuthCore.History.Frames
import AuthCore.Sessions.Families

namespace AuthCore

open Interleave Relational SessionRepository

/-- What a locking query of a session and its family keeps. -/
def lockedRow (condition : Session → RefreshTokenFamily → Bool) (d : Db) (found : SessionMatch) :
    Option Locked :=
  match d.families.get found.familyId, d.sessions.get found.sessionId with
  | some family, some session =>
      if condition session family && session.familyId == found.familyId then
        some ⟨found.sessionId, session, family⟩
      else
        none
  | _, _ => none

theorem alone_lockJoined (condition : Session → RefreshTokenFamily → Bool) (d : Db)
    (pending : Db → Db) (found : SessionMatch) :
    (lockJoined condition found).alone d pending =
      .ok (lockedRow condition d found, pending) := by
  change Tx.alone d pending
    (match d.families.get found.familyId, d.sessions.get found.sessionId with
      | some family, some session =>
          if condition session family && session.familyId == found.familyId then
            return some ⟨found.sessionId, session, family⟩
          else
            return none
      | _, _ => return none : Trans (Option Locked)) = _
  unfold lockedRow
  cases d.families.get found.familyId with
  | none => rfl
  | some family =>
      cases d.sessions.get found.sessionId with
      | none => rfl
      | some session =>
          dsimp only
          split
          · rfl
          · rfl

/-- A locked row is in the tables. -/
structure Stored (row : Locked) (T : SessionTables) : Prop where
  session : T.sessions.get row.sessionId = some row.session
  family : T.families.get row.session.familyId = some row.family

theorem lockedRow_eq_some {condition : Session → RefreshTokenFamily → Bool} {d : Db}
    {found : SessionMatch} {row : Locked} (h : lockedRow condition d found = some row) :
    Stored row d.sessionTables ∧ condition row.session row.family = true ∧
      row.sessionId = found.sessionId ∧ row.session.familyId = found.familyId := by
  unfold lockedRow at h
  split at h
  · rename_i family session hfamily hsession
    split at h
    · rename_i hcondition
      simp only [Bool.and_eq_true, beq_iff_eq] at hcondition
      obtain rfl := Option.some.inj h
      refine ⟨⟨hsession, ?_⟩, hcondition.1, rfl, hcondition.2⟩
      rw [hcondition.2]
      exact hfamily
    · cases h
  · cases h

namespace SessionTables

/-- The operations that neither add a row nor use a token. -/
inductive Upkeep (T : SessionTables) : SessionTables → Prop
  | revoke {f k : Uuid} {s : Session} {mark : Option Time → Time}
      {reason : Option String → Option String} :
      T.sessions.get k = some s → s.familyId = f → Upkeep T (T.revoke f k mark reason)
  | scope {k : Uuid} {org : Option Uuid} {jti : Uuid} {now : Time} :
      Upkeep T (T.scope k org jti now)
  | delete {f : Uuid} : Upkeep T (T.delete f)

theorem AtRest.upkeep {T T' : SessionTables} (h : AtRest T)
    (hsteps : Relation.ReflTransGen Upkeep T T') : AtRest T' := by
  induction hsteps with
  | refl => exact h
  | tail _ hstep ih =>
      cases hstep with
      | revoke hk hs => exact ih.revoke hk hs
      | scope => exact ih.scope
      | delete => exact ih.delete

end SessionTables

theorem SessionTables.Descends.upkeep {T T' : SessionTables} (k : Uuid)
    (hsteps : Relation.ReflTransGen SessionTables.Upkeep T T') :
    SessionTables.Descends k T T' := by
  induction hsteps with
  | refl => exact .refl k T
  | tail _ hstep ih =>
      cases hstep with
      | revoke _ _ => exact ih.trans (.of_revoke k _ _ _ _ _)
      | scope => exact ih.trans (.of_scope k _ _ _ _ _)
      | delete => exact ih.trans (.of_delete k _ _)

/-- Act on the three tables. -/
def Db.onSessions (g : SessionTables → SessionTables) (d : Db) : Db :=
  { d with
    families := (g d.sessionTables).families
    tokens := (g d.sessionTables).tokens
    sessions := (g d.sessionTables).sessions }

theorem sessionTables_foldl {ι : Type} (g : ι → SessionTables → SessionTables) (is : List ι)
    (d : Db) :
    (is.foldl (fun d i => d.onSessions (g i)) d).sessionTables =
      is.foldl (fun T i => g i T) d.sessionTables := by
  induction is generalizing d with
  | nil => rfl
  | cons i rest ih => exact ih _

section Revoking

/-- An eviction, on the tables. -/
def evicted (now : Time) (row : Locked) : SessionTables → SessionTables :=
  SessionTables.revoke row.session.familyId row.sessionId (fun _ => now) fun _ =>
    some "session_cap"

theorem alone_evict (now : Time) (row : Locked) (d : Db) (pending : Db → Db) :
    (evict now row).alone d pending = .ok ((), Db.onSessions (evicted now row) ∘ pending) := by
  have htokens : ∀ t : Table Uuid RefreshToken,
      t.update (fun _ token => token.familyId == row.session.familyId && true)
          (fun token => { token with revokedAt := some now }) =
        t.update (fun _ token => token.familyId == row.session.familyId)
          (fun token => { token with revokedAt := some now }) := by
    intro t
    exact Table.update_congr (fun _ _ => by rw [Bool.and_true]) t
  change Except.ok _ = Except.ok _
  congr 2
  funext d'
  simp only [Function.comp, Db.onSessions, DbChange.setFamily, DbChange.setSession,
    DbChange.updateTokens, htokens]
  rfl

/-- A revocation that keeps earlier ones, on the tables. -/
def revokedRow (now : Time) (reason : String) (row : Locked) : SessionTables → SessionTables :=
  SessionTables.revoke row.session.familyId row.sessionId (fun at? => at?.getD now) fun given =>
    given.or (some reason)

theorem alone_revokeLocked (row : Locked) (now : Time) (reason : String) (d : Db)
    (pending : Db → Db) :
    (revokeLocked row now reason).alone d pending =
      .ok ((), Db.onSessions (revokedRow now reason row) ∘ pending) := by
  have hmark : ∀ at? : Option Time, at?.or (some now) = some (at?.getD now) := by
    intro at?
    cases at? with
    | none => rfl
    | some earlier => rfl
  have htokens : ∀ t : Table Uuid RefreshToken,
      t.update (fun _ token => token.familyId == row.session.familyId && token.revokedAt.isNone)
          (fun token => { token with revokedAt := some now }) =
        t.update (fun _ token => token.familyId == row.session.familyId)
          (fun token => { token with revokedAt := some (token.revokedAt.getD now) }) := by
    intro t
    refine Table.update_congr (fun _ token => ?_) t
    rcases token with ⟨family, hash, generation, issuedAt, usedAt, revokedAt, expiresAt⟩
    cases revokedAt with
    | none => simp
    | some earlier => simp
  change Except.ok _ = Except.ok _
  congr 2
  funext d'
  simp only [Function.comp, Db.onSessions, DbChange.setFamily, DbChange.setSession,
    DbChange.updateTokens, htokens, hmark]
  rfl

/-- The session of a locked row is still one of its family. -/
def Anchored (row : Locked) (T : SessionTables) : Prop :=
  ∃ s, T.sessions.get row.sessionId = some s ∧ s.familyId = row.session.familyId

theorem Stored.anchored {row : Locked} {T : SessionTables} (h : Stored row T) :
    Anchored row T :=
  ⟨row.session, h.session, rfl⟩

theorem Anchored.revoke {row : Locked} {T : SessionTables} (h : Anchored row T) (f k : Uuid)
    (mark : Option Time → Time) (reason : Option String → Option String) :
    Anchored row (T.revoke f k mark reason) := by
  obtain ⟨s, hget, hs⟩ := h
  refine ⟨_, Table.get_update_eq_some.mpr ⟨s, hget, rfl⟩, ?_⟩
  split
  · exact hs
  · exact hs

/-- Revoking locked rows one after the other. -/
theorem upkeep_revocations {mark : Option Time → Time} {reason : Option String → Option String}
    (rows : List Locked) {T : SessionTables} (hrows : ∀ row ∈ rows, Anchored row T) :
    Relation.ReflTransGen SessionTables.Upkeep T
      (rows.foldl (fun T row => T.revoke row.session.familyId row.sessionId mark reason) T) := by
  induction rows generalizing T with
  | nil => exact .refl
  | cons row rest ih =>
      obtain ⟨s, hget, hs⟩ := hrows row List.mem_cons_self
      refine .head (.revoke hget hs) (ih fun other hother => ?_)
      exact (hrows other (List.mem_cons_of_mem _ hother)).revoke _ _ _ _

/-- The rows that a locking query keeps are stored. -/
theorem anchored_of_locked {condition : Session → RefreshTokenFamily → Bool} {d : Db}
    {found : List SessionMatch} {row : Locked}
    (h : row ∈ found.filterMap (lockedRow condition d)) : Anchored row d.sessionTables := by
  obtain ⟨candidate, _, hrow⟩ := List.mem_filterMap.mp h
  exact (lockedRow_eq_some hrow).1.anchored

end Revoking

theorem free_of_entries {hash : Digest} {d : Db}
    (h : ∀ id ∈ (IndexKey.tokenHash hash).entries d, id ∈ ([] : List Uuid)) :
    ∀ k t, d.tokens.get k = some t → t.tokenHash ≠ hash := by
  intro k t hget hhash
  have hentry : k ∈ (IndexKey.tokenHash hash).entries d := by
    refine List.mem_map.mpr ⟨(k, t), ?_, rfl⟩
    rw [Table.mem_select]
    exact ⟨hget, by simpa using hhash⟩
  cases h k hentry

section Created

variable {args : CreateArgs} {found : List SessionMatch} {d : Db}

/-- The sessions that a new one evicts. -/
def overflow (args : CreateArgs) (found : List SessionMatch) (d : Db) : List Locked :=
  let rows := found.filterMap (lockedRow (active args.userId args.now) d)
  rows.take (rows.length + 1 - maxActiveSessions)

theorem alone_insertSession {result : CreatedSession × (Db → Db)}
    (h : (insertSession args found).alone d id = .ok result) :
    (∀ k t, d.tokens.get k = some t → t.tokenHash ≠ args.refreshTokenHash) ∧
      result.1.record = record args.sessionId (newSession args) ∧
      (result.2 d).sessionTables = ((overflow args found d).foldl
        (fun T row => evicted args.now row T) d.sessionTables).create args := by
  unfold insertSession at h
  rw [Tx.alone_bind_ok (Tx.alone_collect (fun found => alone_lockJoined _ d id found) found),
    Tx.alone_bind_ok (Tx.alone_each (fun row pending => alone_evict args.now row d pending) _ _)]
    at h
  change Tx.alone d _ (reserve _ _ >>= _) = _ at h
  obtain ⟨_, _, hreserve, hrest⟩ := Tx.alone_bind_eq_ok h
  obtain ⟨hfree, hpending⟩ := alone_reserve hreserve
  obtain rfl := Except.ok.inj hrest
  refine ⟨free_of_entries hfree, rfl, ?_⟩
  rw [Prod.mk.injEq] at hpending
  rw [hpending.2]
  exact congrArg (SessionTables.create args) (sessionTables_foldl _ _ _)

end Created

section Rotated

variable {args : RotateArgs} {d : Db}

/-- The locked token, session and family of a presented hash. -/
structure Presented (args : RotateArgs) (T : SessionTables) (found : TokenMatch)
    (token : RefreshToken) (row : Locked) : Prop where
  known : T.tokens.get found.tokenId = some token
  hash : token.tokenHash = args.tokenHash
  tokenFamily : token.familyId = found.familyId
  stored : Stored row T
  session : row.sessionId = found.sessionId
  sessionFamily : row.session.familyId = found.familyId

/-- What a rotation answers and what it does to the tables. -/
inductive Rotation (args : RotateArgs) (T : SessionTables) :
    Option TokenMatch → RotationResult → SessionTables → Prop
  | unknown : Rotation args T none ⟨.invalid, none, none⟩ T
  | lost {found : TokenMatch} : (∀ token row, ¬Presented args T found token row) →
      Rotation args T (some found) ⟨.invalid, none, none⟩ T
  | reused {found : TokenMatch} {token : RefreshToken} {row : Locked} :
      Presented args T found token row → token.usedAt.isSome →
      Rotation args T (some found) ⟨.reused, none, some (revocation row)⟩
        (revokedRow args.now "token_reuse" row T)
  | revoked {found : TokenMatch} {token : RefreshToken} {row : Locked} :
      Presented args T found token row → token.usedAt = none →
      Rotation args T (some found) ⟨.invalid, none, none⟩ T
  | ended {found : TokenMatch} {token : RefreshToken} {row : Locked} {status : RotationStatus}
      {reason : String} :
      Presented args T found token row → token.usedAt = none →
      status ≠ .rotated → status ≠ .reused →
      Rotation args T (some found) ⟨status, none, some (revocation row)⟩
        (revokedRow args.now reason row T)
  | rotated {found : TokenMatch} {token : RefreshToken} {row : Locked} :
      Presented args T found token row →
      SessionTables.Rotatable T found.tokenId token row.family →
      row.session.revokedAt = none →
      (∀ k t, T.tokens.get k = some t → t.tokenHash ≠ args.replacementHash) →
      Rotation args T (some found)
        ⟨.rotated, some (record row.sessionId (rotatedSession args row.session)),
          some (revocation row)⟩
        ((T.renew args found.tokenId token row.family).scope row.sessionId none
          args.newAccessJti args.now)

theorem rotation_of_rotateLocked {found : TokenMatch} {token : RefreshToken} {row : Locked}
    {result : RotationResult × (Db → Db)}
    (hpresented : Presented args d.sessionTables found token row)
    (h : (rotateLocked args found.tokenId token row).alone d id = .ok result) :
    Rotation args d.sessionTables (some found) result.1 (result.2 d).sessionTables := by
  unfold rotateLocked at h
  split at h
  · rename_i hused
    rw [Tx.alone_bind_ok (alone_revokeLocked _ _ _ _ _)] at h
    obtain rfl := Except.ok.inj h
    exact .reused hpresented hused
  · rename_i hused
    have hunused : token.usedAt = none := by simpa using hused
    split at h
    · obtain rfl := Except.ok.inj h
      exact .revoked hpresented hunused
    · rename_i hactive
      split at h
      · rw [Tx.alone_bind_ok (alone_revokeLocked _ _ _ _ _)] at h
        obtain rfl := Except.ok.inj h
        exact .ended hpresented hunused (by decide) (by decide)
      · split at h
        · rw [Tx.alone_bind_ok (alone_revokeLocked _ _ _ _ _)] at h
          obtain rfl := Except.ok.inj h
          exact .ended hpresented hunused (by decide) (by decide)
        · change Tx.alone d _ (reserve _ _ >>= _) = _ at h
          obtain ⟨_, _, hreserve, hrest⟩ := Tx.alone_bind_eq_ok h
          obtain ⟨hfree, hpending⟩ := alone_reserve hreserve
          rw [Prod.mk.injEq] at hpending
          obtain rfl := Except.ok.inj hrest
          simp only [Bool.or_eq_true, not_or, Option.not_isSome_iff_eq_none] at hactive
          rw [hpending.2]
          refine .rotated hpresented ⟨hpresented.known, ?_, hunused, hactive.1.1, hactive.1.2⟩
            hactive.2 (free_of_entries hfree)
          rw [hpresented.tokenFamily, ← hpresented.sessionFamily]
          exact hpresented.stored.family

theorem rotation_of_rotateMatch {found : Option TokenMatch} {result : RotationResult × (Db → Db)}
    (h : (rotateMatch args found).alone d id = .ok result) :
    Rotation args d.sessionTables found result.1 (result.2 d).sessionTables := by
  cases found with
  | none =>
      obtain rfl := Except.ok.inj h
      exact .unknown
  | some found =>
      rw [rotateMatch_alone] at h
      split at h
      · rename_i k token family session hfind hfamily hsession
        obtain ⟨_, htoken, hmine⟩ := Table.find?_select.mp hfind
        have hmine : token.familyId = found.familyId := by simpa using hmine
        split at h
        · rename_i hmatch
          simp only [Bool.and_eq_true, beq_iff_eq] at hmatch
          have hstored : Stored ⟨found.sessionId, session, family⟩ d.sessionTables :=
            ⟨hsession, by rw [hmatch.2]; exact hfamily⟩
          exact rotation_of_rotateLocked ⟨htoken, hmatch.1, hmine, hstored, rfl, hmatch.2⟩ h
        · rename_i hmatch
          obtain rfl := Except.ok.inj h
          refine .lost fun token' row hpresented => hmatch ?_
          have htoken' : token' = token := Option.some.inj (hpresented.known.symm.trans htoken)
          have hsession' := hpresented.stored.session
          rw [hpresented.session] at hsession'
          have hrow : row.session = session := Option.some.inj (hsession'.symm.trans hsession)
          simp [← htoken', ← hrow, hpresented.hash, hpresented.sessionFamily]
      · rename_i hnone
        obtain rfl := Except.ok.inj h
        refine .lost fun token row hpresented => ?_
        have hfamily := hpresented.stored.family
        rw [hpresented.sessionFamily] at hfamily
        have hsession := hpresented.stored.session
        rw [hpresented.session] at hsession
        refine hnone found.tokenId token row.family row.session ?_ hfamily hsession
        exact Table.find?_select.mpr ⟨rfl, hpresented.known, by simpa using hpresented.tokenFamily⟩

end Rotated

section Others

variable {d : Db}

theorem alone_revokeMatch {args : RevokeArgs} {found : Option SessionMatch}
    {result : Option RevocationResult × (Db → Db)}
    (h : (revokeMatch args found).alone d id = .ok result) :
    result.1 = none ∧ (result.2 d).sessionTables = d.sessionTables ∨
      ∃ row, Stored row d.sessionTables ∧ row.session.userId = args.userId ∧
        result.1 = some (revocation row) ∧
        (result.2 d).sessionTables = revokedRow args.now args.reason row d.sessionTables := by
  cases found with
  | none =>
      obtain rfl := Except.ok.inj h
      exact Or.inl ⟨rfl, rfl⟩
  | some found =>
      unfold revokeMatch at h
      rw [Tx.alone_bind_ok (alone_lockJoined _ _ _ _)] at h
      cases hlocked : lockedRow (fun session _ => session.userId == args.userId) d found with
      | none =>
          rw [hlocked] at h
          obtain rfl := Except.ok.inj h
          exact Or.inl ⟨rfl, rfl⟩
      | some row =>
          rw [hlocked] at h
          obtain ⟨hstored, huser, _⟩ := lockedRow_eq_some hlocked
          dsimp only at h
          rw [Tx.alone_bind_ok (alone_revokeLocked _ _ _ _ _)] at h
          obtain rfl := Except.ok.inj h
          exact Or.inr ⟨row, hstored, by simpa using huser, rfl, rfl⟩

/-- The sessions that a mass revocation locks. -/
def revocable (args : RevokeAllArgs) (found : List SessionMatch) (d : Db) : List Locked :=
  found.filterMap (lockedRow (unrevoked args.userId) d)

theorem alone_revokeMatches {args : RevokeAllArgs} {found : List SessionMatch}
    {result : List RevocationResult × (Db → Db)}
    (h : (revokeMatches args found).alone d id = .ok result) :
    result.1 = (revocable args found d).map revocation ∧
      (result.2 d).sessionTables = (revocable args found d).foldl
        (fun T row => revokedRow args.now args.reason row T) d.sessionTables := by
  unfold revokeMatches at h
  rw [Tx.alone_bind_ok (Tx.alone_collect (fun found => alone_lockJoined _ d id found) found),
    Tx.alone_bind_ok (Tx.alone_each (fun row pending =>
      alone_revokeLocked row args.now args.reason d pending) _ _)] at h
  obtain rfl := Except.ok.inj h
  exact ⟨rfl, sessionTables_foldl _ _ _⟩

theorem alone_scopeMatch {args : ScopeArgs} {found : Option SessionMatch}
    {result : Option Uuid × (Db → Db)}
    (h : (scopeMatch args found).alone d id = .ok result) :
    result.1 = none ∧ (result.2 d).sessionTables = d.sessionTables ∨
      ∃ row, Stored row d.sessionTables ∧ scopable args row.session row.family = true ∧
        found.map (·.sessionId) = some row.sessionId ∧
        result.1 = some row.session.accessJti ∧
        (result.2 d).sessionTables =
          d.sessionTables.scope row.sessionId (some args.workspaceId) args.accessJti args.now := by
  cases found with
  | none =>
      obtain rfl := Except.ok.inj h
      exact Or.inl ⟨rfl, rfl⟩
  | some found =>
      unfold scopeMatch at h
      rw [Tx.alone_bind_ok (alone_lockJoined _ _ _ _)] at h
      cases hlocked : lockedRow (scopable args) d found with
      | none =>
          rw [hlocked] at h
          obtain rfl := Except.ok.inj h
          exact Or.inl ⟨rfl, rfl⟩
      | some row =>
          rw [hlocked] at h
          obtain ⟨hstored, hscopable, hsession, _⟩ := lockedRow_eq_some hlocked
          obtain rfl := Except.ok.inj h
          exact Or.inr ⟨row, hstored, hscopable, by rw [hsession]; rfl, rfl, rfl⟩

/-- The sessions an offboarding finds in the workspace, with their access
tokens. -/
def scopedRow (args : MemberArgs) (d : Db) (id : Uuid) : Option (Uuid × Uuid) :=
  match d.sessions.get id with
  | none => none
  | some row =>
      if row.userId == args.member && row.orgId == some args.workspace &&
          row.revokedAt.isNone then
        some (id, row.accessJti)
      else
        none

theorem alone_lockScoped (args : MemberArgs) (d : Db) (pending : Db → Db) (id : Uuid) :
    (WorkspaceRepository.lockScoped args id).alone d pending =
      .ok (scopedRow args d id, pending) := by
  change Tx.alone d pending
    (match d.sessions.get id with
      | none => return none
      | some row =>
          if row.userId == args.member && row.orgId == some args.workspace &&
              row.revokedAt.isNone then
            return some (id, row.accessJti)
          else
            return none : Trans (Option (Uuid × Uuid))) = _
  unfold scopedRow
  cases d.sessions.get id with
  | none => rfl
  | some row =>
      dsimp only
      split
      · rfl
      · rfl

/-- The changes of scope of an offboarding, on the tables. -/
def unscoped (args : MemberArgs) (sessions : List Uuid) (d : Db) (T : SessionTables) :
    SessionTables :=
  (WorkspaceRepository.renamed args.call (sessions.filterMap (scopedRow args d))).foldl
    (fun T entry => T.scope entry.1.1 none entry.2 args.now) T

theorem alone_unscopeAll {args : MemberArgs} {sessions : List Uuid} {pending : Db → Db}
    {result : List Uuid × (Db → Db)}
    (h : (WorkspaceRepository.unscopeAll args sessions).alone d pending = .ok result) :
    result.1 = (sessions.filterMap (scopedRow args d)).map Prod.snd ∧
      ∀ d', (result.2 d').sessionTables = unscoped args sessions d (pending d').sessionTables := by
  unfold WorkspaceRepository.unscopeAll at h
  rw [Tx.alone_bind_ok (Tx.alone_collect (fun id => alone_lockScoped args d pending id) sessions),
    Tx.alone_bind_ok (Tx.alone_each (fun entry pending' => (rfl :
      (WorkspaceRepository.unscope args entry).alone d pending' =
        .ok ((), Db.onSessions (SessionTables.scope entry.1.1 none entry.2 args.now) ∘ pending'))) _
      _)] at h
  obtain rfl := Except.ok.inj h
  refine ⟨rfl, fun d' => ?_⟩
  exact sessionTables_foldl (fun entry : (Uuid × Uuid) × Uuid =>
    SessionTables.scope entry.1.1 none entry.2 args.now) _ _

theorem alone_offboardWrites {args : MemberArgs} {departure : Departure}
    {result : List Uuid × (Db → Db)}
    (h : (offboardWrites args departure).alone d id = .ok result) :
    result.1 = (departure.sessions.filterMap (scopedRow args d)).map Prod.snd ∧
      (result.2 d).sessionTables = unscoped args departure.sessions d d.sessionTables := by
  unfold offboardWrites at h
  obtain ⟨_, pending, hrevoke, h⟩ := Tx.alone_bind_eq_ok h
  obtain ⟨_, _, hunscope, h⟩ := Tx.alone_bind_eq_ok h
  obtain ⟨hjtis, htables⟩ := alone_unscopeAll hunscope
  obtain rfl := Except.ok.inj h
  refine ⟨hjtis, (htables d).trans ?_⟩
  have hkeeps : (Tx.collect (WorkspaceRepository.revokeBinding args.member args.workspace
      args.now) departure.found).Guarantees (Tx.Keeps Db.sessionTables) :=
    Tx.guarantees_collect (guarantees_revokeBinding fun _ _ _ _ _ => rfl) _
  rw [Tx.keeps_of_reflTransGen (hkeeps.alone hrevoke d)]
  rfl

/-- The families of the user among those an erasure finds. -/
def erasable (user : Uuid) (d : Db) (f : Uuid) : Bool :=
  match d.families.get f with
  | none => false
  | some row => row.userId == user

/-- What the deletion of a family does to the database. -/
def deletedFamily (user : Uuid) (d : Db) (f : Uuid) (d' : Db) : Db :=
  if erasable user d f then (DbChange.deleteFamily f (d.familyView f)).apply d' else d'

theorem alone_deleteFamily (user : Uuid) (d : Db) (f : Uuid) (pending : Db → Db) :
    (PrivacyRepository.deleteFamily user f).alone d pending =
      .ok ((), deletedFamily user d f ∘ pending) := by
  change Tx.alone d pending
    (match d.families.get f with
      | none => return ()
      | some row =>
          if row.userId == user then
            write (DbChange.deleteFamily f (d.familyView f))
          else
            return () : Trans Unit) = _
  unfold deletedFamily erasable
  cases d.families.get f with
  | none => rfl
  | some row =>
      dsimp only
      split
      · rfl
      · rfl

/-- The cascade deletes everything of the family, since whatever is left of it
was there when the family was locked. -/
theorem sessionTables_deletedFamily {user f : Uuid} {d d' : Db}
    (htokens : ∀ k t, d'.tokens.get k = some t → d.tokens.get k = some t)
    (hsessions : ∀ k s, d'.sessions.get k = some s → d.sessions.get k = some s) :
    (deletedFamily user d f d').sessionTables =
      if erasable user d f then d'.sessionTables.delete f else d'.sessionTables := by
  unfold deletedFamily
  split
  · simp only [Db.sessionTables, DbChange.deleteFamily, SessionTables.delete,
      SessionTables.mk.injEq, true_and]
    constructor
    · refine Table.delete_congr fun k t hget => ?_
      by_cases hf : t.familyId = f
      · have hmem : (k, t) ∈ d.tokens.select fun _ t => t.familyId == f :=
          Table.mem_select.mpr ⟨htokens k t hget, by simpa using hf⟩
        have hhash : t.tokenHash ∈ (d.familyView f).tokens.map fun entry => entry.2.tokenHash :=
          List.mem_map.mpr ⟨(k, t), hmem, rfl⟩
        simp only [hf, beq_self_eq_true, Bool.true_and]
        exact List.contains_iff_mem.mpr hhash
      · simp [hf]
    · refine Table.delete_congr fun k s hget => ?_
      by_cases hf : s.familyId = f
      · have hmem : k ∈ (d.familyView f).sessions :=
          List.mem_map.mpr ⟨(k, s), Table.mem_select.mpr
            ⟨hsessions k s hget, by simpa using hf⟩, rfl⟩
        simp only [hf, beq_self_eq_true, Bool.true_and]
        exact List.contains_iff_mem.mpr hmem
      · simp [hf]
  · rfl

theorem sessionTables_deletedFamilies {user : Uuid} {d : Db} (found : List Uuid) {d' : Db}
    (htokens : ∀ k t, d'.tokens.get k = some t → d.tokens.get k = some t)
    (hsessions : ∀ k s, d'.sessions.get k = some s → d.sessions.get k = some s) :
    (found.foldl (fun d' f => deletedFamily user d f d') d').sessionTables =
      found.foldl (fun T f => if erasable user d f then T.delete f else T) d'.sessionTables := by
  induction found generalizing d' with
  | nil => rfl
  | cons f rest ih =>
      have hstep : (deletedFamily user d f d').sessionTables =
          if erasable user d f then d'.sessionTables.delete f else d'.sessionTables :=
        sessionTables_deletedFamily htokens hsessions
      simp only [List.foldl_cons]
      rw [ih, hstep]
      · intro k t hget
        refine htokens k t ?_
        have hget' : (deletedFamily user d f d').sessionTables.tokens.get k = some t := hget
        rw [hstep] at hget'
        split at hget'
        · exact (Table.get_delete_eq_some.mp hget').1
        · exact hget'
      · intro k s hget
        refine hsessions k s ?_
        have hget' : (deletedFamily user d f d').sessionTables.sessions.get k = some s := hget
        rw [hstep] at hget'
        split at hget'
        · exact (Table.get_delete_eq_some.mp hget').1
        · exact hget'

theorem alone_eraseWrites {args : ErasureArgs} {email : Option String} {found : ErasureFound}
    {result : Unit × (Db → Db)} (h : (eraseWrites args email found).alone d id = .ok result) :
    (result.2 d).sessionTables = found.families.foldl
      (fun T f => if erasable args.userId d f then T.delete f else T) d.sessionTables := by
  unfold eraseWrites at h
  have hkeeps : ∀ {body : Trans Unit} {pending : Db → Db} {r : Unit × (Db → Db)},
      body.Guarantees (Tx.Keeps Db.sessionTables) → body.alone d pending = .ok r →
      (r.2 d).sessionTables = (pending d).sessionTables :=
    fun hbody halone => Tx.keeps_of_reflTransGen (hbody.alone halone d)
  obtain ⟨_, p₀, h₀, h⟩ := Tx.alone_bind_eq_ok h
  obtain ⟨_, p₁, h₁, h⟩ := Tx.alone_bind_eq_ok h
  obtain ⟨_, p₂, h₂, h⟩ := Tx.alone_bind_eq_ok h
  obtain ⟨_, p₃, h₃, h⟩ := Tx.alone_bind_eq_ok h
  obtain ⟨_, p₄, h₄, h⟩ := Tx.alone_bind_eq_ok h
  obtain ⟨_, p₅, h₅, h⟩ := Tx.alone_bind_eq_ok h
  obtain ⟨_, p₆, h₆, h⟩ := Tx.alone_bind_eq_ok h
  obtain ⟨_, p₇, h₇, h⟩ := Tx.alone_bind_eq_ok h
  obtain ⟨_, p₈, h₈, h⟩ := Tx.alone_bind_eq_ok h
  obtain ⟨_, p₉, h₉, h₁₀⟩ := Tx.alone_bind_eq_ok h
  have hrequests : ErasingRequests (Tx.Keeps Db.sessionTables) args.userId :=
    ⟨fun _ _ => rfl, fun _ _ _ _ => rfl, fun _ _ => rfl, fun _ _ _ _ => rfl⟩
  have hstaff : (write (DbChange.deleteStaffRoles args.userId)).Guarantees
      (Tx.Keeps Db.sessionTables) := guarantees_write fun _ => rfl
  have hreferrals : (PrivacyRepository.eraseReferrals args.userId args.pseudonym).Guarantees
      (Tx.Keeps Db.sessionTables) := ⟨fun _ => rfl, fun _ => rfl, trivial⟩
  have hfinish : (PrivacyRepository.finishErasure args email found.requests.phone).Guarantees
      (Tx.Keeps Db.sessionTables) := ⟨fun _ => rfl, fun _ => rfl, fun _ => rfl, trivial⟩
  have hbefore : (p₅ d).sessionTables = d.sessionTables :=
    calc (p₅ d).sessionTables
        = (p₄ d).sessionTables :=
          hkeeps (Tx.guarantees_each (guarantees_deleteIdentity fun _ _ _ _ => rfl) _) h₅
      _ = (p₃ d).sessionTables :=
          hkeeps (Tx.guarantees_each (guarantees_deleteBinding fun _ _ _ _ => rfl) _) h₄
      _ = (p₂ d).sessionTables := hkeeps hstaff h₃
      _ = (p₁ d).sessionTables :=
          hkeeps (Tx.guarantees_each (guarantees_deleteDevice fun _ _ _ _ => rfl) _) h₂
      _ = (p₀ d).sessionTables :=
          hkeeps (Tx.guarantees_each (guarantees_deleteFactor fun _ _ _ => rfl) _) h₁
      _ = d.sessionTables := hkeeps (guarantees_eraseRequestWrites hrequests _) h₀
  have hafter : (result.2 d).sessionTables = (p₆ d).sessionTables :=
    calc (result.2 d).sessionTables
        = (p₉ d).sessionTables := hkeeps hfinish h₁₀
      _ = (p₈ d).sessionTables :=
          hkeeps (Tx.guarantees_each (guarantees_closePersonal (fun _ _ _ => rfl) _) _) h₉
      _ = (p₇ d).sessionTables :=
          hkeeps (Tx.guarantees_each (guarantees_withdrawInvitation (fun _ _ _ => rfl) _ _) _) h₈
      _ = (p₆ d).sessionTables := hkeeps hreferrals h₇
  rw [Tx.alone_each (fun f pending => alone_deleteFamily args.userId d f pending)] at h₆
  obtain ⟨rfl, rfl⟩ := Prod.mk.inj (Except.ok.inj h₆)
  rw [hafter, sessionTables_deletedFamilies, hbefore]
  · intro k t hget
    have hget' : (p₅ d).sessionTables.tokens.get k = some t := hget
    rwa [hbefore] at hget'
  · intro k s hget
    have hget' : (p₅ d).sessionTables.sessions.get k = some s := hget
    rwa [hbefore] at hget'

end Others

end AuthCore
