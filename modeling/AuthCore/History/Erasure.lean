/-
The writes of an erasure: what each of its statements may do to the database,
and the statements one after the other.
-/
import AuthCore.History.Steps

namespace AuthCore

open Interleave Relational PrivacyRepository

/-- The identities and the families of refresh tokens. -/
def Db.accessTables (d : Db) : Table Uuid Identity × Table Uuid RefreshTokenFamily :=
  (d.identities, d.families)

/-- The same with the factors and their credentials. -/
def Db.credentialTables (d : Db) : (Table Uuid MFADevice × Table String WebAuthnCredential) ×
    (Table Uuid Identity × Table Uuid RefreshTokenFamily) :=
  ((d.mfaDevices, d.credentials), d.accessTables)

/-- The first writes of an erasure: artifacts go, exports are cancelled, open
requests and mailed tokens go. -/
structure ErasingRequests (R : Db → Db → Prop) (user : Uuid) : Prop where
  artifacts : ∀ d requests, R d ((DbChange.deleteArtifacts user requests).apply d)
  «export» : ∀ d id huser hkey, R d ((DbChange.setExport id (fun row =>
    { row with state := .cancelled, artifactReference := none, artifactExpiresAt := none })
    huser hkey).apply d)
  contactChange : ∀ d id, R d ((DbChange.deleteContactChange user id).apply d)
  mailed : ∀ d id row, row.userId = user → R d ((DbChange.deleteMailed id row).apply d)

/-- The writes of an erasure are deletions of rows of the user, the withdrawal
of invitations, the closing of personal workspaces and the notes at the end. -/
structure Erasing (R : Db → Db → Prop) (user : Uuid) : Prop extends ErasingRequests R user where
  factor : ∀ d id credentials, R d ((DbChange.deleteFactor id credentials).apply d)
  device : ∀ d id row, row.userId = user → R d ((DbChange.deleteDevice id row).apply d)
  staff : ∀ d, R d ((DbChange.deleteStaffRoles user).apply d)
  binding : ∀ d id row, row.userId = user → R d ((DbChange.deleteBinding id row).apply d)
  identity : ∀ d id row, row.userId = user → R d ((DbChange.deleteIdentity id row).apply d)
  family : ∀ d id view, R d ((DbChange.deleteFamily id view).apply d)
  referrals : ∀ d, R d ((DbChange.deleteReferrals user).apply d)
  referred : ∀ d address, R d ((DbChange.withdrawReferred user address).apply d)
  invitation : ∀ d id address, R d ((DbChange.setInvitation id fun row =>
    { row with inviteeEmail := address, state := .revoked }).apply d)
  organization : ∀ d id slug, R d ((DbChange.setOrganization id fun row =>
    { row with name := "Anonymized Portfolio", slug := slug, state := .closed }).apply d)
  user : ∀ d email phone now, R d ((DbChange.anonymizeUser user email phone now).apply d)
  request : ∀ d id g huser hkey, R d ((DbChange.setRequest id g huser hkey).apply d)
  audit : ∀ d entry, R d ((DbChange.addAudit entry).apply d)

variable {R : Db → Db → Prop} {user : Uuid}

theorem guarantees_deleteFactor
    (h : ∀ d id credentials, R d ((DbChange.deleteFactor id credentials).apply d))
    (found : Uuid × List String) : (deleteFactor user found).Guarantees R := by
  refine (guarantees_lockRow _ _).bind fun row => ?_
  split
  · trivial
  · split
    · exact guarantees_write fun d => h d _ _
    · trivial

theorem guarantees_deleteDevice
    (h : ∀ d id row, row.userId = user → R d ((DbChange.deleteDevice id row).apply d)) (id : Uuid) :
    (deleteDevice user id).Guarantees R := by
  refine (guarantees_lockRow _ _).bind fun row => ?_
  split
  · trivial
  · split
    · rename_i hrow
      exact guarantees_write fun d => h d _ _ (by simpa using hrow)
    · trivial

theorem guarantees_deleteBinding
    (h : ∀ d id row, row.userId = user → R d ((DbChange.deleteBinding id row).apply d))
    (id : Uuid) : (deleteBinding user id).Guarantees R := by
  refine (guarantees_lockRow _ _).bind fun row => ?_
  split
  · trivial
  · split
    · rename_i hrow
      exact guarantees_write fun d => h d _ _ (by simpa using hrow)
    · trivial

theorem guarantees_deleteIdentity
    (h : ∀ d id row, row.userId = user → R d ((DbChange.deleteIdentity id row).apply d))
    (id : Uuid) : (deleteIdentity user id).Guarantees R := by
  refine (guarantees_lockRow _ _).bind fun row => ?_
  split
  · trivial
  · split
    · rename_i hrow
      exact guarantees_write fun d => h d _ _ (by simpa using hrow)
    · trivial

theorem guarantees_deleteFamily
    (h : ∀ d id view, R d ((DbChange.deleteFamily id view).apply d)) (id : Uuid) :
    (deleteFamily user id).Guarantees R := by
  refine (guarantees_lockRow _ _).bind fun view => ?_
  dsimp only
  split
  · trivial
  · split
    · exact guarantees_write fun d => h d _ _
    · trivial

theorem guarantees_eraseReferrals (h : ∀ d, R d ((DbChange.deleteReferrals user).apply d))
    (hreferred : ∀ d address, R d ((DbChange.withdrawReferred user address).apply d))
    (pseudonym : String) : (eraseReferrals user pseudonym).Guarantees R :=
  ⟨h, fun d => hreferred d _, trivial⟩

theorem guarantees_withdrawInvitation
    (h : ∀ d id address, R d ((DbChange.setInvitation id fun row =>
      { row with inviteeEmail := address, state := .revoked }).apply d)) (email pseudonym : String)
    (id : Uuid) : (withdrawInvitation email pseudonym id).Guarantees R := by
  refine (guarantees_lockRow _ _).bind fun row => ?_
  split
  · trivial
  · split
    · exact guarantees_write fun d => h d _ _
    · trivial

theorem guarantees_closePersonal
    (h : ∀ d id slug, R d ((DbChange.setOrganization id fun row =>
      { row with name := "Anonymized Portfolio", slug := slug, state := .closed }).apply d))
    (pseudonym : String) (id : Uuid) : (closePersonal user pseudonym id).Guarantees R := by
  refine (guarantees_lockRow _ _).bind fun row => ?_
  split
  · trivial
  · split
    · exact guarantees_write fun d => h d _ _
    · trivial

theorem guarantees_cancelExport
    (h : ∀ d id huser hkey, R d ((DbChange.setExport id (fun row =>
      { row with state := .cancelled, artifactReference := none, artifactExpiresAt := none })
      huser hkey).apply d)) (id : Uuid) : (cancelExport user id).Guarantees R := by
  refine (guarantees_lockRow _ _).bind fun row => ?_
  split
  · trivial
  · split
    · exact guarantees_write fun d => h d _ _ _
    · trivial

theorem guarantees_deleteContactChange
    (h : ∀ d id, R d ((DbChange.deleteContactChange user id).apply d)) (id : Uuid) :
    (deleteContactChange user id).Guarantees R := by
  refine (guarantees_lockRow _ _).bind fun row => ?_
  split
  · trivial
  · split
    · exact guarantees_write fun d => h d _
    · trivial

theorem guarantees_deleteMailed
    (h : ∀ d id row, row.userId = user → R d ((DbChange.deleteMailed id row).apply d))
    (id : Uuid) : (deleteMailed user id).Guarantees R := by
  refine (guarantees_lockRow _ _).bind fun row => ?_
  split
  · trivial
  · split
    · rename_i hrow
      exact guarantees_write fun d => h d _ _ (by simpa using hrow)
    · trivial

theorem guarantees_eraseRequestWrites (h : ErasingRequests R user) (found : RequestsFound) :
    (eraseRequestWrites user found).Guarantees R := by
  refine (guarantees_write fun d => h.artifacts d _).bind fun _ => ?_
  refine (Tx.guarantees_each (guarantees_cancelExport h.export) _).bind fun _ => ?_
  refine (Tx.guarantees_each (guarantees_deleteContactChange h.contactChange) _).bind fun _ => ?_
  exact Tx.guarantees_each (guarantees_deleteMailed h.mailed) _

theorem guarantees_finishErasure {args : ErasureArgs} (h : Erasing R args.userId)
    (email phone : Option String) : (finishErasure args email phone).Guarantees R :=
  ⟨fun d => h.user d _ _ _, fun d => h.request d _ _ _ _, fun d => h.audit d _, trivial⟩

theorem guarantees_eraseWrites {args : ErasureArgs} (h : Erasing R args.userId)
    (email : Option String) (found : ErasureFound) :
    (eraseWrites args email found).Guarantees R := by
  refine (guarantees_eraseRequestWrites h.toErasingRequests _).bind fun _ => ?_
  refine (Tx.guarantees_each (guarantees_deleteFactor h.factor) _).bind fun _ => ?_
  refine (Tx.guarantees_each (guarantees_deleteDevice h.device) _).bind fun _ => ?_
  refine (guarantees_write h.staff).bind fun _ => ?_
  refine (Tx.guarantees_each (guarantees_deleteBinding h.binding) _).bind fun _ => ?_
  refine (Tx.guarantees_each (guarantees_deleteIdentity h.identity) _).bind fun _ => ?_
  refine (Tx.guarantees_each (guarantees_deleteFamily h.family) _).bind fun _ => ?_
  refine (guarantees_eraseReferrals h.referrals h.referred _).bind fun _ => ?_
  refine (Tx.guarantees_each (guarantees_withdrawInvitation h.invitation _ _) _).bind fun _ => ?_
  refine (Tx.guarantees_each (guarantees_closePersonal h.organization _) _).bind fun _ => ?_
  exact guarantees_finishErasure h email _

/-- The erasure of an account. -/
def Event.erases (user : Uuid) : Event → Bool
  | account (.erased args (.erased ..) _) => args.userId == user
  | _ => false

theorem Event.eq_of_erases {e : Event} (h : e.erases user = true) :
    ∃ args email found result, e = .account (.erased args (.erased email found) result) ∧
      args.userId = user := by
  unfold Event.erases at h
  split at h
  · exact ⟨_, _, _, _, rfl, by simpa using h⟩
  · cases h

/-- The pieces of an erasure. -/
def eraseParts (args : ErasureArgs) (email : Option String) (found : ErasureFound) :
    List (Trans Unit) :=
  [write (DbChange.deleteArtifacts args.userId found.requests.artifacts)] ++
    (found.requests.exports.map (cancelExport args.userId) ++
    (found.requests.contactChanges.map (deleteContactChange args.userId) ++
    (found.requests.mailed.map (deleteMailed args.userId) ++
    (found.factors.map (deleteFactor args.userId) ++
    (found.devices.map (deleteDevice args.userId) ++
    ([write (DbChange.deleteStaffRoles args.userId)] ++
    (found.bindings.map (deleteBinding args.userId) ++
    (found.identities.map (deleteIdentity args.userId) ++
    (found.families.map (deleteFamily args.userId) ++
    ([eraseReferrals args.userId args.pseudonym] ++
    (found.invitations.map (withdrawInvitation (email.getD "") args.pseudonym) ++
    (found.organizations.map (closePersonal args.userId args.pseudonym) ++
      [finishErasure args email found.requests.phone]))))))))))))

theorem sequence_eraseWrites {args : ErasureArgs} {email : Option String} {found : ErasureFound}
    {d : Db} {result : Unit × (Db → Db)}
    (h : (eraseWrites args email found).alone d id = .ok result) :
    Tx.Sequence d (eraseParts args email found) id result.2 := by
  unfold eraseWrites eraseRequestWrites at h
  obtain ⟨_, _, hrequests, h⟩ := Tx.alone_bind_eq_ok h
  obtain ⟨_, _, hartifacts, hrequests⟩ := Tx.alone_bind_eq_ok hrequests
  obtain ⟨_, _, hexports, hrequests⟩ := Tx.alone_bind_eq_ok hrequests
  obtain ⟨_, _, hchanges, hmailed⟩ := Tx.alone_bind_eq_ok hrequests
  obtain ⟨_, _, hfactors, h⟩ := Tx.alone_bind_eq_ok h
  obtain ⟨_, _, hdevices, h⟩ := Tx.alone_bind_eq_ok h
  obtain ⟨_, _, hstaff, h⟩ := Tx.alone_bind_eq_ok h
  obtain ⟨_, _, hbindings, h⟩ := Tx.alone_bind_eq_ok h
  obtain ⟨_, _, hidentities, h⟩ := Tx.alone_bind_eq_ok h
  obtain ⟨_, _, hfamilies, h⟩ := Tx.alone_bind_eq_ok h
  obtain ⟨_, _, hreferrals, h⟩ := Tx.alone_bind_eq_ok h
  obtain ⟨_, _, hinvitations, h⟩ := Tx.alone_bind_eq_ok h
  obtain ⟨_, _, horganizations, hfinish⟩ := Tx.alone_bind_eq_ok h
  exact (Tx.Sequence.single hartifacts).append ((Tx.Sequence.each hexports).append
    ((Tx.Sequence.each hchanges).append ((Tx.Sequence.each hmailed).append
    ((Tx.Sequence.each hfactors).append ((Tx.Sequence.each hdevices).append
    ((Tx.Sequence.single hstaff).append ((Tx.Sequence.each hbindings).append
    ((Tx.Sequence.each hidentities).append ((Tx.Sequence.each hfamilies).append
    ((Tx.Sequence.single hreferrals).append
    ((Tx.Sequence.each hinvitations).append ((Tx.Sequence.each horganizations).append
    (Tx.Sequence.single hfinish)))))))))))))

theorem guarantees_eraseParts {args : ErasureArgs} (h : Erasing R args.userId)
    {email : Option String} {found : ErasureFound} {part : Trans Unit}
    (hpart : part ∈ eraseParts args email found) : part.Guarantees R := by
  simp only [eraseParts, List.mem_append, List.mem_map, List.mem_singleton] at hpart
  rcases hpart with rfl | ⟨_, _, rfl⟩ | ⟨_, _, rfl⟩ | ⟨_, _, rfl⟩ | ⟨_, _, rfl⟩ | ⟨_, _, rfl⟩ |
    rfl | ⟨_, _, rfl⟩ | ⟨_, _, rfl⟩ | ⟨_, _, rfl⟩ | rfl | ⟨_, _, rfl⟩ | ⟨_, _, rfl⟩ | rfl
  · exact guarantees_write fun d => h.artifacts d _
  · exact guarantees_cancelExport h.export _
  · exact guarantees_deleteContactChange h.contactChange _
  · exact guarantees_deleteMailed h.mailed _
  · exact guarantees_deleteFactor h.factor _
  · exact guarantees_deleteDevice h.device _
  · exact guarantees_write h.staff
  · exact guarantees_deleteBinding h.binding _
  · exact guarantees_deleteIdentity h.identity _
  · exact guarantees_deleteFamily h.family _
  · exact guarantees_eraseReferrals h.referrals h.referred _
  · exact guarantees_withdrawInvitation h.invitation _ _ _
  · exact guarantees_closePersonal h.organization _ _
  · exact guarantees_finishErasure h email _

/-- One piece of an erasure that has committed, with what the pieces before and
after it do. -/
theorem erasure_at {args : ErasureArgs} {email : Option String} {found : ErasureFound}
    {d : Db} {result : Unit × (Db → Db)}
    (h : (eraseWrites args email found).alone d id = .ok result) {part : Trans Unit}
    (hpart : part ∈ eraseParts args email found) :
    ∃ before after, part.alone d before = .ok ((), after) ∧ ∀ R : Db → Db → Prop,
      Erasing R args.userId → Relation.ReflTransGen R d (before d) ∧
        Relation.ReflTransGen R (after d) (result.2 d) := by
  obtain ⟨before, after, halone, hsteps⟩ := (sequence_eraseWrites h).at hpart
  exact ⟨before, after, halone, fun R hR => hsteps R (fun _ => guarantees_eraseParts hR) d⟩

end AuthCore
