/-
The statements that change a table, each with the rows it locks.  A change of
one table leaves the view of every other row alone.
-/
import AuthCore.Model.Schema

namespace AuthCore

open Interleave Relational

abbrev DbChange := Change schema

namespace DbChange

def addAudit (entry : AuditLog) : DbChange where
  rows := []
  apply d := { d with audit := entry :: d.audit }
  confined row _ _ := by
    cases row with
    | index key => cases key <;> rfl
    | _ => rfl

def addFamily (id : Uuid) (family : RefreshTokenFamily) : DbChange where
  rows := [.family id]
  apply d := { d with families := d.families.add id family }
  confined row hrow d := by
    cases row with
    | family f =>
        have hne : f ≠ id := by simpa using hrow
        change Db.familyView _ f = Db.familyView _ f
        simp [Db.familyView, Table.get_add, hne]
    | index key => cases key <;> rfl
    | _ => rfl

def setFamily (id : Uuid) (g : RefreshTokenFamily → RefreshTokenFamily) : DbChange where
  rows := [.family id]
  apply d := { d with families := d.families.update (fun k _ => k == id) g }
  confined row hrow d := by
    cases row with
    | family f =>
        have hne : f ≠ id := by simpa using hrow
        change Db.familyView _ f = Db.familyView _ f
        simp [Db.familyView, Table.get_update, hne]
    | index key => cases key <;> rfl
    | _ => rfl

def addToken (id : Uuid) (token : RefreshToken) : DbChange where
  rows := [.family token.familyId, .index (.tokenHash token.tokenHash)]
  apply d := { d with tokens := d.tokens.add id token }
  confined row hrow d := by
    cases row with
    | family f =>
        have hne : f ≠ token.familyId := by simpa using hrow
        change Db.familyView _ f = Db.familyView _ f
        simp only [Db.familyView]
        rw [Table.select_add (by simpa using hne.symm)]
    | index key =>
        cases key with
        | tokenHash hash =>
            have hne : hash ≠ token.tokenHash := by simpa using hrow
            change IndexKey.entries _ (.tokenHash hash) = IndexKey.entries _ (.tokenHash hash)
            simp only [IndexKey.entries]
            rw [Table.select_add (by simpa using hne.symm)]
        | _ => rfl
    | _ => rfl

/-- `UPDATE refresh_tokens ... WHERE family_id = family AND p`. -/
def updateTokens (family : Uuid) (p : Uuid → RefreshToken → Bool)
    (g : RefreshToken → RefreshToken) (hfamily : ∀ t, (g t).familyId = t.familyId)
    (hhash : ∀ t, (g t).tokenHash = t.tokenHash) : DbChange where
  rows := [.family family]
  apply d := { d with
    tokens := d.tokens.update (fun k t => t.familyId == family && p k t) g }
  confined row hrow d := by
    cases row with
    | family f =>
        have hne : f ≠ family := by simpa using hrow
        change Db.familyView _ f = Db.familyView _ f
        simp only [Db.familyView]
        rw [Table.select_update]
        intro k t ht
        simp only [Bool.and_eq_true, beq_iff_eq] at ht
        simp [hfamily, ht.1, hne.symm]
    | index key =>
        cases key with
        | tokenHash hash =>
            change IndexKey.entries _ (.tokenHash hash) = IndexKey.entries _ (.tokenHash hash)
            simp only [IndexKey.entries]
            rw [Table.keys_select_update fun k t _ => by rw [hhash]]
        | _ => rfl
    | _ => rfl

def addSession (id : Uuid) (session : Session) : DbChange where
  rows := [.session id, .family session.familyId]
  apply d := { d with sessions := d.sessions.add id session }
  confined row hrow d := by
    cases row with
    | session s =>
        have hne : s ≠ id := by simpa using hrow
        change (Db.sessions _).get s = (Db.sessions _).get s
        simp [Table.get_add, hne]
    | family f =>
        have hne : f ≠ session.familyId := by simpa using hrow
        change Db.familyView _ f = Db.familyView _ f
        simp only [Db.familyView]
        rw [Table.select_add (by simpa using hne.symm)]
    | index key => cases key <;> rfl
    | _ => rfl

/-- No statement moves a session to another family. -/
def setSession (id : Uuid) (g : Session → Session)
    (hfamily : ∀ s, (g s).familyId = s.familyId) : DbChange where
  rows := [.session id]
  apply d := { d with sessions := d.sessions.update (fun k _ => k == id) g }
  confined row hrow d := by
    cases row with
    | session s =>
        have hne : s ≠ id := by simpa using hrow
        change (Db.sessions _).get s = (Db.sessions _).get s
        simp [Table.get_update, hne]
    | family f =>
        change Db.familyView _ f = Db.familyView _ f
        simp only [Db.familyView]
        rw [Table.keys_select_update fun k s _ => by rw [hfamily]]
    | index key => cases key <;> rfl
    | _ => rfl

/-- The deletion of a family takes its tokens and its session along. -/
def deleteFamily (id : Uuid) (view : FamilyView) : DbChange where
  rows := .family id :: (view.sessions.map Row.session ++
    view.tokens.map fun entry => .index (.tokenHash entry.2.tokenHash))
  apply d := { d with
    families := d.families.delete fun k _ => k == id
    tokens := d.tokens.delete fun _ t => t.familyId == id &&
      (view.tokens.map fun entry => entry.2.tokenHash).contains t.tokenHash
    sessions := d.sessions.delete fun k s => s.familyId == id && view.sessions.contains k }
  confined row hrow d := by
    cases row with
    | family f =>
        have hne : f ≠ id := by intro h; simp [h] at hrow
        change Db.familyView _ f = Db.familyView _ f
        simp only [Db.familyView]
        rw [Table.select_delete, Table.select_delete,
          Table.get_delete_of_out fun _ => by simpa using hne]
        · intro k t ht
          simp only [Bool.and_eq_true, beq_iff_eq] at ht
          simp [ht.1, hne.symm]
        · intro k s hs
          simp only [Bool.and_eq_true, beq_iff_eq] at hs
          simp [hs.1, hne.symm]
    | session s =>
        have hnot : s ∉ view.sessions := by
          intro h
          exact hrow (List.mem_cons_of_mem _ (List.mem_append_left _ (List.mem_map_of_mem h)))
        change (Db.sessions _).get s = (Db.sessions _).get s
        exact Table.get_delete_of_out (fun _ => by simp [hnot]) _
    | index key =>
        cases key with
        | tokenHash hash =>
            have hnot : hash ∉ view.tokens.map fun entry => entry.2.tokenHash := by
              intro h
              obtain ⟨entry, hentry, rfl⟩ := List.mem_map.mp h
              exact hrow (List.mem_cons_of_mem _ (List.mem_append_right _
                (List.mem_map.mpr ⟨entry, hentry, rfl⟩)))
            change IndexKey.entries _ (.tokenHash hash) = IndexKey.entries _ (.tokenHash hash)
            simp only [IndexKey.entries]
            rw [Table.select_delete]
            intro k t ht
            simp only [Bool.and_eq_true, List.contains_iff_mem] at ht
            simp only [beq_eq_false_iff_ne, ne_eq]
            exact fun heq => hnot (heq ▸ ht.2)
        | _ => rfl
    | _ => rfl

def addOrganization (id : Uuid) (organization : Organization) : DbChange where
  rows := [.organization id]
  apply d := { d with organizations := d.organizations.add id organization }
  confined row hrow d := by
    cases row with
    | organization k =>
        have hne : k ≠ id := by simpa using hrow
        change (Db.organizations _).get k = (Db.organizations _).get k
        simp [Table.get_add, hne]
    | index key => cases key <;> rfl
    | _ => rfl

def setOrganization (id : Uuid) (g : Organization → Organization) : DbChange where
  rows := [.organization id]
  apply d := { d with organizations := d.organizations.update (fun k _ => k == id) g }
  confined row hrow d := by
    cases row with
    | organization k =>
        have hne : k ≠ id := by simpa using hrow
        change (Db.organizations _).get k = (Db.organizations _).get k
        simp [Table.get_update, hne]
    | index key => cases key <;> rfl
    | _ => rfl

def addInvitation (id : Uuid) (invitation : Invitation) : DbChange where
  rows := [.invitation id]
  apply d := { d with invitations := d.invitations.add id invitation }
  confined row hrow d := by
    cases row with
    | invitation k =>
        have hne : k ≠ id := by simpa using hrow
        change (Db.invitations _).get k = (Db.invitations _).get k
        simp [Table.get_add, hne]
    | index key => cases key <;> rfl
    | _ => rfl

def setInvitation (id : Uuid) (g : Invitation → Invitation) : DbChange where
  rows := [.invitation id]
  apply d := { d with invitations := d.invitations.update (fun k _ => k == id) g }
  confined row hrow d := by
    cases row with
    | invitation k =>
        have hne : k ≠ id := by simpa using hrow
        change (Db.invitations _).get k = (Db.invitations _).get k
        simp [Table.get_update, hne]
    | index key => cases key <;> rfl
    | _ => rfl

def addFactor (id : Uuid) (factor : MFADevice) : DbChange where
  rows := [.factor id]
  apply d := { d with mfaDevices := d.mfaDevices.add id factor }
  confined row hrow d := by
    cases row with
    | factor k =>
        have hne : k ≠ id := by simpa using hrow
        change (Db.mfaDevices _).get k = (Db.mfaDevices _).get k
        simp [Table.get_add, hne]
    | index key => cases key <;> rfl
    | _ => rfl

def setFactor (id : Uuid) (g : MFADevice → MFADevice) : DbChange where
  rows := [.factor id]
  apply d := { d with mfaDevices := d.mfaDevices.update (fun k _ => k == id) g }
  confined row hrow d := by
    cases row with
    | factor k =>
        have hne : k ≠ id := by simpa using hrow
        change (Db.mfaDevices _).get k = (Db.mfaDevices _).get k
        simp [Table.get_update, hne]
    | index key => cases key <;> rfl
    | _ => rfl

def addBinding (id : Uuid) (binding : UserRoleBinding) : DbChange where
  rows := [.binding id, .index (.roleBinding binding.userId binding.orgId binding.catalogId)]
  apply d := { d with bindings := d.bindings.add id binding }
  confined row hrow d := by
    cases row with
    | binding k =>
        have hne : k ≠ id := by simpa using hrow
        change (Db.bindings _).get k = (Db.bindings _).get k
        simp [Table.get_add, hne]
    | index key =>
        cases key with
        | roleBinding user org catalog =>
            change IndexKey.entries _ (.roleBinding user org catalog) =
              IndexKey.entries _ (.roleBinding user org catalog)
            simp only [IndexKey.entries]
            rw [Table.select_add]
            have hne : ¬(user = binding.userId ∧ org = binding.orgId ∧
                catalog = binding.catalogId) := by simpa using hrow
            grind
        | _ => rfl
    | _ => rfl

/-- The index covers the unrevoked bindings, so a revocation frees an entry. -/
def revokeBinding (id : Uuid) (binding : UserRoleBinding) (now : Time) : DbChange where
  rows := [.binding id, .index (.roleBinding binding.userId binding.orgId binding.catalogId)]
  apply d := { d with
    bindings := d.bindings.update
      (fun k b => k == id && b.userId == binding.userId && b.orgId == binding.orgId &&
        b.catalogId == binding.catalogId)
      fun b => { b with revokedAt := some now } }
  confined row hrow d := by
    cases row with
    | binding k =>
        have hne : k ≠ id := by simpa using hrow
        change (Db.bindings _).get k = (Db.bindings _).get k
        simp [Table.get_update, hne]
    | index key =>
        cases key with
        | roleBinding user org catalog =>
            change IndexKey.entries _ (.roleBinding user org catalog) =
              IndexKey.entries _ (.roleBinding user org catalog)
            simp only [IndexKey.entries]
            rw [Table.select_update]
            have hne : ¬(user = binding.userId ∧ org = binding.orgId ∧
              catalog = binding.catalogId) := by simpa using hrow
            intro k b hb
            grind
        | _ => rfl
    | _ => rfl

def deleteBinding (id : Uuid) (binding : UserRoleBinding) : DbChange where
  rows := [.binding id, .index (.roleBinding binding.userId binding.orgId binding.catalogId)]
  apply d := { d with
    bindings := d.bindings.delete fun k b => k == id && b.userId == binding.userId &&
      b.orgId == binding.orgId && b.catalogId == binding.catalogId }
  confined row hrow d := by
    cases row with
    | binding k =>
        have hne : k ≠ id := by simpa using hrow
        change (Db.bindings _).get k = (Db.bindings _).get k
        exact Table.get_delete_of_out (fun _ => by simp [hne]) _
    | index key =>
        cases key with
        | roleBinding user org catalog =>
            change IndexKey.entries _ (.roleBinding user org catalog) =
              IndexKey.entries _ (.roleBinding user org catalog)
            simp only [IndexKey.entries]
            rw [Table.select_delete]
            have hne : ¬(user = binding.userId ∧ org = binding.orgId ∧
              catalog = binding.catalogId) := by simpa using hrow
            intro k b hb
            grind
        | _ => rfl
    | _ => rfl

def addRequest (id : Uuid) (request : GDPRRequest) : DbChange where
  rows := [.request id, .index (.request request.userId request.idempotencyKeyHash)]
  apply d := { d with requests := d.requests.add id request }
  confined row hrow d := by
    cases row with
    | request k =>
        have hne : k ≠ id := by simpa using hrow
        change (Db.requests _).get k = (Db.requests _).get k
        simp [Table.get_add, hne]
    | index key =>
        cases key with
        | request user keyHash =>
            change IndexKey.entries _ (.request user keyHash) =
              IndexKey.entries _ (.request user keyHash)
            simp only [IndexKey.entries]
            rw [Table.select_add]
            have hne : ¬(user = request.userId ∧ keyHash = request.idempotencyKeyHash) := by
              simpa using hrow
            grind
        | _ => rfl
    | _ => rfl

def setRequest (id : Uuid) (g : GDPRRequest → GDPRRequest)
    (huser : ∀ r, (g r).userId = r.userId)
    (hkey : ∀ r, (g r).idempotencyKeyHash = r.idempotencyKeyHash) : DbChange where
  rows := [.request id]
  apply d := { d with requests := d.requests.update (fun k _ => k == id) g }
  confined row hrow d := by
    cases row with
    | request k =>
        have hne : k ≠ id := by simpa using hrow
        change (Db.requests _).get k = (Db.requests _).get k
        simp [Table.get_update, hne]
    | index key =>
        cases key with
        | request user keyHash =>
            change IndexKey.entries _ (.request user keyHash) =
              IndexKey.entries _ (.request user keyHash)
            simp only [IndexKey.entries]
            rw [Table.keys_select_update fun k r _ => by rw [huser, hkey]]
        | _ => rfl
    | _ => rfl

/-- A password or phone identity is added with its user's row locked. -/
def addIdentity (id : Uuid) (identity : Identity) : DbChange where
  rows := [.identity id, .index (.identity identity.provider identity.providerSubject)] ++
    if identity.isLocal then [.user identity.userId] else []
  apply d := { d with identities := d.identities.add id identity }
  confined row hrow d := by
    cases row with
    | identity k =>
        have hne : k ≠ id := by
          intro h
          simp [h] at hrow
        change Db.identityView _ k = Db.identityView _ k
        simp [Db.identityView, Table.get_add, hne]
    | user k =>
        have hout : ¬(k = identity.userId ∧ identity.isLocal = true) := by
          rintro ⟨rfl, hlocal⟩
          simp [hlocal] at hrow
        simp only [Identity.isLocal] at hout
        change Db.userView _ k = Db.userView _ k
        simp only [Db.userView]
        rw [Table.select_add, Table.select_add]
        · grind
        · grind
    | index key =>
        cases key with
        | identity provider subject =>
            change IndexKey.entries _ (.identity provider subject) =
              IndexKey.entries _ (.identity provider subject)
            simp only [IndexKey.entries]
            rw [Table.select_add]
            have hne : ¬(provider = identity.provider ∧ subject = identity.providerSubject) := by
              rintro ⟨rfl, rfl⟩
              simp at hrow
            grind
        | _ => rfl
    | _ => rfl

/-- An update of an identity that keeps its owner and its name. -/
def setIdentity (id : Uuid) (g : Identity → Identity)
    (hsame : ∀ x, (g x).userId = x.userId ∧ (g x).provider = x.provider ∧
      (g x).providerSubject = x.providerSubject) : DbChange where
  rows := [.identity id]
  apply d := { d with identities := d.identities.update (fun k _ => k == id) g }
  confined row hrow d := by
    cases row with
    | identity k =>
        have hne : k ≠ id := by simpa using hrow
        change Db.identityView _ k = Db.identityView _ k
        simp [Db.identityView, Table.get_update, hne]
    | user k =>
        change Db.userView _ k = Db.userView _ k
        simp only [Db.userView]
        rw [Table.keys_select_update, Table.keys_select_update]
        · intro _ x _
          simp only [hsame x]
        · intro _ x _
          simp only [hsame x]
    | index key =>
        cases key with
        | identity provider subject =>
            change IndexKey.entries _ (.identity provider subject) =
              IndexKey.entries _ (.identity provider subject)
            simp only [IndexKey.entries]
            rw [Table.keys_select_update]
            intro _ x _
            simp only [hsame x]
        | _ => rfl
    | _ => rfl

def setPasswordHash (id : Uuid) (hash : String) : DbChange :=
  setIdentity id (fun x => { x with passwordHash := some hash }) fun _ => ⟨rfl, rfl, rfl⟩

def setVerified (id : Uuid) : DbChange :=
  setIdentity id (fun x => { x with verified := true }) fun _ => ⟨rfl, rfl, rfl⟩

/-- A new subject for the identity that is stored as `identity`. -/
def setSubject (id : Uuid) (identity : Identity) (subject : String) : DbChange where
  rows := [.identity id, .index (.identity identity.provider identity.providerSubject),
    .index (.identity identity.provider subject)]
  apply d := { d with
    identities := d.identities.update
      (fun k x => k == id && x.provider == identity.provider &&
        x.providerSubject == identity.providerSubject)
      fun x => { x with providerSubject := subject } }
  confined row hrow d := by
    cases row with
    | identity k =>
        have hne : k ≠ id := by simpa using hrow
        change Db.identityView _ k = Db.identityView _ k
        simp [Db.identityView, Table.get_update, hne]
    | user k =>
        change Db.userView _ k = Db.userView _ k
        simp only [Db.userView]
        rw [Table.keys_select_update, Table.keys_select_update]
        · exact fun _ _ _ => rfl
        · exact fun _ _ _ => rfl
    | index key =>
        cases key with
        | identity provider other =>
            change IndexKey.entries _ (.identity provider other) =
              IndexKey.entries _ (.identity provider other)
            simp only [IndexKey.entries]
            rw [Table.select_update]
            have hold : ¬(provider = identity.provider ∧ other = identity.providerSubject) := by
              rintro ⟨rfl, rfl⟩
              simp at hrow
            have hnew : ¬(provider = identity.provider ∧ other = subject) := by
              rintro ⟨rfl, rfl⟩
              simp at hrow
            intro k x hx
            grind
        | _ => rfl
    | _ => rfl

/-- The deletion of an identity takes its password history along. -/
def deleteIdentity (id : Uuid) (identity : Identity) : DbChange where
  rows := [.identity id, .index (.identity identity.provider identity.providerSubject),
    .user identity.userId]
  apply d := { d with
    identities := d.identities.delete fun k x => k == id && x.userId == identity.userId &&
      x.provider == identity.provider && x.providerSubject == identity.providerSubject
    history := d.history.delete fun _ h => h.identityId == id }
  confined row hrow d := by
    cases row with
    | identity k =>
        have hne : k ≠ id := by simpa using hrow
        change Db.identityView _ k = Db.identityView _ k
        simp only [Db.identityView]
        rw [Table.get_delete_of_out (fun _ => by simp [hne]), Table.select_delete]
        intro _ h hh
        grind
    | user k =>
        have hne : k ≠ identity.userId := by simpa using hrow
        change Db.userView _ k = Db.userView _ k
        simp only [Db.userView]
        rw [Table.select_delete, Table.select_delete]
        · intro _ x hx
          grind
        · intro _ x hx
          grind
    | index key =>
        cases key with
        | identity provider subject =>
            change IndexKey.entries _ (.identity provider subject) =
              IndexKey.entries _ (.identity provider subject)
            simp only [IndexKey.entries]
            rw [Table.select_delete]
            have hne : ¬(provider = identity.provider ∧
              subject = identity.providerSubject) := by simpa using hrow
            intro k x hx
            grind
        | _ => rfl
    | _ => rfl

def addHistory (id : Uuid) (entry : PasswordHistory) : DbChange where
  rows := [.identity entry.identityId]
  apply d := { d with history := d.history.add id entry }
  confined row hrow d := by
    cases row with
    | identity k =>
        have hne : k ≠ entry.identityId := by simpa using hrow
        change Db.identityView _ k = Db.identityView _ k
        simp only [Db.identityView]
        rw [Table.select_add (by simp [hne.symm])]
    | index key => cases key <;> rfl
    | _ => rfl

def deleteHistory (identity : Uuid) (ids : List Uuid) : DbChange where
  rows := [.identity identity]
  apply d := { d with
    history := d.history.delete fun k h => h.identityId == identity && ids.contains k }
  confined row hrow d := by
    cases row with
    | identity k =>
        have hne : k ≠ identity := by simpa using hrow
        change Db.identityView _ k = Db.identityView _ k
        simp only [Db.identityView]
        rw [Table.select_delete]
        intro _ h hh
        grind
    | index key => cases key <;> rfl
    | _ => rfl

def addDevice (id : Uuid) (device : TrustedDevice) : DbChange where
  rows := [.device id, .index (.device device.userId device.fingerprintHash)]
  apply d := { d with devices := d.devices.add id device }
  confined row hrow d := by
    cases row with
    | device k =>
        have hne : k ≠ id := by simpa using hrow
        change (Db.devices _).get k = (Db.devices _).get k
        simp [Table.get_add, hne]
    | index key =>
        cases key with
        | device user fingerprint =>
            change IndexKey.entries _ (.device user fingerprint) =
              IndexKey.entries _ (.device user fingerprint)
            simp only [IndexKey.entries]
            rw [Table.select_add]
            have hne : ¬(user = device.userId ∧ fingerprint = device.fingerprintHash) := by
              simpa using hrow
            grind
        | _ => rfl
    | _ => rfl

def touchDevice (id : Uuid) (ip : Option String) (now : Time) : DbChange where
  rows := [.device id]
  apply d := { d with
    devices := d.devices.update (fun k _ => k == id)
      fun v => { v with lastIpAddress := ip, lastSeenAt := now } }
  confined row hrow d := by
    cases row with
    | device k =>
        have hne : k ≠ id := by simpa using hrow
        change (Db.devices _).get k = (Db.devices _).get k
        simp [Table.get_update, hne]
    | index key =>
        cases key with
        | device user fingerprint =>
            change IndexKey.entries _ (.device user fingerprint) =
              IndexKey.entries _ (.device user fingerprint)
            simp only [IndexKey.entries]
            rw [Table.keys_select_update]
            exact fun _ _ _ => rfl
        | _ => rfl
    | _ => rfl

def deleteDevice (id : Uuid) (device : TrustedDevice) : DbChange where
  rows := [.device id, .index (.device device.userId device.fingerprintHash)]
  apply d := { d with
    devices := d.devices.delete fun k v => k == id && v.userId == device.userId &&
      v.fingerprintHash == device.fingerprintHash }
  confined row hrow d := by
    cases row with
    | device k =>
        have hne : k ≠ id := by simpa using hrow
        change (Db.devices _).get k = (Db.devices _).get k
        exact Table.get_delete_of_out (fun _ => by simp [hne]) _
    | index key =>
        cases key with
        | device user fingerprint =>
            change IndexKey.entries _ (.device user fingerprint) =
              IndexKey.entries _ (.device user fingerprint)
            simp only [IndexKey.entries]
            rw [Table.select_delete]
            have hne : ¬(user = device.userId ∧ fingerprint = device.fingerprintHash) := by
              simpa using hrow
            intro k v hv
            grind
        | _ => rfl
    | _ => rfl

def addCredential (id : String) (credential : WebAuthnCredential) : DbChange where
  rows := [.credential id]
  apply d := { d with credentials := d.credentials.add id credential }
  confined row hrow d := by
    cases row with
    | credential k =>
        have hne : k ≠ id := by simpa using hrow
        change (Db.credentials _).get k = (Db.credentials _).get k
        simp [Table.get_add, hne]
    | index key => cases key <;> rfl
    | _ => rfl

def setCredential (id : String) (g : WebAuthnCredential → WebAuthnCredential) : DbChange where
  rows := [.credential id]
  apply d := { d with credentials := d.credentials.update (fun k _ => k == id) g }
  confined row hrow d := by
    cases row with
    | credential k =>
        have hne : k ≠ id := by simpa using hrow
        change (Db.credentials _).get k = (Db.credentials _).get k
        simp [Table.get_update, hne]
    | index key => cases key <;> rfl
    | _ => rfl

/-- The deletion of a factor takes its credentials along. -/
def deleteFactor (id : Uuid) (credentials : List String) : DbChange where
  rows := .factor id :: credentials.map Row.credential
  apply d := { d with
    mfaDevices := d.mfaDevices.delete fun k _ => k == id
    credentials := d.credentials.delete fun k c => c.mfaId == id && credentials.contains k }
  confined row hrow d := by
    cases row with
    | factor k =>
        have hne : k ≠ id := by intro h; simp [h] at hrow
        change (Db.mfaDevices _).get k = (Db.mfaDevices _).get k
        exact Table.get_delete_of_out (fun _ => by simp [hne]) _
    | credential k =>
        have hnot : k ∉ credentials := by
          intro h
          exact hrow (List.mem_cons_of_mem _ (List.mem_map_of_mem h))
        change (Db.credentials _).get k = (Db.credentials _).get k
        exact Table.get_delete_of_out (fun _ => by simp [hnot]) _
    | index key => cases key <;> rfl
    | _ => rfl

def deleteStaffRoles (user : Uuid) : DbChange where
  rows := []
  apply d := { d with staff := d.staff.delete fun _ b => b.userId == user }
  confined row _ _ := by
    cases row with
    | index key => cases key <;> rfl
    | _ => rfl

def deleteReferrals (referrer : Uuid) : DbChange where
  rows := []
  apply d := { d with referrals := d.referrals.delete fun _ r => r.referrerUserId == referrer }
  confined row _ _ := by
    cases row with
    | index key => cases key <;> rfl
    | _ => rfl

/-- A referral without its user and the address it was sent to. -/
def withdrawn (address : String) (referral : Referral) : Referral :=
  { referral with referredUserId := none, inviteeEmail := address, state := .revoked }

def withdrawReferred (user : Uuid) (address : String) : DbChange where
  rows := []
  apply d :=
    { d with
      referrals := d.referrals.update (fun _ r => r.referredUserId == some user)
        (withdrawn address) }
  confined row _ _ := by
    cases row with
    | index key => cases key <;> rfl
    | _ => rfl

def addUser (id : Uuid) (user : User) : DbChange where
  rows := .user id :: (user.email.toList.map (fun address => .index (.email address)) ++
    user.phoneE164.toList.map fun number => .index (.phone number))
  apply d := { d with users := d.users.add id user }
  confined row hrow d := by
    cases row with
    | user k =>
        have hne : k ≠ id := by
          intro h
          simp [h] at hrow
        change Db.userView _ k = Db.userView _ k
        simp [Db.userView, Table.get_add, hne]
    | index key =>
        cases key with
        | email other =>
            change IndexKey.entries _ (.email other) = IndexKey.entries _ (.email other)
            simp only [IndexKey.entries]
            rw [Table.select_add]
            have hne : user.email ≠ some other := by
              intro h
              simp [h] at hrow
            grind
        | phone other =>
            change IndexKey.entries _ (.phone other) = IndexKey.entries _ (.phone other)
            simp only [IndexKey.entries]
            rw [Table.select_add]
            have hne : user.phoneE164 ≠ some other := by
              intro h
              simp [h] at hrow
            grind
        | _ => rfl
    | _ => rfl

/-- A change of the account state; the contact columns stay and the version
counts the change. -/
def bumpUser (id : Uuid) (g : UserState → UserState) : DbChange where
  rows := [.user id]
  apply d := { d with
    users := d.users.update (fun k _ => k == id)
      fun u => { u with state := g u.state, version := u.version + 1 } }
  confined row hrow d := by
    cases row with
    | user k =>
        have hne : k ≠ id := by simpa using hrow
        change Db.userView _ k = Db.userView _ k
        simp [Db.userView, Table.get_update, hne]
    | index key =>
        cases key with
        | email other =>
            change IndexKey.entries _ (.email other) = IndexKey.entries _ (.email other)
            simp only [IndexKey.entries]
            rw [Table.keys_select_update]
            exact fun _ _ _ => rfl
        | phone other =>
            change IndexKey.entries _ (.phone other) = IndexKey.entries _ (.phone other)
            simp only [IndexKey.entries]
            rw [Table.keys_select_update]
            exact fun _ _ _ => rfl
        | _ => rfl
    | _ => rfl

def setUserState (id : Uuid) (state : UserState) : DbChange :=
  bumpUser id fun _ => state

/-- The contact of a user row, by type. -/
def contactOf (u : User) : ContactType → Option String
  | .email => u.email
  | .phone => u.phoneE164

def withContact (u : User) : ContactType → String → User
  | .email, value => { u with email := some value }
  | .phone, value => { u with phoneE164 := some value }

def contactKey : ContactType → String → IndexKey
  | .email, value => .email value
  | .phone, value => .phone value

/-- A new address or number for the user whose contact is `old`. -/
def setContact (id : Uuid) (contactType : ContactType) (old : Option String) (new : String) :
    DbChange where
  rows := .user id :: .index (contactKey contactType new) ::
    old.toList.map fun value => .index (contactKey contactType value)
  apply d := { d with
    users := d.users.update (fun k u => k == id && contactOf u contactType == old)
      fun u => { withContact u contactType new with version := u.version + 1 } }
  confined row hrow d := by
    cases row with
    | user k =>
        have hne : k ≠ id := by intro h; simp [h] at hrow
        change Db.userView _ k = Db.userView _ k
        simp [Db.userView, Table.get_update, hne]
    | index key =>
        cases contactType with
        | email =>
            cases key with
            | email other =>
                change IndexKey.entries _ (.email other) = IndexKey.entries _ (.email other)
                simp only [IndexKey.entries]
                rw [Table.select_update]
                have hold : old ≠ some other := by rintro rfl; simp [contactKey] at hrow
                have hnew : other ≠ new := by rintro rfl; simp [contactKey] at hrow
                intro k u hu
                simp only [contactOf, withContact] at *
                grind
            | phone other =>
                change IndexKey.entries _ (.phone other) = IndexKey.entries _ (.phone other)
                simp only [IndexKey.entries]
                rw [Table.keys_select_update]
                exact fun _ _ _ => rfl
            | _ => rfl
        | phone =>
            cases key with
            | phone other =>
                change IndexKey.entries _ (.phone other) = IndexKey.entries _ (.phone other)
                simp only [IndexKey.entries]
                rw [Table.select_update]
                have hold : old ≠ some other := by rintro rfl; simp [contactKey] at hrow
                have hnew : other ≠ new := by rintro rfl; simp [contactKey] at hrow
                intro k u hu
                simp only [contactOf, withContact] at *
                grind
            | email other =>
                change IndexKey.entries _ (.email other) = IndexKey.entries _ (.email other)
                simp only [IndexKey.entries]
                rw [Table.keys_select_update]
                exact fun _ _ _ => rfl
            | _ => rfl
    | _ => rfl

/-- The user row after an erasure; `email` and `phone` are what the row had. -/
def anonymizeUser (id : Uuid) (email phone : Option String) (now : Time) : DbChange where
  rows := .user id :: (email.toList.map (fun address => .index (.email address)) ++
    phone.toList.map fun number => .index (.phone number))
  apply d := { d with
    users := d.users.update (fun k u => k == id && u.email == email && u.phoneE164 == phone)
      fun u => { u with
        email := none, givenName := none, familyName := none, phoneE164 := none,
        state := .anonymized, anonymizedAt := some now, version := u.version + 1 } }
  confined row hrow d := by
    cases row with
    | user k =>
        have hne : k ≠ id := by intro h; simp [h] at hrow
        change Db.userView _ k = Db.userView _ k
        simp [Db.userView, Table.get_update, hne]
    | index key =>
        cases key with
        | email other =>
            change IndexKey.entries _ (.email other) = IndexKey.entries _ (.email other)
            simp only [IndexKey.entries]
            rw [Table.select_update]
            have hne : email ≠ some other := by
              intro h
              simp [h] at hrow
            intro k u hu
            grind
        | phone other =>
            change IndexKey.entries _ (.phone other) = IndexKey.entries _ (.phone other)
            simp only [IndexKey.entries]
            rw [Table.select_update]
            have hne : phone ≠ some other := by
              intro h
              simp [h] at hrow
            intro k u hu
            grind
        | _ => rfl
    | _ => rfl

def addMailed (id : Uuid) (token : EphemeralToken) : DbChange where
  rows := [.mailed id, .index (.mailedToken token.tokenHash)]
  apply d := { d with ephemeral := d.ephemeral.add id token }
  confined row hrow d := by
    cases row with
    | mailed k =>
        have hne : k ≠ id := by simpa using hrow
        change (Db.ephemeral _).get k = (Db.ephemeral _).get k
        simp [Table.get_add, hne]
    | index key =>
        cases key with
        | mailedToken hash =>
            change IndexKey.entries _ (.mailedToken hash) = IndexKey.entries _ (.mailedToken hash)
            simp only [IndexKey.entries]
            rw [Table.select_add]
            have hne : hash ≠ token.tokenHash := by simpa using hrow
            grind
        | _ => rfl
    | _ => rfl

def useMailed (id : Uuid) (now : Time) : DbChange where
  rows := [.mailed id]
  apply d := { d with
    ephemeral := d.ephemeral.update (fun k _ => k == id)
      fun t => { t with consumedAt := some now } }
  confined row hrow d := by
    cases row with
    | mailed k =>
        have hne : k ≠ id := by simpa using hrow
        change (Db.ephemeral _).get k = (Db.ephemeral _).get k
        simp [Table.get_update, hne]
    | index key =>
        cases key with
        | mailedToken hash =>
            change IndexKey.entries _ (.mailedToken hash) = IndexKey.entries _ (.mailedToken hash)
            simp only [IndexKey.entries]
            rw [Table.keys_select_update]
            exact fun _ _ _ => rfl
        | _ => rfl
    | _ => rfl

def deleteMailed (id : Uuid) (token : EphemeralToken) : DbChange where
  rows := [.mailed id, .index (.mailedToken token.tokenHash)]
  apply d := { d with
    ephemeral := d.ephemeral.delete fun k t => k == id && t.tokenHash == token.tokenHash }
  confined row hrow d := by
    cases row with
    | mailed k =>
        have hne : k ≠ id := by simpa using hrow
        change (Db.ephemeral _).get k = (Db.ephemeral _).get k
        exact Table.get_delete_of_out (fun _ => by simp [hne]) _
    | index key =>
        cases key with
        | mailedToken hash =>
            change IndexKey.entries _ (.mailedToken hash) = IndexKey.entries _ (.mailedToken hash)
            simp only [IndexKey.entries]
            rw [Table.select_delete]
            have hne : hash ≠ token.tokenHash := by simpa using hrow
            intro k t ht
            grind
        | _ => rfl
    | _ => rfl

def addContactChange (id : Uuid) (request : ContactChangeRequest) : DbChange where
  rows := [.contactChange id, .user request.userId]
  apply d := { d with contactChanges := d.contactChanges.add id request }
  confined row hrow d := by
    cases row with
    | contactChange k =>
        have hne : k ≠ id := by simpa using hrow
        change (Db.contactChanges _).get k = (Db.contactChanges _).get k
        simp [Table.get_add, hne]
    | user k =>
        have hne : k ≠ request.userId := by simpa using hrow
        change Db.userView _ k = Db.userView _ k
        simp only [Db.userView]
        rw [Table.select_add (by simp [hne.symm])]
    | index key => cases key <;> rfl
    | _ => rfl

/-- The code of one of the two contacts has been presented. -/
def proveContact (id : Uuid) (proof : ContactProof) (now : Time) : DbChange where
  rows := [.contactChange id]
  apply d := { d with
    contactChanges := d.contactChanges.update (fun k _ => k == id) fun r =>
      match proof with
      | .old => { r with oldVerifiedAt := r.oldVerifiedAt.or (some now) }
      | .new => { r with newVerifiedAt := r.newVerifiedAt.or (some now) } }
  confined row hrow d := by
    cases row with
    | contactChange k =>
        have hne : k ≠ id := by simpa using hrow
        change (Db.contactChanges _).get k = (Db.contactChanges _).get k
        simp [Table.get_update, hne]
    | user k =>
        change Db.userView _ k = Db.userView _ k
        simp only [Db.userView]
        rw [Table.keys_select_update]
        intro _ _ _
        cases proof <;> rfl
    | index key => cases key <;> rfl
    | _ => rfl

/-- A request of `user` leaves the state `pending`. -/
def closeContactChange (user id : Uuid) (state : ContactChangeState)
    (appliedAt : Option Time) : DbChange where
  rows := [.contactChange id, .user user]
  apply d := { d with
    contactChanges := d.contactChanges.update (fun k r => k == id && r.userId == user)
      fun r => { r with state := state, appliedAt := appliedAt } }
  confined row hrow d := by
    cases row with
    | contactChange k =>
        have hne : k ≠ id := by simpa using hrow
        change (Db.contactChanges _).get k = (Db.contactChanges _).get k
        simp [Table.get_update, hne]
    | user k =>
        have hne : k ≠ user := by simpa using hrow
        change Db.userView _ k = Db.userView _ k
        simp only [Db.userView]
        rw [Table.select_update]
        intro _ r hr
        grind
    | index key => cases key <;> rfl
    | _ => rfl

def deleteContactChange (user id : Uuid) : DbChange where
  rows := [.contactChange id, .user user]
  apply d := { d with
    contactChanges := d.contactChanges.delete fun k r => k == id && r.userId == user }
  confined row hrow d := by
    cases row with
    | contactChange k =>
        have hne : k ≠ id := by simpa using hrow
        change (Db.contactChanges _).get k = (Db.contactChanges _).get k
        exact Table.get_delete_of_out (fun _ => by simp [hne]) _
    | user k =>
        have hne : k ≠ user := by simpa using hrow
        change Db.userView _ k = Db.userView _ k
        simp only [Db.userView]
        rw [Table.select_delete]
        intro _ r hr
        grind
    | index key => cases key <;> rfl
    | _ => rfl

def addGoverned (id : Uuid) (request : GovernedRequest) : DbChange where
  rows := [.governed id]
  apply d := { d with governed := d.governed.add id request }
  confined row hrow d := by
    cases row with
    | governed k =>
        have hne : k ≠ id := by simpa using hrow
        change (Db.governed _).get k = (Db.governed _).get k
        simp [Table.get_add, hne]
    | index key => cases key <;> rfl
    | _ => rfl

def setGoverned (id : Uuid) (g : GovernedRequest → GovernedRequest) : DbChange where
  rows := [.governed id]
  apply d := { d with governed := d.governed.update (fun k _ => k == id) g }
  confined row hrow d := by
    cases row with
    | governed k =>
        have hne : k ≠ id := by simpa using hrow
        change (Db.governed _).get k = (Db.governed _).get k
        simp [Table.get_update, hne]
    | index key => cases key <;> rfl
    | _ => rfl

def addExport (id : Uuid) (request : ExportRequest) : DbChange where
  rows := [.export id, .index (.export request.userId request.idempotencyKeyHash)]
  apply d := { d with exports := d.exports.add id request }
  confined row hrow d := by
    cases row with
    | «export» k =>
        have hne : k ≠ id := by simpa using hrow
        change (Db.exports _).get k = (Db.exports _).get k
        simp [Table.get_add, hne]
    | index key =>
        cases key with
        | «export» user keyHash =>
            change IndexKey.entries _ (.export user keyHash) =
              IndexKey.entries _ (.export user keyHash)
            simp only [IndexKey.entries]
            rw [Table.select_add]
            have hne : ¬(user = request.userId ∧ keyHash = request.idempotencyKeyHash) := by
              simpa using hrow
            grind
        | _ => rfl
    | _ => rfl

def setExport (id : Uuid) (g : ExportRequest → ExportRequest)
    (huser : ∀ r, (g r).userId = r.userId)
    (hkey : ∀ r, (g r).idempotencyKeyHash = r.idempotencyKeyHash) : DbChange where
  rows := [.export id]
  apply d := { d with exports := d.exports.update (fun k _ => k == id) g }
  confined row hrow d := by
    cases row with
    | «export» k =>
        have hne : k ≠ id := by simpa using hrow
        change (Db.exports _).get k = (Db.exports _).get k
        simp [Table.get_update, hne]
    | index key =>
        cases key with
        | «export» user keyHash =>
            change IndexKey.entries _ (.export user keyHash) =
              IndexKey.entries _ (.export user keyHash)
            simp only [IndexKey.entries]
            rw [Table.keys_select_update fun k r _ => by rw [huser, hkey]]
        | _ => rfl
    | _ => rfl

def addArtifact (id : Uuid) (artifact : PrivacyExportArtifact) : DbChange where
  rows := [.index (.artifact artifact.requestId)]
  apply d := { d with artifacts := d.artifacts.add id artifact }
  confined row hrow d := by
    cases row with
    | index key =>
        cases key with
        | artifact request =>
            change IndexKey.entries _ (.artifact request) = IndexKey.entries _ (.artifact request)
            simp only [IndexKey.entries]
            rw [Table.select_add]
            have hne : request ≠ artifact.requestId := by simpa using hrow
            grind
        | _ => rfl
    | _ => rfl

/-- The artifacts of a user for the given requests. -/
def deleteArtifacts (user : Uuid) (requests : List Uuid) : DbChange where
  rows := requests.map fun request => .index (.artifact request)
  apply d := { d with
    artifacts := d.artifacts.delete fun _ a => a.userId == user && requests.contains a.requestId }
  confined row hrow d := by
    cases row with
    | index key =>
        cases key with
        | artifact request =>
            change IndexKey.entries _ (.artifact request) = IndexKey.entries _ (.artifact request)
            simp only [IndexKey.entries]
            rw [Table.select_delete]
            have hnot : request ∉ requests := by
              intro h
              exact hrow (List.mem_map_of_mem h)
            intro k a ha
            grind
        | _ => rfl
    | _ => rfl

end DbChange

end AuthCore
