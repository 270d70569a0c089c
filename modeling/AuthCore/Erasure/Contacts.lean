/-
What an erasure leaves of the contacts of its user.  It removes the user's own
rows, the referrals the user made or registered with, and the invitations that
name the user's address; a referral that only names the address stays.
-/
import AuthCore.Interleave.Solo
import AuthCore.Erasure.Credentials
import AuthCore.Workspaces.Owners

namespace AuthCore

open Interleave Relational PrivacyRepository

/-- The tables that name people by their contacts. -/
structure ContactTables where
  users : Table Uuid User
  identities : Table Uuid Identity
  invitations : Table Uuid Invitation
  referrals : Table Uuid Referral
  contactChanges : Table Uuid ContactChangeRequest

def Db.contactTables (d : Db) : ContactTables :=
  ⟨d.users, d.identities, d.invitations, d.referrals, d.contactChanges⟩

section Statements

variable {V : Type} {d : Db} {p q : Db → Db} {user : Uuid}

/-- A statement that visits rows, and changes those with `own` once it has locked
them: `g` says what becomes of each. -/
structure Rewrites (d : Db) (table : Db → Table Uuid V) (body : Uuid → Trans Unit)
    (own : V → Bool) (change : Uuid → V → DbChange) (g : V → Option V) : Prop where
  reads : ∀ id p, (body id).alone d p = Tx.alone d p (match (table d).get id with
    | none => return ()
    | some row => if own row then write (change id row) else return () : Trans Unit)
  writes : ∀ id row d', (table d').get id = some row → own row = true →
    ∀ k, (table ((change id row).apply d')).get k =
      if k = id then g row else (table d').get k
  others : ∀ row, own row = false → g row = some row

variable {table : Db → Table Uuid V} {body : Uuid → Trans Unit} {own : V → Bool}
  {change : Uuid → V → DbChange} {g : V → Option V}

theorem Rewrites.one (h : Rewrites d table body own change g) {id : Uuid}
    (halone : (body id).alone d p = .ok ((), q))
    (hsame : (table (p d)).get id = (table d).get id) (k : Uuid) :
    (table (q d)).get k =
      if k = id then ((table d).get k).bind g else (table (p d)).get k := by
  rw [h.reads] at halone
  cases hget : (table d).get id with
  | none =>
      rw [hget] at halone
      cases halone
      by_cases hk : k = id
      · rw [if_pos hk, hk, hsame, hget]
        rfl
      · rw [if_neg hk]
  | some row =>
      rw [hget] at halone
      dsimp only at halone
      by_cases hown : own row = true
      · rw [if_pos hown] at halone
        cases halone
        have hwritten := h.writes id row (p d) (hsame.trans hget) hown k
        by_cases hk : k = id
        · rw [if_pos hk] at hwritten
          rw [if_pos hk, hk, hget]
          rw [hk] at hwritten
          exact hwritten
        · rw [if_neg hk] at hwritten
          rw [if_neg hk]
          exact hwritten
      · rw [if_neg hown] at halone
        cases halone
        by_cases hk : k = id
        · rw [if_pos hk, hk, hsame, hget]
          exact (h.others row (by simpa using hown)).symm
        · rw [if_neg hk]

/-- The whole statement, on rows that nothing before it has touched. -/
theorem Rewrites.each (h : Rewrites d table body own change g) {ids : List Uuid}
    (hnodup : ids.Nodup) (halone : (Tx.each body ids).alone d p = .ok ((), q))
    (hstart : ∀ k ∈ ids, (table (p d)).get k = (table d).get k) (k : Uuid) :
    (table (q d)).get k =
      if k ∈ ids then ((table d).get k).bind g else (table (p d)).get k := by
  induction ids generalizing p with
  | nil =>
      cases halone
      simp
  | cons id rest ih =>
      obtain ⟨_, r, hfirst, hrest⟩ := Tx.alone_bind_eq_ok halone
      have hget := h.one hfirst (hstart id List.mem_cons_self)
      obtain ⟨hnot, hnodup'⟩ := List.nodup_cons.mp hnodup
      have hmid : ∀ k ∈ rest, (table (r d)).get k = (table d).get k := by
        intro k hk
        have hne : k ≠ id := fun heq => hnot (heq ▸ hk)
        rw [hget, if_neg hne]
        exact hstart k (List.mem_cons_of_mem _ hk)
      rw [ih hnodup' hrest hmid]
      by_cases hk : k ∈ rest
      · rw [if_pos hk, if_pos (List.mem_cons_of_mem _ hk)]
      · rw [if_neg hk, hget]
        by_cases hid : k = id
        · rw [if_pos hid, if_pos (hid ▸ List.mem_cons_self)]
        · rw [if_neg hid, if_neg (fun hmem => (List.mem_cons.mp hmem).elim hid hk)]

/-- With the rows that its own query returns, it reaches every row. -/
theorem Rewrites.all (h : Rewrites d table body own change g) (hstart : table (p d) = table d)
    (halone : (Tx.each body (((table d).select fun _ row => own row).map Prod.fst)).alone d p =
      .ok ((), q)) (k : Uuid) : (table (q d)).get k = ((table d).get k).bind g := by
  rw [h.each (Table.nodup_keys_select _ _) halone (fun k _ => by rw [hstart]) k]
  split
  · rfl
  · rename_i hnot
    rw [hstart]
    cases hget : (table d).get k with
    | none => rfl
    | some row =>
        refine (h.others row (Bool.eq_false_iff.mpr fun hown => hnot ?_)).symm
        exact List.mem_map.mpr ⟨(k, row), Table.mem_select.mpr ⟨hget, hown⟩, rfl⟩

/-- A deletion of one row. -/
theorem get_delete_row {t : Table Uuid V} {condition : Uuid → V → Bool} {id : Uuid} {row : V}
    (hget : t.get id = some row) (hrow : condition id row = true)
    (hother : ∀ k v, k ≠ id → condition k v = false) (k : Uuid) :
    (t.delete condition).get k = if k = id then none else t.get k := by
  by_cases hk : k = id
  · rw [if_pos hk, hk, Table.get_delete, hget, Option.filter, if_neg (by simpa using hrow)]
  · rw [if_neg hk, Table.get_delete_of_out fun v => hother k v hk]

/-- A row that is not the user's own. -/
def keepUnless (own : V → Bool) (row : V) : Option V :=
  if own row then none else some row

theorem rewrites_deleteIdentity (d : Db) (user : Uuid) :
    Rewrites d Db.identities (deleteIdentity user) (·.userId == user) DbChange.deleteIdentity
      (keepUnless (·.userId == user)) where
  reads id p := by
    rw [deleteIdentity_alone]
    cases d.identities.get id with
    | none => rfl
    | some row => rfl
  writes id row d' hget hown k := by
    have hnone : keepUnless (·.userId == user) row = none := if_pos hown
    rw [hnone]
    exact get_delete_row hget (by simp) (fun k v hk => by simp [hk]) k
  others row h := if_neg (by simpa using h)

theorem rewrites_deleteContactChange (d : Db) (user : Uuid) :
    Rewrites d Db.contactChanges (deleteContactChange user) (·.userId == user)
      (fun id _ => DbChange.deleteContactChange user id) (keepUnless (·.userId == user)) where
  reads id p := by
    rw [deleteContactChange_alone]
    cases d.contactChanges.get id with
    | none => rfl
    | some row => rfl
  writes id row d' hget hown k := by
    have hnone : keepUnless (·.userId == user) row = none := if_pos hown
    rw [hnone]
    exact get_delete_row hget (by simpa using hown) (fun k v hk => by simp [hk]) k
  others row h := if_neg (by simpa using h)

/-- The address that stands in for the one of an erased account. -/
def erasedAddress (pseudonym : String) : String :=
  "erased-" ++ pseudonym ++ "@invalid.local"

/-- An invitation that no longer names the address. -/
def withdrawnInvitation (email pseudonym : String) (row : Invitation) : Invitation :=
  if row.inviteeEmail = email then
    { row with inviteeEmail := erasedAddress pseudonym, state := .revoked }
  else row

theorem rewrites_withdrawInvitation (d : Db) (email pseudonym : String) :
    Rewrites d Db.invitations (withdrawInvitation email pseudonym) (·.inviteeEmail == email)
      (fun id _ => DbChange.setInvitation id fun row =>
        { row with inviteeEmail := erasedAddress pseudonym, state := .revoked })
      (fun row => some (withdrawnInvitation email pseudonym row)) where
  reads id p := by
    rw [withdrawInvitation_alone]
    cases d.invitations.get id with
    | none => rfl
    | some row => rfl
  writes id row d' hget hown k := by
    change ((d'.invitations.update _ _).get k) = _
    rw [Table.get_update]
    by_cases hk : k = id
    · subst hk
      rw [hget, if_pos rfl]
      simp [withdrawnInvitation, beq_iff_eq.mp hown]
    · rw [if_neg hk]
      simp [hk]
  others row h := by simp [withdrawnInvitation, beq_eq_false_iff_ne.mp h]

end Statements

/-- What an erasure does to the tables that name people by their contacts. -/
structure ContactsErased (args : ErasureArgs) (email phone : Option String) (d d' : Db) :
    Prop where
  users : d'.users =
    ((DbChange.anonymizeUser args.userId email phone args.now).apply d).users
  identities : ∀ k, d'.identities.get k =
    (d.identities.get k).bind (keepUnless (·.userId == args.userId))
  contactChanges : ∀ k, d'.contactChanges.get k =
    (d.contactChanges.get k).bind (keepUnless (·.userId == args.userId))
  referrals : d'.referrals = (d.referrals.delete fun _ r => r.referrerUserId == args.userId).update
    (fun _ r => r.referredUserId == some args.userId)
    (DbChange.withdrawn (erasedAddress args.pseudonym))
  invitations : ∀ k, d'.invitations.get k = (d.invitations.get k).map fun row =>
    match email.filter (· ≠ "") with
    | none => row
    | some address => withdrawnInvitation address args.pseudonym row

section Rows

variable {d : Db} {args : ErasureArgs} {email phone : Option String} {p q : Db → Db}

theorem invitations_withdrawn
    (h : (Tx.each (withdrawInvitation (email.getD "") args.pseudonym)
      (invitationsFor email (p d))).alone d p = .ok ((), q))
    (hstart : (p d).invitations = d.invitations) (k : Uuid) :
    (q d).invitations.get k = (d.invitations.get k).map fun row =>
      match email.filter (· ≠ "") with
      | none => row
      | some address => withdrawnInvitation address args.pseudonym row := by
  have hnone : invitationsFor email (p d) = [] → email.filter (· ≠ "") = none →
      (q d).invitations.get k = (d.invitations.get k).map fun row =>
        match email.filter (· ≠ "") with
        | none => row
        | some address => withdrawnInvitation address args.pseudonym row := by
    intro hfound hemail
    rw [hfound] at h
    cases h
    rw [hemail, hstart]
    exact Option.map_id'.symm
  cases email with
  | none => exact hnone rfl rfl
  | some address =>
      by_cases hempty : address = ""
      · exact hnone (if_pos hempty) (by simp [Option.filter, hempty])
      · have hfound : invitationsFor (some address) (p d) =
            ((Db.invitations d).select fun _ row => row.inviteeEmail == address).map Prod.fst := by
          rw [← hstart]
          exact if_neg hempty
        rw [hfound] at h
        have hall := (rewrites_withdrawInvitation d address args.pseudonym).all hstart h k
        rw [hall]
        cases d.invitations.get k with
        | none => rfl
        | some row => simp [Option.filter, hempty]

/-- What a statement on contact changes leaves alone. -/
def Db.besideChanges (d : Db) :
    Table Uuid User × Table Uuid Identity × Table Uuid Invitation × Table Uuid Referral :=
  (d.users, d.identities, d.invitations, d.referrals)

def Db.besideIdentities (d : Db) :
    Table Uuid User × Table Uuid Invitation × Table Uuid Referral ×
      Table Uuid ContactChangeRequest :=
  (d.users, d.invitations, d.referrals, d.contactChanges)

def Db.besideInvitations (d : Db) :
    Table Uuid User × Table Uuid Identity × Table Uuid Referral ×
      Table Uuid ContactChangeRequest :=
  (d.users, d.identities, d.referrals, d.contactChanges)

/-- The statements on requests and tokens reach contact changes alone. -/
theorem requests_erased {found : RequestsFound}
    (h : (eraseRequests args.userId phone).alone d id = .ok (found, p)) :
    (∀ k, (p d).contactChanges.get k =
      (d.contactChanges.get k).bind (keepUnless (·.userId == args.userId))) ∧
      (p d).besideChanges = d.besideChanges := by
  unfold eraseRequests at h
  obtain ⟨_, p₁, h₁, h⟩ := Tx.alone_bind_eq_ok h
  cases h₁
  obtain ⟨_, p₂, h₂, h⟩ := Tx.alone_bind_eq_ok h
  obtain ⟨_, p₃, h₃, h⟩ := Tx.alone_bind_eq_ok h
  cases h₃
  obtain ⟨_, p₄, h₄, h⟩ := Tx.alone_bind_eq_ok h
  obtain ⟨_, p₅, h₅, h⟩ := Tx.alone_bind_eq_ok h
  cases h₅
  obtain ⟨_, p₆, h₆, h⟩ := Tx.alone_bind_eq_ok h
  obtain ⟨_, p₇, h₇, h⟩ := Tx.alone_bind_eq_ok h
  cases h₇
  obtain ⟨_, p₈, h₈, h⟩ := Tx.alone_bind_eq_ok h
  cases h
  have hcancelled : (p₄ d).contactTables = (p₂ d).contactTables :=
    keeps_each h₄ (guarantees_cancelExport fun _ _ _ _ => rfl)
  have hmailed : (p d).contactTables = (p₆ d).contactTables :=
    keeps_each h₈ (guarantees_deleteMailed fun _ _ _ _ => rfl)
  have hbeside : (p₆ d).besideChanges = (p₄ d).besideChanges :=
    keeps_each h₆ (guarantees_deleteContactChange fun _ _ => rfl)
  have hbefore : (p₄ d).contactTables = d.contactTables := by
    rw [hcancelled]
    cases h₂
    rfl
  have hstart : (p₄ d).contactChanges = d.contactChanges :=
    congrArg ContactTables.contactChanges hbefore
  constructor
  · intro k
    rw [show (p d).contactChanges = (p₆ d).contactChanges from
      congrArg ContactTables.contactChanges hmailed]
    dsimp only at h₆
    rw [hstart] at h₆
    exact (rewrites_deleteContactChange d args.userId).all hstart h₆ k
  · calc (p d).besideChanges
        = (p₆ d).besideChanges := congrArg (fun t : ContactTables =>
          (t.users, t.identities, t.invitations, t.referrals)) hmailed
      _ = (p₄ d).besideChanges := hbeside
      _ = d.besideChanges := congrArg (fun t : ContactTables =>
          (t.users, t.identities, t.invitations, t.referrals)) hbefore

theorem rows_erased {found : ErasureFound}
    (h : (eraseRows args email phone).alone d id = .ok (found, p)) :
    ContactsErased args email phone d (p d) := by
  unfold eraseRows at h
  dsimp only at h
  obtain ⟨_, p₀, h₀, h⟩ := Tx.alone_bind_eq_ok h
  obtain ⟨_, p₁, h₁, h⟩ := Tx.alone_bind_eq_ok h
  cases h₁
  obtain ⟨_, p₂, h₂, h⟩ := Tx.alone_bind_eq_ok h
  obtain ⟨_, p₃, h₃, h⟩ := Tx.alone_bind_eq_ok h
  cases h₃
  obtain ⟨_, p₄, h₄, h⟩ := Tx.alone_bind_eq_ok h
  obtain ⟨_, p₅, h₅, h⟩ := Tx.alone_bind_eq_ok h
  obtain ⟨_, p₆, h₆, h⟩ := Tx.alone_bind_eq_ok h
  cases h₆
  obtain ⟨_, p₇, h₇, h⟩ := Tx.alone_bind_eq_ok h
  obtain ⟨_, p₈, h₈, h⟩ := Tx.alone_bind_eq_ok h
  cases h₈
  obtain ⟨_, p₉, h₉, h⟩ := Tx.alone_bind_eq_ok h
  obtain ⟨_, p₁₀, h₁₀, h⟩ := Tx.alone_bind_eq_ok h
  cases h₁₀
  obtain ⟨_, p₁₁, h₁₁, h⟩ := Tx.alone_bind_eq_ok h
  obtain ⟨_, p₁₂, h₁₂, h⟩ := Tx.alone_bind_eq_ok h
  obtain ⟨_, p₁₃, h₁₃, h⟩ := Tx.alone_bind_eq_ok h
  cases h₁₃
  obtain ⟨_, p₁₄, h₁₄, h⟩ := Tx.alone_bind_eq_ok h
  obtain ⟨_, p₁₅, h₁₅, h⟩ := Tx.alone_bind_eq_ok h
  cases h₁₅
  obtain ⟨_, p₁₆, h₁₆, h⟩ := Tx.alone_bind_eq_ok h
  obtain ⟨_, p₁₇, h₁₇, h⟩ := Tx.alone_bind_eq_ok h
  cases h
  obtain ⟨hchanges, hrequests⟩ := requests_erased h₀
  -- factors, devices, staff roles and bindings
  have hfactors : (p₇ d).contactTables = (p₀ d).contactTables :=
    calc (p₇ d).contactTables
        = (p₅ d).contactTables := keeps_each h₇ (guarantees_deleteBinding fun _ _ _ _ => rfl)
      _ = (p₄ d).contactTables := by
          cases h₅
          rfl
      _ = (p₂ d).contactTables := keeps_each h₄ (guarantees_deleteDevice fun _ _ _ _ => rfl)
      _ = (p₀ d).contactTables := keeps_each h₂ (guarantees_deleteFactor fun _ _ _ => rfl)
  have hidentities : (p₉ d).besideIdentities = (p₇ d).besideIdentities :=
    keeps_each h₉ (guarantees_deleteIdentity fun _ _ _ _ => rfl)
  have hfamilies : (p₁₁ d).contactTables = (p₉ d).contactTables :=
    keeps_each h₁₁ (guarantees_deleteFamily fun _ _ _ => rfl)
  have hinvitations : (p₁₄ d).besideInvitations = (p₁₂ d).besideInvitations :=
    keeps_each h₁₄ (guarantees_withdrawInvitation (fun _ _ _ => rfl) _ _)
  have hworkspaces : (p₁₆ d).contactTables = (p₁₄ d).contactTables :=
    keeps_each h₁₆ (guarantees_closePersonal (fun _ _ _ => rfl) _)
  cases h₁₂
  cases h₁₇
  refine ⟨?_, fun k => ?_, fun k => ?_, ?_, fun k => ?_⟩
  · have husers : (p₁₆ d).users = d.users :=
      calc (p₁₆ d).users
          = (p₁₄ d).users := congrArg ContactTables.users hworkspaces
        _ = (p₁₁ d).users := congrArg (·.1) hinvitations
        _ = (p₉ d).users := congrArg ContactTables.users hfamilies
        _ = (p₇ d).users := congrArg (·.1) hidentities
        _ = (p₀ d).users := congrArg ContactTables.users hfactors
        _ = d.users := congrArg (·.1) hrequests
    change ((DbChange.anonymizeUser args.userId email phone args.now).apply (p₁₆ d)).users = _
    simp only [DbChange.anonymizeUser, husers]
  · have hbefore : (p₇ d).identities = d.identities :=
      (congrArg ContactTables.identities hfactors).trans (congrArg (·.2.1) hrequests)
    have hafter : (p₁₆ d).identities = (p₉ d).identities :=
      calc (p₁₆ d).identities
          = (p₁₄ d).identities := congrArg ContactTables.identities hworkspaces
        _ = (p₁₁ d).identities := congrArg (·.2.1) hinvitations
        _ = (p₉ d).identities := congrArg ContactTables.identities hfamilies
    dsimp only at h₉
    rw [hbefore] at h₉
    change (p₁₆ d).identities.get k = _
    rw [hafter]
    exact (rewrites_deleteIdentity d args.userId).all hbefore h₉ k
  · have hafter : (p₁₆ d).contactChanges = (p₀ d).contactChanges :=
      calc (p₁₆ d).contactChanges
          = (p₁₄ d).contactChanges := congrArg ContactTables.contactChanges hworkspaces
        _ = (p₁₁ d).contactChanges := congrArg (·.2.2.2) hinvitations
        _ = (p₉ d).contactChanges := congrArg ContactTables.contactChanges hfamilies
        _ = (p₇ d).contactChanges := congrArg (·.2.2.2) hidentities
        _ = (p₀ d).contactChanges := congrArg ContactTables.contactChanges hfactors
    change (p₁₆ d).contactChanges.get k = _
    rw [hafter]
    exact hchanges k
  · have hbefore : (p₁₁ d).referrals = d.referrals :=
      calc (p₁₁ d).referrals
          = (p₉ d).referrals := congrArg ContactTables.referrals hfamilies
        _ = (p₇ d).referrals := congrArg (·.2.2.1) hidentities
        _ = (p₀ d).referrals := congrArg ContactTables.referrals hfactors
        _ = d.referrals := congrArg (·.2.2.2) hrequests
    have hafter : (p₁₆ d).referrals =
        ((DbChange.withdrawReferred args.userId (erasedAddress args.pseudonym)).apply
          ((DbChange.deleteReferrals args.userId).apply (p₁₁ d))).referrals :=
      (congrArg ContactTables.referrals hworkspaces).trans (congrArg (·.2.2.1) hinvitations)
    change (p₁₆ d).referrals = _
    rw [hafter]
    simp only [DbChange.withdrawReferred, DbChange.deleteReferrals, hbefore]
  · have hbefore : (p₁₁ d).invitations = d.invitations :=
      calc (p₁₁ d).invitations
          = (p₉ d).invitations := congrArg ContactTables.invitations hfamilies
        _ = (p₇ d).invitations := congrArg (·.2.1) hidentities
        _ = (p₀ d).invitations := congrArg ContactTables.invitations hfactors
        _ = d.invitations := congrArg (·.2.2.1) hrequests
    have hafter : (p₁₆ d).invitations = (p₁₄ d).invitations :=
      congrArg ContactTables.invitations hworkspaces
    change (p₁₆ d).invitations.get k = _
    rw [hafter]
    exact invitations_withdrawn h₁₄ hbefore k

end Rows

/-- An erasure that runs alone and completes has gone through its rows. -/
theorem contacts_of_executed {i : Nat} {pass : World → Bool} {c c' : Core Db World}
    {args : ErasureArgs} {record : PrivacyRequestRecord}
    (hopen : ∀ request, c.db.requests.get args.requestId = some request →
      request.state ≠ "completed")
    (h : (executeErasure args).solo i pass c = some (.ok (.ok (some record)), c')) :
    ∃ row, c.db.users.get args.userId = some row ∧
      ContactsErased args row.email row.phoneE164 c.db c'.db := by
  obtain ⟨b, change, x, hbody, hrest⟩ | ⟨fault, x, _, hrest⟩ := Prog.solo_txn_eq_some h
  · obtain ⟨houtcome, rfl⟩ := Prod.mk.inj (Option.some.inj hrest)
    obtain ⟨request, p₁, hrequest, hbody⟩ := Tx.alone_bind_eq_ok hbody
    obtain ⟨view, p₂, hview, hbody⟩ := Tx.alone_bind_eq_ok hbody
    obtain ⟨hlocked, rfl⟩ : c.db.requests.get args.requestId = request ∧ id = p₁ := by
      cases hrequest
      exact ⟨rfl, rfl⟩
    obtain ⟨hrow, rfl⟩ : c.db.users.get args.userId = UserView.row view ∧ id = p₂ := by
      cases hview
      exact ⟨rfl, rfl⟩
    have hnothing : ∀ {outcome : ErasureOutcome} {p : Db → Db},
        Tx.alone c.db id (return (outcome, none) : Trans _) = .ok (b, p) → False := by
      intro outcome p hreturn
      cases hreturn
      cases houtcome
    cases request with
    | none => exact (hnothing hbody).elim
    | some request =>
        cases huser : UserView.row view with
        | none =>
            dsimp only at hbody
            rw [huser] at hbody
            exact (hnothing hbody).elim
        | some row =>
            dsimp only at hbody
            rw [huser] at hbody
            dsimp only at hbody
            split at hbody
            · exact (hnothing hbody).elim
            · rw [if_neg (hopen request hlocked)] at hbody
              obtain ⟨sole, p₃, hsole, hbody⟩ := Tx.alone_bind_eq_ok hbody
              obtain ⟨answer, hguard, _⟩ := alone_hasSoleOwnedOrganization c.db args.userId
              obtain ⟨rfl, rfl⟩ := Prod.mk.inj (Except.ok.inj (hguard.symm.trans hsole))
              split at hbody
              · obtain ⟨_, _, _, hreturn⟩ := Tx.alone_bind_eq_ok hbody
                cases hreturn
                cases houtcome
              · obtain ⟨found, p₄, hrows, hreturn⟩ := Tx.alone_bind_eq_ok hbody
                cases hreturn
                exact ⟨row, hrow.trans huser, rows_erased hrows⟩
  · cases hrest

def User.Mentions (value : String) (row : User) : Prop :=
  some value ∈ [row.email, row.givenName, row.familyName, row.phoneE164]

def Identity.Mentions (value : String) (row : Identity) : Prop :=
  row.providerSubject = value ∨ row.passwordHash = some value

def Invitation.Mentions (value : String) (row : Invitation) : Prop :=
  row.inviteeEmail = value ∨ value ∈ row.proposedRoles

def Referral.Mentions (value : String) (row : Referral) : Prop :=
  row.inviteeEmail = value

def ContactChangeRequest.Mentions (value : String) (row : ContactChangeRequest) : Prop :=
  row.oldValue = value ∨ row.newValue = value

/-- The value is in no column of the five tables. -/
structure Unmentioned (value : String) (d : Db) : Prop where
  users : ∀ k row, d.users.get k = some row → ¬row.Mentions value
  identities : ∀ k row, d.identities.get k = some row → ¬row.Mentions value
  contactChanges : ∀ k row, d.contactChanges.get k = some row → ¬row.Mentions value
  referrals : ∀ k row, d.referrals.get k = some row → ¬row.Mentions value
  invitations : ∀ k row, d.invitations.get k = some row → ¬row.Mentions value

/-- The value is in no row that an erasure of `user` does not reach: a row of
somebody else, a referral that the user neither made nor registered with, an
invitation that does not name `email`.  Where a row is reached, `address` takes
the place of the one it names. -/
structure Covered (user : Uuid) (email : Option String) (address value : String) (d : Db) :
    Prop where
  users : ∀ k row, d.users.get k = some row → k ≠ user → ¬row.Mentions value
  identities : ∀ k row, d.identities.get k = some row → row.userId ≠ user → ¬row.Mentions value
  contactChanges : ∀ k row, d.contactChanges.get k = some row → row.userId ≠ user →
    ¬row.Mentions value
  referrals : ∀ k row, d.referrals.get k = some row → row.referrerUserId ≠ user →
    (if row.referredUserId = some user then address else row.inviteeEmail) ≠ value
  invitations : ∀ k row, d.invitations.get k = some row →
    (if email = some row.inviteeEmail then address else row.inviteeEmail) ≠ value ∧
      value ∉ row.proposedRoles

/-- The rows that do not have `own` are as they were. -/
def KeptRows {V : Type} (own : V → Prop) (t t' : Table Uuid V) : Prop :=
  ∀ k, (∀ row, t.get k = some row → ¬own row) → t'.get k = t.get k

structure OthersKept (user : Uuid) (email : Option String) (d d' : Db) : Prop where
  users : ∀ k, k ≠ user → d'.users.get k = d.users.get k
  identities : KeptRows (·.userId = user) d.identities d'.identities
  contactChanges : KeptRows (·.userId = user) d.contactChanges d'.contactChanges
  referrals : KeptRows (fun row => row.referrerUserId = user ∨ row.referredUserId = some user)
    d.referrals d'.referrals
  invitations : KeptRows (fun row => email = some row.inviteeEmail) d.invitations d'.invitations

def NamesGone (user : Uuid) (d : Db) : Prop :=
  ∃ row, d.users.get user = some row ∧ row.givenName = none ∧ row.familyName = none

section Mentions

variable {V : Type} {args : ErasureArgs} {row : User} {d d' : Db} {value : String}

theorem bind_keepUnless {o : Option V} {own : V → Bool} {x : V} :
    o.bind (keepUnless own) = some x ↔ o = some x ∧ own x = false := by
  rw [Option.bind_eq_some_iff]
  constructor
  · rintro ⟨y, rfl, hy⟩
    by_cases hown : own y = true
    · rw [keepUnless, if_pos hown] at hy
      cases hy
    · rw [keepUnless, if_neg hown] at hy
      cases hy
      exact ⟨rfl, by simpa using hown⟩
  · rintro ⟨rfl, hown⟩
    exact ⟨x, rfl, by simp [keepUnless, hown]⟩

theorem keptRows_of_keepUnless {t t' : Table Uuid V} {own : V → Bool} {p : V → Prop}
    (hp : ∀ x, own x = true → p x) (h : ∀ k, t'.get k = (t.get k).bind (keepUnless own)) :
    KeptRows p t t' := by
  intro k hkept
  rw [h]
  cases hget : t.get k with
  | none => rfl
  | some x =>
      have hnot : ¬own x = true := fun hown => hkept x hget (hp x hown)
      exact if_neg hnot

theorem ContactsErased.user (h : ContactsErased args row.email row.phoneE164 d d')
    (hrow : d.users.get args.userId = some row) : d'.users.get args.userId = some
      { row with email := none, givenName := none, familyName := none, phoneE164 := none,
                 state := .anonymized, anonymizedAt := some args.now,
                 version := row.version + 1 } := by
  rw [h.users]
  change (d.users.update _ _).get _ = _
  rw [Table.get_update, hrow]
  simp

theorem ContactsErased.users_other {email phone : Option String}
    (h : ContactsErased args email phone d d') {k : Uuid} (hk : k ≠ args.userId) :
    d'.users.get k = d.users.get k := by
  rw [h.users]
  change (d.users.update _ _).get _ = _
  rw [Table.get_update]
  cases d.users.get k with
  | none => rfl
  | some row => simp [hk]

theorem ContactsErased.referral {email phone : Option String}
    (h : ContactsErased args email phone d d') (k : Uuid) : d'.referrals.get k =
      ((d.referrals.get k).bind (keepUnless (·.referrerUserId == args.userId))).map fun r =>
        if r.referredUserId = some args.userId then
          DbChange.withdrawn (erasedAddress args.pseudonym) r
        else r := by
  rw [h.referrals, Table.get_update, Table.get_delete]
  cases d.referrals.get k with
  | none => rfl
  | some r =>
      by_cases hown : r.referrerUserId = args.userId
      · simp [Option.filter, keepUnless, hown]
      · simp [Option.filter, keepUnless, hown]

theorem withdrawnInvitation_mentions {email : Option String} {pseudonym : String}
    {r : Invitation} : (match email with
      | none => r
      | some address => withdrawnInvitation address pseudonym r).Mentions value ↔
      (if email = some r.inviteeEmail then erasedAddress pseudonym else r.inviteeEmail) = value ∨
        value ∈ r.proposedRoles := by
  cases email with
  | none => simp [Invitation.Mentions]
  | some address =>
      by_cases hsame : r.inviteeEmail = address
      · simp [withdrawnInvitation, Invitation.Mentions, hsame]
      · simp [withdrawnInvitation, Invitation.Mentions, hsame, Ne.symm hsame]

theorem ContactsErased.unmentioned_iff (h : ContactsErased args row.email row.phoneE164 d d')
    (hrow : d.users.get args.userId = some row) : Unmentioned value d' ↔
      Covered args.userId (row.email.filter (· ≠ "")) (erasedAddress args.pseudonym) value d := by
  constructor
  · intro hgone
    refine ⟨fun k r hget hk => ?_, fun k r hget hown => ?_, fun k r hget hown => ?_,
      fun k r hget hown => ?_, fun k r hget => ?_⟩
    · exact hgone.users k r ((h.users_other hk).trans hget)
    · exact hgone.identities k r (by
        rw [h.identities, bind_keepUnless]
        exact ⟨hget, by simpa using hown⟩)
    · exact hgone.contactChanges k r (by
        rw [h.contactChanges, bind_keepUnless]
        exact ⟨hget, by simpa using hown⟩)
    · have hleft := hgone.referrals k _ (by
        rw [h.referral, bind_keepUnless.mpr ⟨hget, by simpa using hown⟩, Option.map_some])
      by_cases hreferred : r.referredUserId = some args.userId
      · rw [if_pos hreferred] at hleft ⊢
        exact hleft
      · rw [if_neg hreferred] at hleft ⊢
        exact hleft
    · have hleft := hgone.invitations k _ (by rw [h.invitations, hget, Option.map_some])
      rw [withdrawnInvitation_mentions, not_or] at hleft
      exact hleft
  · intro hcovered
    refine ⟨fun k r hget => ?_, fun k r hget => ?_, fun k r hget => ?_, fun k r hget => ?_,
      fun k r hget => ?_⟩
    · by_cases hk : k = args.userId
      · rw [hk, h.user hrow] at hget
        cases hget
        simp [User.Mentions]
      · exact hcovered.users k r ((h.users_other hk).symm.trans hget) hk
    · rw [h.identities, bind_keepUnless] at hget
      exact hcovered.identities k r hget.1 (by simpa using hget.2)
    · rw [h.contactChanges, bind_keepUnless] at hget
      exact hcovered.contactChanges k r hget.1 (by simpa using hget.2)
    · rw [h.referral, Option.map_eq_some_iff] at hget
      obtain ⟨old, hold, rfl⟩ := hget
      obtain ⟨hold, hown⟩ := bind_keepUnless.mp hold
      have hleft := hcovered.referrals k old hold (by simpa using hown)
      by_cases hreferred : old.referredUserId = some args.userId
      · rw [if_pos hreferred] at hleft ⊢
        exact hleft
      · rw [if_neg hreferred] at hleft ⊢
        exact hleft
    · rw [h.invitations, Option.map_eq_some_iff] at hget
      obtain ⟨old, hold, rfl⟩ := hget
      rw [withdrawnInvitation_mentions, not_or]
      exact hcovered.invitations k old hold

theorem ContactsErased.othersKept (h : ContactsErased args row.email row.phoneE164 d d') :
    OthersKept args.userId row.email d d' where
  users k hk := h.users_other hk
  identities := keptRows_of_keepUnless (fun _ hown => by simpa using hown) h.identities
  contactChanges := keptRows_of_keepUnless (fun _ hown => by simpa using hown) h.contactChanges
  referrals k hkept := by
    rw [h.referral]
    cases hget : d.referrals.get k with
    | none => rfl
    | some r =>
        have hnot := hkept r hget
        simp only [not_or] at hnot
        simp [keepUnless, hnot.1, hnot.2]
  invitations k hkept := by
    rw [h.invitations]
    cases hget : d.invitations.get k with
    | none => rfl
    | some r =>
        have hnot := hkept r hget
        cases hemail : row.email with
        | none => simp
        | some address =>
            have hne : r.inviteeEmail ≠ address := fun heq =>
              hnot (hemail.trans (congrArg some heq.symm))
            by_cases hempty : address = ""
            · simp [Option.filter, hempty]
            · simp [Option.filter, hempty, withdrawnInvitation, hne]

end Mentions

/-- After an erasure nothing names the contacts that the user had, the user's names
are gone and the rows of others are as they were, exactly when no row that the
erasure does not reach names one of the contacts. -/
theorem erasure_contacts {i : Nat} {pass : World → Bool} {c c' : Core Db World}
    {args : ErasureArgs} {record : PrivacyRequestRecord}
    (hopen : ∀ request, c.db.requests.get args.requestId = some request →
      request.state ≠ "completed")
    (h : (executeErasure args).solo i pass c = some (.ok (.ok (some record)), c')) :
    ∃ row, c.db.users.get args.userId = some row ∧
      (((∀ value, row.email = some value ∨ row.phoneE164 = some value →
            Unmentioned value c'.db) ∧
          NamesGone args.userId c'.db ∧ OthersKept args.userId row.email c.db c'.db) ↔
        ∀ value, row.email = some value ∨ row.phoneE164 = some value →
          Covered args.userId (row.email.filter (· ≠ "")) (erasedAddress args.pseudonym) value
            c.db) := by
  obtain ⟨row, hrow, herased⟩ := contacts_of_executed hopen h
  have hnames : NamesGone args.userId c'.db := ⟨_, herased.user hrow, rfl, rfl⟩
  refine ⟨row, hrow, fun hgone value hvalue => ?_, fun hcovered =>
    ⟨fun value hvalue => ?_, hnames, herased.othersKept⟩⟩
  · exact (herased.unmentioned_iff hrow).mp (hgone.1 value hvalue)
  · exact (herased.unmentioned_iff hrow).mpr (hcovered value hvalue)

/-- Ann's erasure is being processed; Bob once sent her a referral, and she
registered without it. -/
def referredDb : Db :=
  { sampleDb [⟨.given 1, "ann", .active⟩, ⟨.given 2, "bob", .active⟩] with
    requests := sampleTable [(.given 501, ⟨.given 1, "processing", 7, none, none, none⟩)]
    referrals := sampleTable
      [(.given 601, ⟨.given 2, "ann", 8, none, .expired, 1000⟩)] }

def sampleErasure : ErasureArgs :=
  ⟨.given 501, .given 1, "someone", 2000, 3000⟩

def sampleErased : PrivacyRequestRecord :=
  ⟨.given 501, .given 1, "completed", some 2000, none, some 3000, none⟩

/-- Bob's referral still names Ann's address. -/
theorem erasure_leaves_referral : ∃ c',
    (executeErasure sampleErasure).solo 0 (fun _ => true) (sampleStart referredDb) =
        some (.ok (.ok (some sampleErased)), c') ∧
      (referredDb.users.get (.given 1)).bind (·.email) = some "ann" ∧
      ¬Unmentioned "ann" c'.db := by
  have hrun : ((executeErasure sampleErasure).solo 0 (fun _ => true)
      (sampleStart referredDb)).map (fun r =>
        (r.1, (r.2.db.referrals.get (.given 601)).map (·.inviteeEmail))) =
      some (.ok (.ok (some sampleErased)), some "ann") := by decide +kernel
  obtain ⟨⟨result, c'⟩, hsolo, heq⟩ := Option.map_eq_some_iff.mp hrun
  obtain ⟨rfl, hreferral⟩ := Prod.mk.inj heq
  obtain ⟨row, hget, hmentions⟩ := Option.map_eq_some_iff.mp hreferral
  exact ⟨c', hsolo, rfl, fun hgone => hgone.referrals _ row hget hmentions⟩

/-- Nobody names Ann but her own rows. -/
def annAloneDb : Db :=
  { referredDb with referrals := ∅ }

theorem annAloneDb_covered : Covered (.given 1) (some "ann") (erasedAddress "someone") "ann"
    annAloneDb where
  users k row hget hk := by
    have hall : ∀ entry ∈ annAloneDb.users.rows.entries, entry.1 ≠ .given 1 →
        some "ann" ∉ [entry.2.email, entry.2.givenName, entry.2.familyName,
          entry.2.phoneE164] := by decide +kernel
    exact hall _ (Table.get_eq_some_iff.mp hget) hk
  identities k row hget hown := by
    have hall : ∀ entry ∈ annAloneDb.identities.rows.entries, entry.2.userId ≠ .given 1 →
        ¬(entry.2.providerSubject = "ann" ∨ entry.2.passwordHash = some "ann") := by
      decide +kernel
    exact hall _ (Table.get_eq_some_iff.mp hget) hown
  contactChanges k row hget := by cases hget
  referrals k row hget := by cases hget
  invitations k row hget := by cases hget

theorem erasure_contacts_of_ann : ∃ c' : Core Db World,
    (executeErasure sampleErasure).solo 0 (fun _ => true) (sampleStart annAloneDb) =
        some (.ok (.ok (some sampleErased)), c') ∧
      Unmentioned "ann" c'.db ∧ NamesGone (.given 1) c'.db := by
  have hrun : ((executeErasure sampleErasure).solo 0 (fun _ => true)
      (sampleStart annAloneDb)).map Prod.fst = some (.ok (.ok (some sampleErased))) := by
    decide +kernel
  obtain ⟨⟨result, c'⟩, hsolo, rfl⟩ := Option.map_eq_some_iff.mp hrun
  obtain ⟨row, hrow, hiff⟩ := erasure_contacts (fun request hget => by
    cases hget
    decide) hsolo
  cases hrow
  have hleft := hiff.mpr fun value hvalue => by
    rcases hvalue with hvalue | hvalue
    · cases hvalue
      exact annAloneDb_covered
    · cases hvalue
  exact ⟨c', hsolo, hleft.1 "ann" (Or.inl rfl), hleft.2.1⟩

end AuthCore
