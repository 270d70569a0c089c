/-
Referrals: an active user invites an address, the account registered with the mailed token claims
the invitation, and the proof of that address completes it.  The statements run under a row policy:
`sees user referral` says which rows the context of a user reaches.
-/
import AuthCore.History.Frames
import AuthCore.History.Recoveries
import AuthCore.Interleave.Upholds

namespace AuthCore

open Interleave Relational

inductive ReferralRow where
  | referral (id : Uuid)
  | token (hash : Digest)
deriving DecidableEq, Repr

def ReferralRow.View : ReferralRow → Type
  | referral _ => Option Referral
  | token _ => List Uuid

def ReferralRow.view : (row : ReferralRow) → Db → row.View
  | referral id, d => d.referrals.get id
  | token hash, d => (d.referrals.select fun _ r => r.tokenHash == hash).map Prod.fst

abbrev referralRows : Rows Db where
  Row := ReferralRow
  View := ReferralRow.View
  view := ReferralRow.view

/-- Every row of the database, the referrals with it. -/
abbrev wholeSchema : Rows Db := schema.sum referralRows

abbrev ReferralProc := Prog wholeSchema World AuthError
abbrev ReferralTrans := Tx wholeSchema World AuthError

/-- A referral shows what it did when no referral changes. -/
theorem same_of_referrals {d d' : Db} (h : d'.referrals = d.referrals) :
    referralRows.Same d d' := by
  intro row
  cases row with
  | referral id => exact congrArg (·.get id) h
  | token hash =>
      exact congrArg (fun t : Table Uuid Referral =>
        (t.select fun _ r => r.tokenHash == hash).map Prod.fst) h

namespace ReferralChange

/-- One row of `UPDATE referrals SET … WHERE cond`. -/
def set (id : Uuid) (cond : Referral → Bool) (g : Referral → Referral)
    (hg : ∀ r, (g r).tokenHash = r.tokenHash) : Change wholeSchema where
  rows := [.inr (.referral id)]
  apply d := { d with referrals := d.referrals.update (fun k r => k == id && cond r) g }
  confined row hrow d := by
    cases row with
    | inl row =>
        cases row with
        | index key => cases key <;> rfl
        | _ => rfl
    | inr row =>
        cases row with
        | referral k =>
            have hne : k ≠ id := fun heq => hrow (by rw [heq]; exact List.mem_singleton_self _)
            change (Db.referrals _).get k = (Db.referrals _).get k
            simp [Table.get_update, hne]
        | token hash =>
            exact Table.keys_select_update (p := fun k r => k == id && cond r) (g := g)
              (q := fun _ r => r.tokenHash == hash) (fun k r _ => by simp only [hg]) d.referrals

def add (id : Uuid) (referral : Referral) : Change wholeSchema where
  rows := [.inr (.referral id), .inr (.token referral.tokenHash)]
  apply d := { d with referrals := d.referrals.add id referral }
  confined row hrow d := by
    cases row with
    | inl row =>
        cases row with
        | index key => cases key <;> rfl
        | _ => rfl
    | inr row =>
        simp only [List.mem_cons, Sum.inr.injEq, List.not_mem_nil, or_false, not_or] at hrow
        cases row with
        | referral k =>
            have hne : k ≠ id := by simpa using hrow.1
            change (Db.referrals _).get k = (Db.referrals _).get k
            simp [Table.get_add, hne]
        | token hash =>
            have hne : hash ≠ referral.tokenHash := by simpa using hrow.2
            exact congrArg (List.map Prod.fst)
              (Table.select_add (by simpa using hne.symm) d.referrals)

/-- One row of `DELETE FROM referrals WHERE cond`. -/
def delete (id : Uuid) (hash : Digest) (cond : Referral → Bool) : Change wholeSchema where
  rows := [.inr (.referral id), .inr (.token hash)]
  apply d := { d with referrals := d.referrals.delete fun k r =>
    k == id && r.tokenHash == hash && cond r }
  confined row hrow d := by
    cases row with
    | inl row =>
        cases row with
        | index key => cases key <;> rfl
        | _ => rfl
    | inr row =>
        simp only [List.mem_cons, Sum.inr.injEq, List.not_mem_nil, or_false, not_or] at hrow
        cases row with
        | referral k =>
            have hne : k ≠ id := by simpa using hrow.1
            exact Table.get_delete_of_out (by simp [hne]) d.referrals
        | token other =>
            have hne : other ≠ hash := by simpa using hrow.2
            refine congrArg (List.map Prod.fst) (Table.select_delete
              (p := fun k r => k == id && r.tokenHash == hash && cond r)
              (q := fun _ r => r.tokenHash == other) (fun k r hr => ?_) d.referrals)
            simp only [Bool.and_eq_true, beq_iff_eq] at hr
            simpa [hr.1.2] using hne.symm

def audit (entry : AuditLog) : Change wholeSchema :=
  (DbChange.addAudit entry).inl fun _ => same_of_referrals rfl

end ReferralChange

namespace ReferralRepository

def lockReferral (id : Uuid) : ReferralTrans (Option Referral) :=
  .lock (L := wholeSchema) (.inr (.referral id)) .ret

def write (change : Change wholeSchema) : ReferralTrans Unit :=
  .write change (.ret ())

/-- A plain query of a transaction. -/
def ask {β : Type} (query : Db → β) : ReferralTrans β :=
  .select query (fun _ _ w => w) .ret

/-- A query in a session of its own. -/
def look {β : Type} (query : Db → β) : ReferralProc β :=
  .act (fun _ d w => [(query d, w)]) .done

variable (sees : Uuid → Referral → Bool)

/-- One row of an update.  The policy also judges the row it makes. -/
def changeRow (user : Uuid) (cond : Referral → Bool) (g : Referral → Referral)
    (hg : ∀ r, (g r).tokenHash = r.tokenHash) (id : Uuid) : ReferralTrans Unit := do
  match ← lockReferral id with
  | none => return ()
  | some row =>
      if sees user row && cond row then
        if sees user (g row) then
          write (ReferralChange.set id (fun r => sees user r && cond r) g hg)
        else
          .raise (.thrown .unhandled)
      else
        return ()

/-- `UPDATE referrals SET … WHERE cond` in the context of a user. -/
def update (user : Uuid) (cond : Referral → Bool) (g : Referral → Referral)
    (hg : ∀ r, (g r).tokenHash = r.tokenHash) : ReferralTrans Unit := do
  let found ← ask fun d => (d.referrals.select fun _ r => sees user r && cond r).map Prod.fst
  Tx.each (changeRow sees user cond g hg) found

def deleteRow (user : Uuid) (cond : Referral → Bool) (id : Uuid) : ReferralTrans Unit := do
  match ← lockReferral id with
  | none => return ()
  | some row =>
      if sees user row && cond row then
        write (ReferralChange.delete id row.tokenHash fun r => sees user r && cond r)
      else
        return ()

/-- `DELETE FROM referrals WHERE cond` in the context of a user. -/
def delete (user : Uuid) (cond : Referral → Bool) : ReferralTrans Unit := do
  let found ← ask fun d => (d.referrals.select fun _ r => sees user r && cond r).map Prod.fst
  Tx.each (deleteRow sees user cond) found

inductive Eligibility where
  | eligible
  | self
  | existingUser
deriving DecidableEq, Repr

/-- `referral_eligibility`, of an address that is normalised already. -/
def referralEligibility (normalizeEmail : String → String) (referrer : Uuid) (email : String) :
    ReferralProc Eligibility := do
  match ← look fun d => d.users.get referrer with
  | none => return .existingUser
  | some user =>
      if user.state ≠ .active then
        return .existingUser
      else if (user.email.map normalizeEmail) = some email ∧ user.email ≠ some "" then
        return .self
      else
        let existing ← look fun d => (d.users.select fun _ u => u.email == some email &&
          u.anonymizedAt.isNone).head?
        if existing.isSome then
          return .existingUser
        else
          return .eligible

structure ReferralArgs where
  referrer : Uuid
  email : String
  tokenHash : Digest
  expiresAt : Time
  referralId : Uuid
deriving DecidableEq, Repr

/-- The row and its token are new, and the policy lets the row in. -/
def insertReferral (args : ReferralArgs) : ReferralTrans (Uuid × Referral) := do
  let row : Referral := ⟨args.referrer, args.email, args.tokenHash, none, .invited, args.expiresAt⟩
  let taken ← lockReferral args.referralId
  let holders ← Tx.lock (L := wholeSchema) (.inr (.token args.tokenHash)) .ret
  if taken.isSome || !(show List Uuid from holders).isEmpty then
    .raise .integrity
  else if sees args.referrer row then
    write (ReferralChange.add args.referralId row)
    write (ReferralChange.audit ⟨some args.referrer, none, none, "REFERRAL_CREATED", "success"⟩)
    return (args.referralId, row)
  else
    .raise (.thrown .unhandled)

/-- An earlier invitation of the same address is withdrawn first. -/
def createReferral (args : ReferralArgs) : ReferralProc (Uuid × Referral) :=
  .txn (fun _ _ w => w)
    (do
      update sees args.referrer
        (fun r => r.referrerUserId == args.referrer && r.inviteeEmail == args.email &&
          r.state == .invited) (fun r => { r with state := .revoked }) fun _ => rfl
      insertReferral sees args)
    fun
    | .ok created => .done created
    | .error _ => .raise .unhandled

/-- `revoke_referral`; a referral that has been used stays. -/
def revokeReferral (referrer id : Uuid) : ReferralProc Unit :=
  .txn (fun _ _ w => w)
    (do
      let found ← ask fun d => (d.referrals.select fun k r => k == id && sees referrer r &&
        r.referrerUserId == referrer && r.state == .invited).map Prod.fst
      Tx.each (changeRow sees referrer
        (fun r => r.referrerUserId == referrer && r.state == .invited)
        (fun r => { r with state := .revoked }) fun _ => rfl) found)
    fun
    | .ok _ => .done ()
    | .error _ => .raise .unhandled

/-- `list_referrals`: what is out of time expires first. -/
def listReferrals (referrer : Uuid) (now : Time) : ReferralProc (List (Uuid × Referral)) :=
  .txn (fun _ _ w => w)
    (do
      update sees referrer
        (fun r => r.referrerUserId == referrer && r.state == .invited && r.expiresAt ≤ now)
        (fun r => { r with state := .expired }) fun _ => rfl
      ask fun d => d.referrals.select fun _ r => sees referrer r && r.referrerUserId == referrer)
    fun
    | .ok found => .done found
    | .error _ => .raise .unhandled

/-- What `_claim_referral` asks of the referral it has locked. -/
def claimable (normalizeEmail : String → String) (hash : Digest) (email : String) (user : Uuid)
    (now : Time) (r : Referral) : Bool :=
  r.tokenHash == hash && r.state == .invited && now < r.expiresAt &&
    normalizeEmail r.inviteeEmail == email && r.referrerUserId != user

def registeredBy (user : Uuid) (r : Referral) : Referral :=
  { r with referredUserId := some user, state := .registered }

/-- Claim the referral that the unlocked query has found. -/
def claimFound (normalizeEmail : String → String) (hash : Digest) (email : String) (user : Uuid)
    (now : Time) : Option Uuid → ReferralTrans Unit
  | none => return ()
  | some id =>
      changeRow sees user (claimable normalizeEmail hash email user now) (registeredBy user)
        (fun _ => rfl) id

/-- `_claim_referral`: whatever is wrong with the token, the registration goes on. -/
def claimReferral (normalizeEmail : String → String) (hash : Option Digest) (email : String)
    (user : Uuid) (now : Time) : ReferralTrans Unit :=
  match hash with
  | none => return ()
  | some hash => do
      let found ← ask fun d => ((d.referrals.select fun _ r => sees user r &&
        r.tokenHash == hash).map Prod.fst).head?
      claimFound sees normalizeEmail hash email user now found

end ReferralRepository

namespace RegistrationRepository

/-- The first half of an email registration: the user and the personal workspace. -/
def insertEmailUser (args : EmailArgs) : Trans Unit := do
  let user : Uuid := .drawn args.call 0
  LoginRepository.newUser user
  reserve (.email args.email) []
  write (DbChange.addUser user
    ⟨some args.email, some args.givenName, some args.familyName, none, .pending, 1, none⟩)
  write (DbChange.addOrganization (.drawn args.call 1)
    (LoginRepository.personalWorkspaceFor user (some args.givenName) (some args.familyName)
      args.slug))

/-- The second half: the password, the mailed token and the audit entry. -/
def insertEmailLogin (args : EmailArgs) : Trans Unit := do
  let user : Uuid := .drawn args.call 0
  reserve (.identity .password args.email) []
  write (DbChange.addIdentity (.drawn args.call 2)
    ⟨user, .password, args.email, some args.passwordHash, false⟩)
  write (DbChange.addHistory (.drawn args.call 3)
    ⟨.drawn args.call 2, args.passwordHash, args.started⟩)
  reserve (.mailedToken args.tokenHash) []
  write (DbChange.addMailed (.drawn args.call 4)
    ⟨user, args.tokenHash, .emailVerify, args.expiresAt, none⟩)
  write (DbChange.addAudit ⟨none, some user, none, "USER_REGISTRATION_PENDING", "success"⟩)

/-- A registration without a referral token is the two halves in one transaction. -/
theorem insertEmailAccount_eq (args : EmailArgs) :
    insertEmailAccount args = insertEmailUser args >>= fun _ => insertEmailLogin args := by
  unfold insertEmailUser
  rw [Tx.bind_assoc]
  refine congrArg (LoginRepository.newUser (.drawn args.call 0) >>= ·) (funext fun _ => ?_)
  rw [Tx.bind_assoc]
  exact rfl

end RegistrationRepository

end AuthCore
