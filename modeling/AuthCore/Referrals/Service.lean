/-
The calls around a referral, interleaved: invitations and their listing, registrations that carry
a token, proofs of an address, erasures, and any other call as far as it leaves referrals alone.
-/
import AuthCore.History.Commits
import AuthCore.Referrals.Repository

namespace AuthCore

open Interleave Relational

/-- No referral changes and no user is removed. -/
structure Untouched (d d' : Db) : Prop where
  referrals : d'.referrals = d.referrals
  users : ∀ user, (d.users.get user).isSome → (d'.users.get user).isSome

theorem isSome_get_add {K V : Type} [DecidableEq K] (k : K) (v : V) (t : Table K V) {k' : K}
    (h : (t.get k').isSome) : ((t.add k v).get k').isSome := by
  rw [Table.get_add]
  simp [h]

/-- Registrations and proofs of an address are among them. -/
theorem untouched_writes : RecoveryWrites Untouched (fun _ => True) (fun _ _ => True) where
  addUser _ id row := ⟨rfl, fun _ h => isSome_get_add id row _ h⟩
  addOrganization _ _ _ := ⟨rfl, fun _ h => h⟩
  addIdentity _ _ _ _ := ⟨rfl, fun _ h => h⟩
  addHistory _ _ _ := ⟨rfl, fun _ h => h⟩
  deleteHistory _ _ _ := ⟨rfl, fun _ h => h⟩
  addMailed _ _ _ _ := ⟨rfl, fun _ h => h⟩
  useMailed _ _ _ := ⟨rfl, fun _ h => h⟩
  bumpUser d id g := ⟨rfl, fun user h => by
    change ((d.users.update _ _).get user).isSome
    rw [Table.get_update, Option.isSome_map]
    exact h⟩
  setPasswordHash _ _ _ := ⟨rfl, fun _ h => h⟩
  setVerified _ _ := ⟨rfl, fun _ h => h⟩
  audit _ _ := ⟨rfl, fun _ h => h⟩

theorem untouched_of_keeps {π : Db → Db} {d d' : Db} (h : Tx.Keeps π d d')
    (hπ : ∀ d, (π d).users = d.users ∧ (π d).referrals = d.referrals) : Untouched d d' := by
  have husers : d'.users = d.users := (hπ d').1.symm.trans ((congrArg Db.users h).trans (hπ d).1)
  have hreferrals : d'.referrals = d.referrals :=
    (hπ d').2.symm.trans ((congrArg Db.referrals h).trans (hπ d).2)
  exact ⟨hreferrals, fun user hd => husers ▸ hd⟩

theorem untouched_of_reflTransGen {d d' : Db} (h : Relation.ReflTransGen Untouched d d') :
    Untouched d d' := by
  induction h with
  | refl => exact ⟨rfl, fun _ hd => hd⟩
  | tail _ hstep ih =>
      exact ⟨hstep.referrals.trans ih.referrals, fun user hd => hstep.users user (ih.users user hd)⟩

theorem LoginEvent.untouched (event : LoginEvent) {commit : Commit}
    (h : event.commit = some commit) : commit.body.Guarantees Untouched := by
  cases event with
  | signalled args found result =>
      cases h
      exact guarantees_noteDevice (fun _ _ _ => ⟨rfl, fun _ hd => hd⟩)
        (fun _ _ => ⟨rfl, fun _ hd => hd⟩) found
  | passwordUpdated user hash found =>
      cases h
      exact guarantees_storePasswordHash (fun d id => untouched_writes.setPasswordHash d id hash)
        user found
  | provisioned args result =>
      cases h
      refine (guarantees_newUser _ _).bind fun _ => (guarantees_reserve _ _ _).bind fun _ => ?_
      refine ⟨fun d => untouched_writes.addUser d _ _,
        fun d => untouched_writes.addOrganization d _ _, ?_⟩
      exact (guarantees_reserve _ _ _).bind fun _ =>
        ⟨fun d => untouched_writes.addIdentity d _ _ trivial, fun d => untouched_writes.audit d _,
          trivial⟩
  | _ => cases h

theorem accountWrites_untouched : AccountWrites Untouched where
  setUserState d id _ := untouched_writes.bumpUser d id _
  addRequest _ _ _ := ⟨rfl, fun _ h => h⟩
  setRequest _ _ _ _ _ := ⟨rfl, fun _ h => h⟩
  addExport _ _ _ := ⟨rfl, fun _ h => h⟩
  setExport _ _ _ _ _ := ⟨rfl, fun _ h => h⟩
  audit d entry := untouched_writes.audit d entry

theorem RecoveryEvent.untouched (event : RecoveryEvent) {commit : Commit}
    (h : event.commit = some commit) : commit.body.Guarantees Untouched := by
  refine event.guarantees { untouched_writes with
    addIdentity := fun d id row _ => untouched_writes.addIdentity d id row trivial
    addMailed := fun d id row _ => untouched_writes.addMailed d id row trivial } ?_ ?_
    (fun _ _ _ _ => ⟨rfl, fun _ hd => hd⟩) h
  · refine fun _ => ⟨fun _ _ _ => ⟨rfl, fun _ hd => hd⟩, fun _ _ _ _ => ⟨rfl, fun _ hd => hd⟩,
      fun _ _ _ _ _ => ⟨rfl, fun _ hd => hd⟩,
      fun d id contactType old new => ⟨rfl, fun user hd => ?_⟩,
      fun _ _ _ _ => ⟨rfl, fun _ hd => hd⟩⟩
    change ((d.users.update _ _).get user).isSome
    rw [Table.get_update, Option.isSome_map]
    exact hd
  · exact fun _ => ⟨fun _ _ _ => ⟨rfl, fun _ hd => hd⟩, fun _ _ _ => ⟨rfl, fun _ hd => hd⟩⟩

/-- Whatever the application commits, an erasure apart, leaves referrals and users. -/
theorem Event.untouched {e : Event} {commit : Commit} (h : e.commit = some commit)
    (hstays : ∀ args email found result, e ≠ .account (.erased args (.erased email found) result)) :
    commit.body.Guarantees Untouched := by
  cases e with
  | session event =>
      exact (event.keeps h).mono fun _ _ hkeeps => untouched_of_keeps hkeeps fun _ => ⟨rfl, rfl⟩
  | workspace event =>
      exact event.guarantees (fun _ _ hkeeps => untouched_of_keeps hkeeps fun _ => ⟨rfl, rfl⟩)
        (fun _ _ hkeeps => untouched_of_keeps hkeeps fun _ => ⟨rfl, rfl⟩) h
  | mfa event =>
      exact (event.keeps h).mono fun _ _ hkeeps => untouched_of_keeps hkeeps fun _ => ⟨rfl, rfl⟩
  | login event => exact event.untouched h
  | account event =>
      exact event.guarantees accountWrites_untouched
        (fun args email found result heq =>
          absurd (congrArg Event.account heq) (hstays args email found result))
        (fun _ _ _ => guarantees_storeExport accountWrites_untouched
          fun _ => ⟨rfl, fun _ hd => hd⟩) h
  | recovery event => exact event.untouched h
  | audited entry =>
      cases h
      exact ⟨fun d => untouched_writes.audit d _, trivial⟩
  | _ => cases h

/-- An event of the application other than the commit of an erasure. -/
structure OtherEvent where
  event : Event
  stays : ∀ args email found result,
    event ≠ .account (.erased args (.erased email found) result)

theorem same_of_untouched {β : Type} {body : Trans β} (h : body.Guarantees Untouched) :
    body.Guarantees referralRows.Same :=
  h.mono fun _ _ hkept => same_of_referrals hkept.referrals

namespace RegistrationRepository

theorem untouched_insertEmailUser (args : EmailArgs) :
    (insertEmailUser args).Guarantees Untouched := by
  refine (guarantees_newUser _ _).bind fun _ => (guarantees_reserve _ _ _).bind fun _ => ?_
  exact ⟨fun d => untouched_writes.addUser d _ _, fun d => untouched_writes.addOrganization d _ _,
    trivial⟩

theorem untouched_insertEmailLogin (args : EmailArgs) :
    (insertEmailLogin args).Guarantees Untouched := by
  refine (guarantees_reserve _ _ _).bind fun _ => ?_
  refine ⟨fun d => untouched_writes.addIdentity d _ _ trivial,
    fun d => untouched_writes.addHistory d _ _, (guarantees_reserve _ _ _).bind fun _ => ?_⟩
  exact ⟨fun d => untouched_writes.addMailed d _ _ trivial, fun d => untouched_writes.audit d _,
    trivial⟩

theorem untouched_verifyMailed (hash : Digest) (now : Time) (found : Option Uuid) :
    (verifyMailed hash now found).Guarantees Untouched :=
  guarantees_verifyMailed untouched_writes hash now found

theorem same_insertEmailUser (args : EmailArgs) :
    (insertEmailUser args).Guarantees referralRows.Same :=
  same_of_untouched (untouched_insertEmailUser args)

theorem same_insertEmailLogin (args : EmailArgs) :
    (insertEmailLogin args).Guarantees referralRows.Same :=
  same_of_untouched (untouched_insertEmailLogin args)

theorem same_verifyMailed (hash : Digest) (now : Time) (found : Option Uuid) :
    (verifyMailed hash now found).Guarantees referralRows.Same :=
  same_of_untouched (untouched_verifyMailed hash now found)

variable (sees : Uuid → Referral → Bool)

/-- `create_email_registration` with the hash of a referral token. -/
def createReferredRegistration (normalizeEmail : String → String) (args : EmailArgs)
    (referral : Option Digest) : ReferralProc (Except (Fault AuthError) Unit) :=
  .txn (fun i _ w => w.record i (.recovery (.emailRegistered args)))
    (do
      (insertEmailUser args).inl (same_insertEmailUser args)
      ReferralRepository.claimReferral sees normalizeEmail referral args.email
        (.drawn args.call 0) args.started
      (insertEmailLogin args).inl (same_insertEmailLogin args))
    .done

/-- The user that a mailed token is for. -/
def mailedTo (found : Option Uuid) (d : Db) : Option Uuid :=
  (found.bind d.ephemeral.get).map (·.userId)

/-- The referral of a proved address is complete. -/
def completeReferral : Option Uuid → ReferralTrans Unit
  | none => return ()
  | some user =>
      ReferralRepository.update sees user
        (fun r => r.referredUserId == some user && r.state == .registered)
        (fun r => { r with state := .verified }) fun _ => rfl

/-- `verify_email` with its last statement. -/
def verifyReferredEmail (hash : Digest) (now : Time) : ReferralProc Bool :=
  .txn (fun i result w => w.record i (.recovery (.emailVerified hash now result.1 result.2)))
    (do
      let found ← ReferralRepository.ask (findMailed hash [.emailVerify])
      let result ← (verifyMailed hash now found).inl (same_verifyMailed hash now found)
      if result then
        let user ← ReferralRepository.ask (mailedTo found)
        completeReferral sees user
        return (found, result)
      else
        return (found, result))
    fun
    | .ok result => .done result.2
    | .error _ => .raise .unhandled

end RegistrationRepository

inductive ReferralErrorCode where
  | rateLimited
  | referralIneligible
  | providerUnavailable
deriving DecidableEq, Repr

/-- How a call around a referral ends. -/
inductive ReferralResult where
  | created (id : Uuid) (referral : Referral)
  | listed (referrals : List (Uuid × Referral))
  | accepted
  | verified (valid : Bool)
  | refused (code : ReferralErrorCode) (message : String) (statusCode : Nat)
deriving Repr

inductive ReferralCall where
  | inviteReferral (referrer : Uuid) (email : String)
  | listReferrals (user : Uuid)
  | registerEmail (email passwordHash givenName familyName : String) (referralToken : Option Token)
  | verifyEmail (token : Token)
  | erase (user : Uuid)
  | other (event : OtherEvent)

namespace ReferralControl

def referralLimitPerDay : Nat := 20
def referralLifetime : Time := seconds 2592000

variable (env : Env) (sees : Uuid → Referral → Bool) (me : Nat)

def now : ReferralProc Time :=
  clock.inl fun _ => trivial

def deliver (recipient : String) : ReferralProc Bool :=
  (send recipient).inl fun _ => trivial

/-- `invite_referral`. -/
def inviteReferral (referrer : Uuid) (email : String) : ReferralProc ReferralResult := do
  let normalizedEmail := env.normalizeEmail email
  let count ← (Redis.incrementRateLimit "referral_invite" (.id referrer) 86400).inl fun _ => trivial
  if referralLimitPerDay < count then
    return .refused .rateLimited
      "The daily referral limit has been reached. Please try again tomorrow." 429
  else
  let eligibility ←
    ReferralRepository.referralEligibility env.normalizeEmail referrer normalizedEmail
  if eligibility ≠ .eligible then
    return .refused .referralIneligible "This referral cannot be created." 409
  else
  let started ← now
  let referral ← ReferralRepository.createReferral sees
    ⟨referrer, normalizedEmail, env.tokenHash (.drawn me 0), started + referralLifetime,
      .drawn me 1⟩
  let delivered ← deliver normalizedEmail
  if ¬delivered then
    ReferralRepository.revokeReferral sees referrer referral.1
    return .refused .providerUnavailable
      "The referral could not be delivered. Please try again." 503
  else
  return .created referral.1 referral.2

def listReferrals (user : Uuid) : ReferralProc ReferralResult := do
  let started ← now
  return .listed (← ReferralRepository.listReferrals sees user started)

/-- `register_email` from the creation of the account on, when its checks are passed and the
address is not known. -/
def registerEmail (email passwordHash givenName familyName : String)
    (referralToken : Option Token) : ReferralProc ReferralResult := do
  let normalizedEmail := env.normalizeEmail email
  let drawn ← now
  let started ← now
  let created ← RegistrationRepository.createReferredRegistration sees env.normalizeEmail
    ⟨normalizedEmail, env.stripName givenName, env.stripName familyName, passwordHash,
      env.verificationHash (.drawn me 5), drawn + RegistrationControl.emailTokenLifetime, started,
      env.slug "personal" (.drawn me 0), me⟩
    (referralToken.map env.tokenHash)
  match created with
  | .error .integrity => return .accepted
  | .error _ => .raise .unhandled
  | .ok _ =>
      let delivered ← deliver normalizedEmail
      if delivered then
        return .accepted
      else
        .raise RegistrationControl.providerUnavailable

def verifyEmail (token : Token) : ReferralProc ReferralResult := do
  let started ← now
  let valid ← RegistrationRepository.verifyReferredEmail sees (env.verificationHash token) started
  return .verified valid

/-- The statements of `execute_erasure` about referrals; its others are among `other`. -/
def eraseReferrals (user : Uuid) : ReferralProc ReferralResult :=
  .txn (fun _ _ w => w)
    (do
      ReferralRepository.delete sees user fun r => r.referrerUserId == user
      ReferralRepository.update sees user (fun r => r.referredUserId == some user)
        (DbChange.withdrawn ("erased-" ++ env.pseudonym user ++ "@invalid.local")) fun _ => rfl)
    fun
    | .ok _ => .done .accepted
    | .error _ => .raise .unhandled

/-- Another call, one of its transactions at a time, from what its queries have found on. -/
def otherCall (other : OtherEvent) : ReferralProc ReferralResult :=
  match h : other.event.commit with
  | none => .done .accepted
  | some commit =>
      .txn (fun _ _ w => w)
        (commit.body.mute.inl
          (same_of_untouched (Tx.guarantees_mute (Event.untouched h other.stays))))
        fun
        | .ok _ => .done .accepted
        | .error _ => .raise .unhandled

end ReferralControl

def referralProgram (env : Env) (sees : Uuid → Referral → Bool) (me : Nat) :
    ReferralCall → ReferralProc ReferralResult
  | .inviteReferral referrer email => ReferralControl.inviteReferral env sees me referrer email
  | .listReferrals user => ReferralControl.listReferrals sees user
  | .registerEmail email passwordHash givenName familyName referralToken =>
      ReferralControl.registerEmail env sees me email passwordHash givenName familyName
        referralToken
  | .verifyEmail token => ReferralControl.verifyEmail env sees token
  | .erase user => ReferralControl.eraseReferrals env sees user
  | .other event => ReferralControl.otherCall event

/-- The calls around referrals under a row policy. -/
def referralService (env : Env) (sees : Uuid → Referral → Bool) :
    Service wholeSchema World AuthError ReferralResult where
  Call := ReferralCall
  prog := referralProgram env sees
  onCall _ _ w := w
  onReturn _ _ w := w
  tick n w := { w with now := w.now + n }

end AuthCore
