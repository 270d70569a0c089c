/-
Registration, recovery, governed resets and exports keep to the ledger.
-/
import AuthCore.History.Alone
import AuthCore.History.Accounts

namespace AuthCore

open Interleave

variable {env : Env} {start : Core Db World} {i : Nat} {t : List Event}

section Registration

open RegistrationRepository RegistrationControl

theorem lockOnly_insertEmailAccount (args : EmailArgs) : (insertEmailAccount args).LockOnly :=
  (lockOnly_newUser _).bind fun _ => (lockOnly_reserve _ _).bind fun _ =>
    (lockOnly_reserve _ _).bind fun _ => (lockOnly_reserve _ _).bind fun _ => trivial

theorem lockOnly_insertPhoneAccount (args : PhoneArgs) : (insertPhoneAccount args).LockOnly :=
  (lockOnly_newUser _).bind fun _ => (lockOnly_reserve _ _).bind fun _ =>
    (lockOnly_reserve _ _).bind fun _ => trivial

theorem lockOnly_useUp (args : MailArgs) (id : Uuid) : (useUp args id).LockOnly := by
  refine (lockOnly_lockRow _).bind fun token => ?_
  split
  · trivial
  · split <;> trivial

theorem lockOnly_insertMailed (args : MailArgs) (found : List Uuid) :
    (insertMailed args found).LockOnly :=
  (Tx.lockOnly_each (lockOnly_useUp args) found).bind fun _ =>
    (lockOnly_reserve _ _).bind fun _ => trivial

theorem lockOnly_lockMailed (hash : Digest) (purposes : List TokenPurpose) (now : Time)
    (found : Option Uuid) : (lockMailed hash purposes now found).LockOnly := by
  cases found with
  | none => trivial
  | some id =>
      refine (lockOnly_lockRow _).bind fun token => ?_
      split
      · trivial
      · split <;> trivial

theorem lockOnly_markVerified (user : Uuid) (provider : IdentityProvider) (id : Uuid) :
    (markVerified user provider id).LockOnly := by
  refine (lockOnly_lockRow _).bind fun identity => ?_
  split
  · trivial
  · split <;> trivial

theorem lockOnly_verifyMailed (hash : Digest) (now : Time) (found : Option Uuid) :
    (verifyMailed hash now found).LockOnly := by
  refine (lockOnly_lockMailed _ _ _ _).bind fun token => ?_
  cases token with
  | none => trivial
  | some token =>
      refine (lockOnly_write _).bind fun _ => (lockOnly_lockRow _).bind fun user => ?_
      split
      · refine (lockOnly_write _).bind fun _ => ?_
        exact (Tx.lockOnly_each (lockOnly_markVerified _ _) _).bind fun _ => trivial
      · trivial

theorem lockOnly_activatePhone (user : Uuid) : (activatePhone user).LockOnly := by
  refine (lockOnly_lockRow _).bind fun view => ?_
  split
  · refine (lockOnly_write _).bind fun _ => ?_
    split
    · trivial
    · exact (lockOnly_markVerified _ _ _).bind fun _ => trivial
  · trivial

/-- An attempt of a registration. -/
theorem runs_register (event : Event) {body : Trans Unit} (hbody : body.LockOnly)
    (hcommit : event.commit = some ⟨Unit, body, ()⟩) (hstored : ∀ w, event.stored w = w)
    (htells : ∀ c, event.Tells c) (hfollows : event.Follows env i t)
    {k : Except (Fault AuthError) Unit → Proc Result}
    (hok : Runs env start i (event :: t) (k (.ok ())))
    (hfault : ∀ fault, Runs env start i t (k (.error fault))) :
    Runs env start i t (attempt (fun _ => event) body >>= k) :=
  runs_attempt hbody (fun _ => hcommit) (fun _ => hstored) (fun _ => htells) (fun _ => hfollows)
    (fun _ => hok) hfault

theorem runs_replaceMailed {args : MailArgs} {k : Unit → Proc Result}
    (ht : t.all Event.plain = true)
    (hmails : ∀ found, Mails env i
      (.recovery (.unusedFound args.userId args.purposes found) :: t) args found)
    (hok : ∀ found : List Uuid, Runs env start i
      (.recovery (.mailed args found) ::
        .recovery (.unusedFound args.userId args.purposes found) :: t) (k ())) :
    Runs env start i t (replaceMailed args >>= k) :=
  runs_lookup (lockOnly_insertMailed _) (fun _ => rfl) (fun _ _ => rfl) (fun _ => rfl)
    (fun _ => trivial) (fun _ _ => rfl) (fun _ _ => rfl) (fun _ _ => trivial)
    (fun found _ => hmails found) (fun found _ => hok found)
    fun _ _ => runs_fail (plain_append [_] rfl ht)

theorem runs_registrationCaptcha {k : Unit → Proc Result} (ht : t.all Event.plain = true)
    (h : Runs env start i (.captcha (some true) :: t) (k ())) :
    Runs env start i t (RegistrationControl.verifyCaptcha >>= k) := by
  unfold RegistrationControl.verifyCaptcha
  rw [Prog.bind_assoc]
  refine runs_captcha fun valid => ?_
  match valid with
  | none => exact runs_fail_bind (plain_append [_] rfl ht)
  | some false => exact runs_fail_bind (plain_append [_] rfl ht)
  | some true => exact h

theorem runs_limit {route subject : String} {most window : Nat} {k : Unit → Proc Result}
    (ht : t.all Event.plain = true)
    (h : ∀ count, Runs env start i (.counted route (.text subject) window count :: t) (k ())) :
    Runs env start i t (limit route subject most window >>= k) := by
  unfold limit
  rw [Prog.bind_assoc]
  refine runs_count fun count => ?_
  split
  · exact runs_fail_bind (plain_append [_] rfl ht)
  · exact h count

theorem runs_contact {contactType : ContactType} {value : String}
    {k : Option PendingContact → Proc Result}
    (h : ∀ answer, Runs env start i (.recovery (.contact contactType value answer) :: t)
      (k answer)) :
    Runs env start i t (RegistrationControl.look contactType value >>= k) :=
  runs_look (fun _ => rfl) (fun _ _ => rfl) (fun _ => trivial) (fun _ => trivial) h

/-- The answer of the breach service. -/
theorem runs_breachCount {k : Option Bool → Proc Result}
    (h : ∀ found, Runs env start i (.recovery (.breached found) :: t) (k found)) :
    Runs env start i t (breachCount >>= k) :=
  runs_choose (fun _ => rfl) (fun _ _ => rfl) (fun _ _ => trivial) (fun _ => trivial) h

theorem runs_sendEmail {email : String} (ht : t.all Event.plain = true)
    (hcodes : ∀ user token hash, .otpStored user (.mfa token) hash ∉ t) :
    Runs env start i t (sendEmail email) := by
  unfold sendEmail
  refine runs_send (fun user token hash hmem => absurd hmem (hcodes user token hash)) ?_
  intro delivered
  cases delivered with
  | true => exact runs_done (plain_append [_] rfl ht) trivial
  | false => exact runs_fail (plain_append [_] rfl ht)

theorem runs_sendEmailToken {user : Uuid} {email : String} (ht : t.all Event.plain = true)
    (hcodes : ∀ user token hash, .otpStored user (.mfa token) hash ∉ t)
    (hfirst : ∀ args found, .recovery (.mailed args found) ∉ t) :
    Runs env start i t (sendEmailToken env i user email) := by
  unfold sendEmailToken issueEmailVerification
  refine runs_clock fun now => ?_
  rw [Prog.bind_assoc]
  refine runs_clock fun issued => runs_replaceMailed (plain_append [_, _] rfl ht) ?_ fun found => ?_
  · exact fun found => .verification (by simpa using hfirst) rfl rfl rfl rfl
  refine runs_sendEmail (plain_append [_, _, _, _] rfl ht) ?_
  intro user token hash hmem
  simp only [List.mem_cons, reduceCtorEq, false_or] at hmem
  exact hcodes user token hash hmem

theorem runs_registerEmail (email password givenName familyName : String) :
    Runs env start i [.called (.registerEmail email password givenName familyName)]
      (registerEmail env i email password givenName familyName) := by
  unfold registerEmail
  refine runs_registrationCaptcha rfl (runs_limit rfl fun count => ?_)
  split
  · exact runs_fail rfl
  · refine runs_breachCount fun found => ?_
    match found with
    | none => exact runs_fail rfl
    | some true => exact runs_fail rfl
    | some false =>
        refine runs_contact fun answer => ?_
        cases answer with
        | some existing =>
            dsimp only
            split
            · exact runs_sendEmailToken rfl (by simp) (by simp)
            · exact runs_done rfl trivial
        | none =>
            refine runs_clock fun now => runs_clock fun started => ?_
            refine runs_register (.recovery (.emailRegistered _)) (lockOnly_insertEmailAccount _) rfl
              (fun _ => rfl) (fun _ => trivial) trivial ?_ fun fault => ?_
            · exact runs_sendEmail rfl (by simp)
            · cases fault with
              | integrity => exact runs_done rfl trivial
              | deadlock => exact runs_fail rfl
              | thrown error => exact runs_fail rfl

theorem runs_requestEmailVerification (email : String) :
    Runs env start i [.called (.requestEmailVerification email)]
      (requestEmailVerification env i email) := by
  unfold requestEmailVerification
  refine runs_registrationCaptcha rfl (runs_limit rfl fun count => runs_contact fun answer => ?_)
  cases answer with
  | none => exact runs_done rfl trivial
  | some existing =>
      dsimp only
      split
      · exact runs_sendEmailToken rfl (by simp) (by simp)
      · exact runs_done rfl trivial

theorem runs_verifyEmail (token : Token) :
    Runs env start i [.called (.verifyEmail token)]
      (RegistrationControl.verifyEmail env token) := by
  unfold RegistrationControl.verifyEmail
  refine runs_clock fun now => ?_
  refine runs_lookup (lockOnly_verifyMailed _ _) (fun _ => rfl) (fun _ _ => rfl)
    (fun _ => trivial) (fun _ => trivial) (fun _ _ => rfl) (fun _ _ => rfl) (fun _ _ => trivial)
    (fun _ _ => trivial) ?_ fun _ _ => runs_fail rfl
  intro found valid
  cases valid with
  | true => exact runs_done rfl trivial
  | false => exact runs_fail rfl

theorem runs_sendPhoneOtp {user : Uuid} {phone : String} (ht : t.all Event.plain = true)
    (hcodes : ∀ user token hash, .otpStored user (.mfa token) hash ∉ t) :
    Runs env start i t (sendPhoneOtp env i user phone) := by
  unfold sendPhoneOtp
  refine runs_storeOtp trivial (runs_send ?_ fun delivered => ?_)
  · intro user token hash hmem
    simp only [List.mem_cons, reduceCtorEq, Event.otpStored.injEq, and_false, false_and,
      false_or] at hmem
    exact absurd hmem (hcodes user token hash)
  · cases delivered with
    | true => exact runs_done (plain_append [_, _, _] rfl ht) trivial
    | false =>
        exact runs_delete trivial (runs_fail (plain_append [_, _, _, _] rfl ht))

theorem runs_registerPhone (phone : String) (givenName familyName : Option String) :
    Runs env start i [.called (.registerPhone phone givenName familyName)]
      (registerPhone env i phone givenName familyName) := by
  unfold registerPhone
  split
  · refine runs_registrationCaptcha rfl (runs_limit rfl fun count => runs_contact fun answer => ?_)
    cases answer with
    | some existing =>
        dsimp only
        split
        · exact runs_sendPhoneOtp rfl (by simp)
        · exact runs_done rfl trivial
    | none =>
        refine runs_register (.recovery (.phoneRegistered _)) (lockOnly_insertPhoneAccount _) rfl
          (fun _ => rfl) (fun _ => trivial) trivial ?_ fun fault => ?_
        · exact runs_sendPhoneOtp rfl (by simp)
        · cases fault with
          | integrity => exact runs_done rfl trivial
          | deadlock => exact runs_fail rfl
          | thrown error => exact runs_fail rfl
  · exact runs_fail rfl

theorem runs_requestPhoneVerification (phone : String) :
    Runs env start i [.called (.requestPhoneVerification phone)]
      (requestPhoneVerification env i phone) := by
  unfold requestPhoneVerification
  split
  · refine runs_registrationCaptcha rfl (runs_limit rfl fun count => runs_contact fun answer => ?_)
    cases answer with
    | none => exact runs_done rfl trivial
    | some existing =>
        dsimp only
        split
        · exact runs_sendPhoneOtp rfl (by simp)
        · exact runs_done rfl trivial
  · exact runs_fail rfl

theorem runs_verifyPhone (phone code : String) :
    Runs env start i [.called (.verifyPhone phone code)]
      (RegistrationControl.verifyPhone env phone code) := by
  unfold RegistrationControl.verifyPhone
  split
  · refine runs_registrationCaptcha rfl (runs_contact fun answer => ?_)
    cases answer with
    | none => exact runs_fail rfl
    | some existing =>
        dsimp only
        split
        · exact runs_fail rfl
        · refine runs_tryOtp fun outcome => ?_
          split
          · exact runs_fail rfl
          · refine runs_transact (lockOnly_activatePhone _) (fun _ => rfl) (fun _ _ => rfl) ?_ ?_
              (fun verified => ?_) (runs_fail rfl)
            · exact fun _ _ => trivial
            · exact fun _ => trivial
            · cases verified with
              | true => exact runs_done rfl trivial
              | false => exact runs_fail rfl
  · exact runs_fail rfl

end Registration

section Recovery

open RegistrationRepository RecoveryRepository RecoveryControl SupportAdminControl

theorem lockOnly_storeReset (args : ResetArgs) (tokenId userId identityId : Uuid)
    (dropped : List Uuid) : (storeReset args tokenId userId identityId dropped).LockOnly :=
  trivial

theorem lockOnly_resetIdentity (known : String → Bool) (args : ResetArgs) (tokenId userId : Uuid)
    (user : User) (identityId : Uuid) (rows : List (Uuid × PasswordHistory)) :
    (resetIdentity known args tokenId userId user identityId rows).LockOnly := by
  unfold resetIdentity
  split
  · trivial
  · split
    · trivial
    · exact (lockOnly_storeReset _ _ _ _ _).bind fun _ => trivial

theorem lockOnly_resetAccount (known : String → Bool) (args : ResetArgs)
    (tokenId userId : Uuid) : (resetAccount known args tokenId userId).LockOnly := by
  refine (lockOnly_lockRow _).bind fun view => ?_
  split
  · exact (lockOnly_lockRow _).bind fun identity => lockOnly_resetIdentity _ _ _ _ _ _ _
  · trivial

theorem lockOnly_resetWith (known : String → Bool) (args : ResetArgs) (found : Option Uuid) :
    (resetWith known args found).LockOnly := by
  refine (lockOnly_lockMailed _ _ _ _).bind fun token => ?_
  cases token with
  | none => trivial
  | some token => exact lockOnly_resetAccount _ _ _ _

theorem alone_newUser {id : Uuid} {d : Db} {pending : Db → Db} {result : Unit × (Db → Db)}
    (h : (LoginRepository.newUser id).alone d pending = .ok result) :
    d.users.get id = none ∧ result = ((), pending) := by
  change Tx.alone d pending (if (d.users.get id).isSome = true then .raise .integrity
    else return () : Trans Unit) = _ at h
  split at h
  · cases h
  · rename_i hfree
    cases h
    exact ⟨by simpa using hfree, rfl⟩

theorem entries_of_reserve {key : IndexKey} {d : Db} {pending : Db → Db}
    {result : Unit × (Db → Db)} (h : (reserve key []).alone d pending = .ok result) :
    key.entries d = [] ∧ result = ((), pending) := by
  obtain ⟨hnone, hresult⟩ := alone_reserve h
  exact ⟨List.eq_nil_iff_forall_not_mem.mpr fun id hid => List.not_mem_nil (hnone id hid),
    hresult⟩

/-- What a registration by email needs to be free. -/
structure Unregistered (args : EmailArgs) (d : Db) : Prop where
  user : d.users.get (.drawn args.call 0) = none
  address : (IndexKey.email args.email).entries d = []
  login : (IndexKey.identity .password args.email).entries d = []
  link : (IndexKey.mailedToken args.tokenHash).entries d = []

/-- The database after a registration by email. -/
def registered (args : EmailArgs) (d : Db) : Db :=
  { d with
    users := d.users.add (.drawn args.call 0)
      ⟨some args.email, some args.givenName, some args.familyName, none, .pending, 1, none⟩
    organizations := d.organizations.add (.drawn args.call 1)
      (LoginRepository.personalWorkspaceFor (.drawn args.call 0) (some args.givenName)
        (some args.familyName) args.slug)
    identities := d.identities.add (.drawn args.call 2)
      ⟨.drawn args.call 0, .password, args.email, some args.passwordHash, false⟩
    history := d.history.add (.drawn args.call 3)
      ⟨.drawn args.call 2, args.passwordHash, args.started⟩
    ephemeral := d.ephemeral.add (.drawn args.call 4)
      ⟨.drawn args.call 0, args.tokenHash, .emailVerify, args.expiresAt, none⟩
    audit := ⟨none, some (.drawn args.call 0), none, "USER_REGISTRATION_PENDING", "success"⟩ ::
      d.audit }

theorem alone_insertEmailAccount {args : EmailArgs} {d : Db} {change : Db → Db}
    (h : (insertEmailAccount args).alone d id = .ok ((), change)) :
    Unregistered args d ∧ change = registered args := by
  obtain ⟨_, p₁, hnew, h₁⟩ := Tx.alone_bind_eq_ok h
  obtain ⟨hnone, heq⟩ := alone_newUser hnew
  cases heq
  obtain ⟨_, p₂, hemail, h₂⟩ := Tx.alone_bind_eq_ok h₁
  obtain ⟨haddress, heq⟩ := entries_of_reserve hemail
  cases heq
  obtain ⟨_, p₃, huser, h₃⟩ := Tx.alone_bind_eq_ok h₂
  cases huser
  obtain ⟨_, p₄, hworkspace, h₄⟩ := Tx.alone_bind_eq_ok h₃
  cases hworkspace
  obtain ⟨_, p₅, hsubject, h₅⟩ := Tx.alone_bind_eq_ok h₄
  obtain ⟨hlogin, heq⟩ := entries_of_reserve hsubject
  cases heq
  obtain ⟨_, p₆, hidentity, h₆⟩ := Tx.alone_bind_eq_ok h₅
  cases hidentity
  obtain ⟨_, p₇, hhistory, h₇⟩ := Tx.alone_bind_eq_ok h₆
  cases hhistory
  obtain ⟨_, p₈, htoken, h₈⟩ := Tx.alone_bind_eq_ok h₇
  obtain ⟨hlink, heq⟩ := entries_of_reserve htoken
  cases heq
  cases h₈
  exact ⟨⟨hnone, haddress, hlogin, hlink⟩, rfl⟩

/-- Locking a mailed token changes nothing. -/
theorem alone_lockMailed {hash : Digest} {purposes : List TokenPurpose} {now : Time}
    {found : Option Uuid} {d : Db} {pending : Db → Db}
    {result : Option (Uuid × EphemeralToken) × (Db → Db)}
    (h : (lockMailed hash purposes now found).alone d pending = .ok result) :
    result.2 = pending ∧ ∀ id token, result.1 = some (id, token) →
      found = some id ∧ d.ephemeral.get id = some token ∧ token.tokenHash = hash ∧
        token.purpose ∈ purposes ∧ token.consumedAt = none ∧ now < token.expiresAt := by
  cases found with
  | none =>
      cases h
      exact ⟨rfl, nofun⟩
  | some id =>
      rw [lockMailed_alone] at h
      cases hget : d.ephemeral.get id with
      | none =>
          rw [hget] at h
          cases h
          exact ⟨rfl, nofun⟩
      | some row =>
          rw [hget] at h
          dsimp only at h
          split at h
          · rename_i hopen
            cases h
            refine ⟨rfl, fun _ _ heq => ?_⟩
            cases heq
            simp at hopen
            exact ⟨rfl, hget, hopen.1.1.1, hopen.1.1.2, hopen.1.2, hopen.2⟩
          · cases h
            exact ⟨rfl, nofun⟩

/-- Only the outcome `updated` writes, and then no hash was known. -/
theorem alone_resetIdentity {known : String → Bool} {args : ResetArgs} {tokenId userId : Uuid}
    {user : User} {identityId : Uuid} {rows : List (Uuid × PasswordHistory)} {d : Db}
    {result : PasswordResetOutcome × Option RecoveryUser} {change : Db → Db}
    (h : (resetIdentity known args tokenId userId user identityId rows).alone d id =
      .ok (result, change)) :
    (result.1 = .updated ∧
        (resetIdentity (fun _ => false) args tokenId userId user identityId rows).alone d id =
          .ok (result, change)) ∨
      (result.1 ≠ .updated ∧ change = id) := by
  unfold resetIdentity at h ⊢
  split at h
  · cases h
    exact Or.inr ⟨nofun, rfl⟩
  · rename_i hresettable
    split at h
    · cases h
      exact Or.inr ⟨nofun, rfl⟩
    · have hresult := h
      cases hresult
      refine Or.inl ⟨rfl, ?_⟩
      rw [if_neg hresettable, if_neg (by simp)]
      exact h

theorem alone_resetAccount {known : String → Bool} {args : ResetArgs} {tokenId userId : Uuid}
    {d : Db} {result : PasswordResetOutcome × Option RecoveryUser} {change : Db → Db}
    (h : (resetAccount known args tokenId userId).alone d id = .ok (result, change)) :
    (result.1 = .updated ∧ ∃ user identityId rest, d.users.get userId = some user ∧
        (d.userView userId).passwords = identityId :: rest ∧
        (resetIdentity (fun _ => false) args tokenId userId user identityId
          (d.identityView identityId).history).alone d id = .ok (result, change)) ∨
      (result.1 ≠ .updated ∧ change = id) := by
  rw [resetAccount_alone] at h
  split at h
  · rename_i user identityId rest hrow hpasswords
    rcases alone_resetIdentity (d := d) h with ⟨hupdated, hsame⟩ | hnone
    · exact Or.inl ⟨hupdated, user, identityId, rest, hrow, hpasswords, hsame⟩
    · exact Or.inr hnone
  · cases h
    exact Or.inr ⟨nofun, rfl⟩

theorem alone_resetWith {known : String → Bool} {args : ResetArgs} {found : Option Uuid}
    {d : Db} {result : PasswordResetOutcome × Option RecoveryUser} {change : Db → Db}
    (h : (resetWith known args found).alone d id = .ok (result, change)) :
    (result.1 = .updated ∧
        (resetWith (fun _ => false) args found).alone d id = .ok (result, change)) ∨
      (result.1 ≠ .updated ∧ change = id) := by
  obtain ⟨locked, pending, hlock, hrest⟩ := Tx.alone_bind_eq_ok h
  obtain ⟨rfl, -⟩ := alone_lockMailed hlock
  have hsame : (resetWith (fun _ => false) args found).alone d id = _ :=
    Tx.alone_bind_ok hlock
  rw [hsame]
  cases locked with
  | none =>
      cases hrest
      exact Or.inr ⟨nofun, rfl⟩
  | some locked =>
      rcases alone_resetAccount hrest with
        ⟨hupdated, user, identityId, rest, hrow, hpasswords, hrun⟩ | hnone
      · refine Or.inl ⟨hupdated, ?_⟩
        rw [resetAccount_alone]
        have hview : (d.userView locked.2.userId).row = some user := hrow
        rw [hview, hpasswords]
        exact hrun
      · exact Or.inr hnone

theorem lockOnly_cancelContactChange (args : ContactArgs) (id : Uuid) :
    (cancelContactChange args id).LockOnly := by
  refine (lockOnly_lockRow _).bind fun request => ?_
  split
  · trivial
  · split <;> trivial

theorem lockOnly_insertContactChange (args : ContactArgs) (old : String) (pending : List Uuid) :
    (insertContactChange args old pending).LockOnly :=
  (Tx.lockOnly_each (lockOnly_cancelContactChange args) pending).bind fun _ => trivial

theorem lockOnly_lockLogin (user : Uuid) (contactType : ContactType) (id : Uuid) :
    (lockLogin user contactType id).LockOnly := by
  refine (lockOnly_lockRow _).bind fun identity => ?_
  split
  · trivial
  · split <;> trivial

theorem lockOnly_moveLogin (user : Uuid) (contactType : ContactType) (value : String)
    (ids : List Uuid) : (moveLogin user contactType value ids).LockOnly := by
  refine (Tx.lockOnly_collect (lockOnly_lockLogin _ _) _).bind fun rows => ?_
  match rows with
  | [] => trivial
  | [row] => exact (lockOnly_reserve _ _).bind fun _ => trivial
  | _ :: _ :: _ => trivial

theorem lockOnly_applyContactChange (args : ProofArgs) (row : ContactChangeRequest) (user : User)
    (view : UserView) : (applyContactChange args row user view).LockOnly :=
  (lockOnly_reserve _ _).bind fun _ => (lockOnly_write _).bind fun _ =>
    (lockOnly_moveLogin _ _ _ _).bind fun _ => trivial

theorem lockOnly_proveContactChange (args : ProofArgs) : (proveContactChange args).LockOnly := by
  refine (lockOnly_lockRow _).bind fun request => ?_
  split
  · trivial
  · split
    · trivial
    · split
      · trivial
      · refine (lockOnly_write _).bind fun _ => ?_
        dsimp only
        split
        · refine (lockOnly_lockRow _).bind fun view => ?_
          split
          · trivial
          · exact (lockOnly_applyContactChange _ _ _ _).bind fun _ => trivial
        · trivial

theorem lockOnly_unlock (target actor : Uuid) :
    (RecoveryRepository.unlock target actor).LockOnly := by
  refine (lockOnly_lockRow _).bind fun view => ?_
  split <;> trivial

theorem lockOnly_initiateWith (args : InitiateArgs) (user : Option User) :
    (initiateWith args user).LockOnly := by
  unfold initiateWith
  split
  · trivial
  · refine (lockOnly_lockRow _).bind fun taken => ?_
    split <;> trivial

theorem lockOnly_revokeFactor (user : Uuid) (now : Time) (id : Uuid) :
    (RecoveryRepository.revokeFactor user now id).LockOnly := by
  refine Tx.LockOnly.bind ?_ fun _ => trivial
  refine (lockOnly_lockRow _).bind fun factor => ?_
  split
  · trivial
  · split <;> trivial

theorem lockOnly_executeWrites (args : GovernedArgs) (row : GovernedRequest) (user : User)
    (found : List Uuid) : (executeWrites args row user found).LockOnly :=
  (Tx.lockOnly_each (lockOnly_revokeFactor _ _) _).bind fun _ => trivial

theorem runs_notify {recipient : String} {k : Unit → Proc Result}
    (hcodes : ∀ user token hash, .otpStored user (.mfa token) hash ∉ t)
    (hok : Runs env start i (.sent recipient true :: t) (k ()))
    (hfault : Runs env start i (.sent recipient false :: t) (.raise .unhandled)) :
    Runs env start i t (notify recipient >>= k) := by
  unfold notify
  rw [Prog.bind_assoc]
  refine runs_send (fun user token hash hmem => absurd hmem (hcodes user token hash)) ?_
  intro delivered
  cases delivered with
  | true => exact hok
  | false => exact hfault

theorem runs_issuePasswordReset {user : Uuid} {purpose : TokenPurpose}
    {expiresAt : Time} {actor : Option Uuid} {k : Unit → Proc Result}
    (ht : t.all Event.plain = true) (hpurpose : purpose ∈ resetPurposes)
    (hfirst : ∀ args found, .recovery (.mailed args found) ∉ t)
    (hok : ∀ now args (found : List Uuid), Runs env start i
      (.recovery (.mailed args found) :: .recovery (.unusedFound user resetPurposes found) ::
        .clock now :: t) (k ())) :
    Runs env start i t (issuePasswordReset user (env.resetHash (.drawn i 0)) purpose expiresAt
      actor (.drawn i 1) >>= k) := by
  unfold issuePasswordReset
  rw [Prog.bind_assoc]
  refine runs_clock fun now => runs_replaceMailed (plain_append [_] rfl ht) ?_ fun found => ?_
  · exact fun found => .link (by simpa using hfirst) rfl rfl hpurpose rfl
  exact hok now _ found

theorem runs_requestPasswordReset (email : String) :
    Runs env start i [.called (.requestPasswordReset email)]
      (requestPasswordReset env i email) := by
  unfold requestPasswordReset eligibleUserByEmail
  refine runs_count fun count => ?_
  split
  · exact runs_fail rfl
  · rw [Prog.bind_assoc]
    refine runs_look (fun _ => rfl) (fun _ _ => rfl) (fun _ => trivial) (fun _ => trivial) ?_
    intro answer
    cases answer with
    | none => exact runs_done rfl trivial
    | some user =>
        dsimp only
        split
        · exact runs_done rfl trivial
        · rw [Prog.bind_assoc]
          refine runs_look (fun _ => rfl) (fun _ _ => rfl) (fun _ => trivial) (fun _ => trivial) ?_
          intro known
          cases known with
          | false => exact runs_done rfl trivial
          | true =>
              rw [if_pos rfl, Prog.pure_bind]
              dsimp only
              cases user.email with
              | none => exact runs_done rfl trivial
              | some address =>
                  refine runs_clock fun now =>
                    runs_issuePasswordReset rfl (by decide) (by simp) fun issued args found => ?_
                  exact runs_send (by simp) fun delivered => runs_done rfl trivial

/-- The end of a reset that has changed the password. -/
theorem returns_reset (pre base : List Event) (token : Token) (password : String)
    (args : ResetArgs) (found : Option Uuid) (user : Option RecoveryUser)
    (hpre : pre.all Event.plain = true) (hbase : base.all Event.plain = true) :
    Returns
      (pre ++ .recovery (.passwordReset args found (.updated, user)) ::
        (base ++ [.called (.resetPassword token password)])) (.ok .nothing) := by
  have hcalled : ∀ call, .called call ∈ pre ++
        .recovery (.passwordReset args found (.updated, user)) ::
          (base ++ [.called (.resetPassword token password)]) →
      call = .resetPassword token password ∨ (Event.called call).plain = true := by
    intro call hmem
    simp only [List.mem_append, List.mem_cons, List.not_mem_nil, or_false, reduceCtorEq,
      false_or, Event.called.injEq] at hmem
    rcases hmem with hnew | hold | rfl
    · exact Or.inr (List.all_eq_true.mp hpre _ hnew)
    · exact Or.inr (List.all_eq_true.mp hbase _ hold)
    · exact Or.inl rfl
  constructor
  case settled =>
    refine .of_empty fun e he => ?_
    simp only [List.mem_append, List.mem_cons, List.not_mem_nil, or_false] at he
    rcases he with hnew | rfl | hold | rfl
    · exact displaces_of_all_plain hpre e hnew
    · rfl
    · exact displaces_of_all_plain hbase e hold
    · rfl
  case pair => exact fun _ heq => by cases heq
  case claims => exact fun _ heq => by cases heq
  case decision => exact fun _ heq => by cases heq
  case refresh =>
    intro _ _ _ hcall
    rcases hcalled _ hcall with h | h
    · cases h
    · cases h
  case suspend =>
    intro _ _ _ hcall
    rcases hcalled _ hcall with h | h
    · cases h
    · cases h
  case offboard =>
    intro _ _ _ _ hcall
    rcases hcalled _ hcall with h | h
    · cases h
    · cases h
  case reset => exact fun _ _ _ _ _ => ⟨args, found, user, by simp⟩
  case conflict =>
    intro _ hcall hmoves
    rcases hcalled _ hcall with rfl | h
    · cases hmoves
    · rw [Event.plain_of_movesContact hmoves] at h
      cases h
  case authenticate => exact fun _ _ _ heq => by cases heq

theorem still_append (pre : List Event) (hpre : pre.all Event.still = true)
    (ht : t.all Event.still = true) : (pre ++ t).all Event.still = true := by
  simp [hpre, ht]

theorem still_revocations {values : List RevocationResult} :
    (revocations values).all Event.still = true := by
  simp [revocations, Event.revokesAccess, Event.revokesFamily, Event.still]

theorem codes_revocations {values : List RevocationResult} {user : Uuid} {token : Token}
    {hash : Digest} (ht : .otpStored user (.mfa token) hash ∉ t) :
    .otpStored user (.mfa token) hash ∉ revocations values ++ t := by
  simp [revocations, Event.revokesAccess, Event.revokesFamily, ht]

theorem runs_afterReset (base : List Event) (token : Token) (password : String)
    {args : ResetArgs} {found : Option Uuid} {user : RecoveryUser}
    (hplain : base.all Event.plain = true)
    (hcodes : base.all (fun e => match e with
      | .otpStored .. => false
      | _ => true) = true) :
    Runs env start i
      (.recovery (.passwordReset args found (.updated, some user)) ::
        (base ++ [.called (.resetPassword token password)]))
      (do
        let _ ← SessionControl.revokeUserAccess user.userId "password_reset"
        match user.email with
        | none => return .nothing
        | some address => do
            notify address
            return .nothing) := by
  have hstill : (.recovery (.passwordReset args found (.updated, some user)) ::
      (base ++ [Event.called (.resetPassword token password)])).all Event.still = true :=
    still_append [_] rfl (still_append base (still_of_plain hplain) rfl)
  have hnone : ∀ owner challenge hash, .otpStored owner (.mfa challenge) hash ∉
      .recovery (.passwordReset args found (.updated, some user)) ::
        (base ++ [Event.called (.resetPassword token password)]) := by
    intro owner challenge hash hmem
    simp only [List.mem_cons, List.mem_append, List.not_mem_nil, reduceCtorEq, or_false,
      false_or] at hmem
    cases List.all_eq_true.mp hcodes _ hmem
  refine runs_revokeUserAccess (fun cutoff sessions results => ?_) fun _ _ =>
    runs_raise (.error_of_still (still_append [_, _] rfl hstill))
  have hreturns : ∀ last : List Event, last.all Event.plain = true → Returns
      (last ++ (revocations results ++
        .put (.userRevocation user.userId) (wholeSecond cutoff) userRevocationTtlSeconds ::
        .session (.revokedAll ⟨user.userId, "password_reset", cutoff⟩ sessions results) ::
        .session (.activeSessions user.userId sessions) :: .clock cutoff ::
        .recovery (.passwordReset args found (.updated, some user)) ::
        (base ++ [Event.called (.resetPassword token password)]))) (.ok .nothing) := by
    intro last hlast
    have h := returns_reset
      (last ++ (revocations results ++
        [.put (.userRevocation user.userId) (wholeSecond cutoff) userRevocationTtlSeconds,
        .session (.revokedAll ⟨user.userId, "password_reset", cutoff⟩ sessions results),
        .session (.activeSessions user.userId sessions), .clock cutoff]))
      base token password args found (some user)
      (plain_append last hlast (plain_revocations rfl)) hplain
    rw [List.append_assoc, List.append_assoc] at h
    exact h
  cases user.email with
  | none => exact runs_return (hreturns [] rfl)
  | some address =>
      refine runs_notify (fun _ _ _ => codes_revocations ?_) ?_ ?_
      · simp only [List.mem_cons, reduceCtorEq, false_or]
        simpa using hnone _ _ _
      · exact runs_return (hreturns [_] rfl)
      · exact runs_raise (.error_of_still (still_append [_] rfl
          (still_append _ still_revocations (still_append [_, _, _, _] rfl hstill))))

theorem runs_resetPassword (token : Token) (password : String) :
    Runs env start i [.called (.resetPassword token password)]
      (resetPassword env i token password) := by
  unfold resetPassword
  split
  · exact runs_raise (.error_of_still rfl)
  · refine runs_breachCount fun breached => ?_
    match breached with
    | none => exact runs_raise (.error_of_still rfl)
    | some true => exact runs_raise (.error_of_still rfl)
    | some false =>
        refine runs_clock fun now => runs_clock fun started => ?_
        refine runs_txn (runsTx_ask (fun _ => rfl) (fun _ _ => rfl) (fun _ _ => trivial)
          (fun _ => trivial) fun found => ?_)
        refine runsTx_lockOnly ((lockOnly_resetWith _ _ _).bind fun _ => trivial) ?_ ?_
          fun fault => runs_raise (.error_of_still rfl)
        · intro c htrace _ b change halone
          obtain ⟨result, hrun, rfl⟩ := alone_bind_ret halone
          obtain ⟨outcome, user⟩ := result
          rcases alone_resetWith hrun with ⟨hupdated, hsame⟩ | ⟨hother, rfl⟩
          · cases hupdated
            exact records_of_commit htrace rfl rfl trivial .intro hsame
          · refine records_of_tells htrace ?_ rfl trivial .intro
            cases outcome with
            | updated => exact absurd rfl hother
            | invalid => rfl
            | reused => rfl
        · rintro b ⟨d, change, _, halone⟩
          obtain ⟨⟨outcome, user⟩, _, rfl⟩ := alone_bind_ret halone
          cases outcome with
          | reused => exact runs_raise (.error_of_still rfl)
          | invalid =>
              cases user with
              | none => exact runs_raise (.error_of_still rfl)
              | some user => exact runs_raise (.error_of_still rfl)
          | updated =>
              cases user with
              | none => exact runs_raise (.error_of_still rfl)
              | some user =>
                  exact runs_afterReset [_, _, _, _] token password rfl rfl

/-- A call about a contact that ends in another error than a conflict, or has
committed nothing. -/
theorem Returns.error_of_contact {error : AuthError} (hsettled : ∀ e ∈ t, e.displaces = [])
    (hcalls : ∀ call, .called call ∈ t → call.movesContact = true)
    (hconflict : error = contactConflict → ∀ e ∈ t, e.commit = none) :
    Returns t (.error error) where
  authenticate _ _ hcall := by cases hcalls _ hcall
  settled := .of_empty hsettled
  pair _ heq := by cases heq
  claims _ heq := by cases heq
  decision _ heq := by cases heq
  refresh _ _ _ hcall := by cases hcalls _ hcall
  suspend _ _ _ _ heq := by cases heq
  offboard _ _ _ _ _ heq := by cases heq
  reset _ _ _ _ heq := by cases heq
  conflict _ _ _ heq := by
    cases heq
    exact hconflict rfl

theorem Returns.ok_of_contact {record : ContactChangeRecord}
    (hsettled : ∀ e ∈ t, e.displaces = [])
    (hcalls : ∀ call, .called call ∈ t → call.movesContact = true) :
    Returns t (.ok (.contactChange record)) where
  authenticate _ _ _ heq := by cases heq
  settled := .of_empty hsettled
  pair _ heq := by cases heq
  claims _ heq := by cases heq
  decision _ heq := by cases heq
  refresh _ _ _ hcall := by cases hcalls _ hcall
  suspend _ _ _ hcall := by cases hcalls _ hcall
  offboard _ _ _ _ hcall := by cases hcalls _ hcall
  reset _ _ _ hcall := by cases hcalls _ hcall
  conflict _ _ _ heq := by cases heq

/-- An event of a call about a contact: no code is stored. -/
def Event.contactual : Event → Bool
  | called call => call.movesContact
  | otpStored .. => false
  | e => e.plain

theorem contactual_append (pre : List Event) (hpre : pre.all Event.contactual = true)
    (ht : t.all Event.contactual = true) : (pre ++ t).all Event.contactual = true := by
  simp [hpre, ht]

theorem displaces_of_contactual (h : t.all Event.contactual = true) :
    ∀ e ∈ t, e.displaces = [] := by
  intro e he
  have hcontactual := List.all_eq_true.mp h e he
  cases e with
  | called call => rfl
  | otpStored user purpose hash => rfl
  | _ => exact Event.displaces_of_plain hcontactual

theorem called_of_contactual (h : t.all Event.contactual = true) :
    ∀ call, .called call ∈ t → call.movesContact = true :=
  fun _ hcall => List.all_eq_true.mp h _ hcall

theorem codes_of_contactual (h : t.all Event.contactual = true) :
    ∀ user token hash, .otpStored user (.mfa token) hash ∉ t :=
  fun _ _ _ hmem => Bool.noConfusion (List.all_eq_true.mp h _ hmem)

theorem contactual_revocations {values : List RevocationResult}
    (h : t.all Event.contactual = true) :
    (revocations values ++ t).all Event.contactual = true := by
  simp [revocations, h, Event.revokesAccess, Event.revokesFamily, Event.contactual, Event.plain]

theorem runs_contactFail {error : AuthError} (h : t.all Event.contactual = true)
    (hconflict : error = contactConflict → ∀ e ∈ t, e.commit = none) :
    Runs env start i t (fail error) :=
  runs_raise (.error_of_contact (displaces_of_contactual h) (called_of_contactual h) hconflict)

/-- An error that tells nothing of a conflict. -/
theorem runs_contactError {error : AuthError} (h : t.all Event.contactual = true)
    (hother : error ≠ contactConflict) : Runs env start i t (fail error) :=
  runs_contactFail h fun heq => absurd heq hother

theorem runs_contactDone {record : ContactChangeRecord} (h : t.all Event.contactual = true) :
    Runs env start i t (pure (.contactChange record)) :=
  runs_return (.ok_of_contact (displaces_of_contactual h) (called_of_contactual h))

theorem unhandled_ne_contactConflict : AuthError.unhandled ≠ contactConflict := by
  simp [contactConflict]

theorem contactInvalid_ne_contactConflict : contactInvalid ≠ contactConflict := by
  simp [contactInvalid, contactConflict]

/-- Two messages, neither of which may fail. -/
theorem runs_notifyBoth {old new : String} {record : ContactChangeRecord}
    (h : t.all Event.contactual = true) :
    Runs env start i t (do
      notify old
      notify new
      return .contactChange record) := by
  refine runs_notify (codes_of_contactual h) ?_
    (runs_contactError (contactual_append [_] rfl h) unhandled_ne_contactConflict)
  refine runs_notify (codes_of_contactual (contactual_append [_] rfl h)) ?_
    (runs_contactError (contactual_append [_, _] rfl h) unhandled_ne_contactConflict)
  exact runs_contactDone (contactual_append [_, _] rfl h)

theorem startLocked_none {guard : Trans Unit} {args : ContactArgs} {view : UserView}
    (h : view.row.bind (startingContact args) = none) :
    startLocked guard args view = .ret none := by
  rw [startLocked, h]
  rfl

theorem startLocked_some {guard : Trans Unit} {args : ContactArgs} {view : UserView}
    {old : String} (h : view.row.bind (startingContact args) = some old) :
    startLocked guard args view = guard >>= fun _ => insertContactChange args old view.pending := by
  rw [startLocked, h]

/-- What a transaction on a locked user commits is what it commits alone. -/
theorem alone_startContactChange {guard : Trans Unit} {args : ContactArgs} {d : Db}
    {view : UserView} (hview : d.userView args.userId = view) :
    (startContactChange guard args).alone d id = (startLocked guard args view).alone d id := by
  subst hview
  rfl

theorem runs_createContactChange {args : ContactArgs}
    {k : Except (Fault AuthError) (Option ContactChangeRecord) → Proc Result}
    (ht : t.all Event.contactual = true) (hnone : ∀ e ∈ t, e.commit = none)
    (hok : ∀ (t : List Event) result, t.all Event.contactual = true →
      Runs env start i t (k (.ok result)))
    (hfault : ∀ (t : List Event) fault, t.all Event.contactual = true →
      (∀ e ∈ t, e.commit = none) → Runs env start i t (k (.error fault))) :
    Runs env start i t (createContactChange args >>= k) := by
  refine runs_txn (runsTx_lock (fun view => ?_) (hfault t .deadlock ht hnone))
  cases hold : (UserView.row view).bind (startingContact args) with
  | none =>
      rw [startLocked_none hold]
      refine runsTx_return ?_ (hok _ none (contactual_append [_] rfl ht)) fun fault =>
        hfault t fault ht hnone
      intro c htrace hcurrent
      have hview : c.db.userView args.userId = view :=
        hcurrent ⟨.user args.userId, view⟩ (by simp)
      refine records_of_commit htrace rfl rfl trivial trivial ?_
      rw [alone_startContactChange hview, startLocked_none hold]
      rfl
  | some old =>
      rw [startLocked_some hold]
      unfold noConflict
      rw [Tx.bind_assoc]
      refine runsTx_ask (fun _ => rfl) (fun _ _ => rfl) (fun _ _ => trivial) (fun _ => trivial) ?_
      intro conflict
      have hasked := contactual_append [.recovery (.conflict args.newValue conflict)] rfl ht
      have hquery : ∀ e ∈ .recovery (.conflict args.newValue conflict) :: t, e.commit = none := by
        intro e he
        rcases List.mem_cons.mp he with rfl | hold
        · rfl
        · exact hnone e hold
      cases conflict with
      | true => exact runsTx_raise (hfault _ _ hasked hquery)
      | false =>
          refine runsTx_lockOnly (lockOnly_insertContactChange _ _ _) ?_ ?_ fun fault =>
            hfault _ fault hasked hquery
          · intro c htrace hcurrent b change halone
            have hview : c.db.userView args.userId = view :=
              hcurrent ⟨.user args.userId, view⟩ (by simp)
            refine records_of_commit htrace rfl rfl trivial trivial ?_
            rw [alone_startContactChange hview, startLocked_some hold]
            exact halone
          · intro result _
            exact hok _ result (contactual_append [_] rfl hasked)

theorem recentMfaRequired_ne_contactConflict :
    SupportAdminControl.recentMfaRequired ≠ contactConflict := by
  simp [SupportAdminControl.recentMfaRequired, contactConflict]

theorem runs_startContactChange (claims : AccessClaims) (contactType : ContactType)
    (newValue : String) :
    Runs env start i [.called (.startContactChange claims contactType newValue)]
      (RecoveryControl.startContactChange env i claims contactType newValue) := by
  unfold RecoveryControl.startContactChange
  split
  · exact runs_contactError rfl recentMfaRequired_ne_contactConflict
  · split
    · refine runs_clock fun now => runs_createContactChange rfl ?_ ?_ ?_
      · intro e he
        simp only [List.mem_cons, List.not_mem_nil, or_false] at he
        rcases he with rfl | rfl
        · rfl
        · rfl
      · intro t result ht
        cases result with
        | none => exact runs_contactError ht contactInvalid_ne_contactConflict
        | some record => exact runs_notifyBoth ht
      · intro t fault ht hnone
        cases fault with
        | thrown error => exact runs_contactFail ht fun _ => hnone
        | deadlock => exact runs_contactError ht unhandled_ne_contactConflict
        | integrity => exact runs_contactError ht unhandled_ne_contactConflict
    · exact runs_contactError rfl contactInvalid_ne_contactConflict

theorem runs_verifyContactChange (claims : AccessClaims) (request : Uuid) (proof : ContactProof)
    (code : String) :
    Runs env start i [.called (.verifyContactChange claims request proof code)]
      (RecoveryControl.verifyContactChange env claims request proof code) := by
  unfold RecoveryControl.verifyContactChange
  split
  · exact runs_contactError rfl recentMfaRequired_ne_contactConflict
  · split
    · exact runs_contactError rfl contactInvalid_ne_contactConflict
    · refine runs_clock fun now => ?_
      refine runs_attempt (lockOnly_proveContactChange _) (fun _ => rfl) (fun _ _ => rfl) ?_ ?_
        (fun result => ?_) fun fault => ?_
      · exact fun _ _ => trivial
      · exact fun _ => Proves.intro
      · cases result with
        | none => exact runs_contactError rfl contactInvalid_ne_contactConflict
        | some record =>
            dsimp only
            split
            · refine runs_revokeUserAccess (fun cutoff found results => ?_) fun _ _ =>
                runs_contactError rfl unhandled_ne_contactConflict
              exact runs_notifyBoth (contactual_revocations rfl)
            · exact runs_contactDone rfl
      · cases fault with
        | thrown error => exact runs_contactError rfl unhandled_ne_contactConflict
        | deadlock => exact runs_contactError rfl unhandled_ne_contactConflict
        | integrity =>
            refine runs_contactFail rfl fun _ e he => ?_
            simp only [List.mem_cons, List.not_mem_nil, or_false] at he
            rcases he with rfl | rfl
            · rfl
            · rfl

section Staff

open SupportAdminControl

/-- The check of a role before what staff may do. -/
theorem runs_authorize {claims : AccessClaims} {role : StaffRole} {k : Unit → Proc Result}
    (ht : t.all Event.plain = true)
    (hok : Runs env start i (.account (.staffRole claims.userId role true) :: t) (k ())) :
    Runs env start i t (authorize claims role >>= k) := by
  unfold authorize SupportAdminControl.staffHasRole
  split
  · exact runs_fail_bind ht
  · rw [Prog.bind_assoc]
    refine runs_look (fun _ => rfl) (fun _ _ => rfl) (fun _ => trivial) (fun _ => trivial) ?_
    intro allowed
    cases allowed with
    | false => exact runs_fail_bind (plain_append [_] rfl ht)
    | true => exact hok

theorem runs_unlockUser {actor target : Uuid} {k : Option RecoveryUser → Proc Result}
    (ht : t.all Event.plain = true)
    (hok : ∀ result, Runs env start i (.recovery (.unlocked target actor result) :: t)
      (k result)) :
    Runs env start i t (unlockUser actor target >>= k) := by
  refine runs_transact (lockOnly_unlock _ _) (fun _ => rfl) (fun _ _ => rfl) ?_ ?_ hok
    (runs_fail ht)
  · exact fun _ _ => trivial
  · exact fun _ => trivial

theorem runs_unlock (claims : AccessClaims) (target : Uuid) :
    Runs env start i [.called (.unlock claims target)]
      (SupportAdminControl.unlock claims target) := by
  refine runs_authorize rfl (runs_unlockUser rfl fun user => ?_)
  cases user with
  | none => exact runs_fail rfl
  | some user => exact runs_done rfl trivial

theorem runs_supportRecovery (claims : AccessClaims) (target : Uuid) :
    Runs env start i [.called (.supportRecovery claims target)]
      (supportRecovery env i claims target) := by
  refine runs_authorize rfl (runs_unlockUser rfl fun user => ?_)
  cases user.bind (·.email) with
  | none => exact runs_fail rfl
  | some address =>
      refine runs_clock fun now =>
        runs_issuePasswordReset rfl (by decide) (by simp) fun issued args found => ?_
      exact runs_notify (by simp) (runs_done rfl trivial) (runs_fail rfl)

/-- The message about a governed request, if the user can be told. -/
theorem runs_notifyUser {user : RecoveryUser} {record : GovernedResetRecord}
    (ht : t.all Event.plain = true)
    (hcodes : ∀ user token hash, .otpStored user (.mfa token) hash ∉ t) :
    Runs env start i t (do
      notifyUser user
      return .governed record) := by
  unfold notifyUser
  split
  · exact runs_done ht trivial
  · exact runs_notify hcodes (runs_done (plain_append [_] rfl ht) trivial)
      (runs_fail (plain_append [_] rfl ht))

theorem runs_initiateMfaReset (claims : AccessClaims) (target : Uuid) (ticket : String) :
    Runs env start i [.called (.initiateMfaReset claims target ticket)]
      (SupportAdminControl.initiateMfaReset i claims target ticket) := by
  refine runs_authorize rfl (runs_clock fun now => ?_)
  refine runs_lookup (lockOnly_initiateWith _) (fun _ => rfl) (fun _ _ => rfl) (fun _ => rfl)
    (fun _ => trivial) (fun _ _ => rfl) (fun _ _ => rfl) (fun _ _ => trivial) ?_ ?_ ?_
  · exact fun _ _ => Initiates.intro
  · intro user result
    cases result with
    | none => exact runs_fail rfl
    | some result => exact runs_notifyUser rfl (by simp)
  · exact fun _ _ => runs_fail rfl

theorem alone_approveWith {guard : GovernedRequest → Trans Unit} {args : GovernedArgs} {d : Db}
    {request : Option GovernedRequest} (hget : d.governed.get args.requestId = request) :
    (approveWith guard args).alone d id = (approveLocked guard args request).alone d id := by
  subst hget
  rfl

theorem approveLocked_closed {guard : GovernedRequest → Trans Unit} {args : GovernedArgs}
    {row : GovernedRequest} (h : row.state ≠ .pending) :
    approveLocked guard args (some row) = .ret none :=
  if_pos h

theorem approveLocked_own {guard : GovernedRequest → Trans Unit} {args : GovernedArgs}
    {row : GovernedRequest} (h : row.state = .pending) (hown : row.initiatorUserId = args.actor) :
    approveLocked guard args (some row) = .raise (.thrown fourEyesRequired) := by
  simp [approveLocked, h, hown]

/-- The writes of an approval. -/
theorem approveLocked_open {guard : GovernedRequest → Trans Unit} {args : GovernedArgs}
    {row : GovernedRequest} (h : row.state = .pending) (hown : row.initiatorUserId ≠ args.actor) :
    approveLocked guard args (some row) = guard row >>= fun _ => do
      write (DbChange.setGoverned args.requestId (approved args))
      write (DbChange.addAudit
        ⟨some args.actor, some row.targetUserId, none, "ADMIN_MFA_RESET_APPROVED", "success"⟩)
      return some (governedRecord args.requestId (approved args row)) := by
  simp [approveLocked, h, hown]

/-- A transaction that cancels the request and raises leaves no entry. -/
theorem runsTx_targetChanged {β : Type} {event : β → Event}
    {k : Except (Fault AuthError) β → Proc Result} {seen : List ((row : Row) × row.View)}
    {t : List Event} {pending : Db → Db} {request : Uuid} {error : AuthError}
    (h : ∀ fault, Runs env start i t (k (.error fault))) :
    RunsTx env start i t event k seen pending (targetChanged request error) := by
  refine runsTx_lockOnly trivial ?_ ?_ h
  · intro c _ _ b change halone
    cases halone
  · rintro b ⟨d, change, _, halone⟩
    cases halone

theorem runs_approve {claims : AccessClaims} {request : Uuid} {now : Time}
    {k : Except (Fault AuthError) (Option GovernedResetRecord) → Proc Result}
    (h : ∀ (t : List Event) result, t.all Event.plain = true → Runs env start i t (k result)) :
    Runs env start i
      (.clock now :: authorized claims .securitySupervisorL3 (.approveMfaReset claims request))
      (RecoveryRepository.approveMfaReset ⟨claims.userId, request, now⟩ >>= k) := by
  refine runs_txn (runsTx_lock (fun row => ?_) (h _ _ rfl))
  have hget : ∀ {d : Db}, Protocol.Current (L := schema) [⟨.governed request, row⟩] d →
      d.governed.get request = row :=
    fun hcurrent => hcurrent ⟨.governed request, row⟩ (by simp)
  cases row with
  | none =>
      refine runsTx_return ?_ (h _ _ rfl) fun fault => h _ _ rfl
      intro c htrace hcurrent
      refine records_of_commit htrace rfl rfl trivial trivial ?_
      rw [alone_approveWith (hget hcurrent)]
      rfl
  | some row =>
      by_cases hstate : row.state = .pending
      · by_cases hown : row.initiatorUserId = claims.userId
        · rw [approveLocked_own hstate hown]
          exact runsTx_raise (h _ _ rfl)
        · rw [approveLocked_open hstate hown]
          unfold unchangedTarget
          rw [Tx.bind_assoc]
          refine runsTx_ask (fun _ => rfl) (fun _ _ => rfl) (fun _ _ => rfl) (fun _ => trivial) ?_
          intro user
          cases hsame : sameVersion row user with
          | false => exact runsTx_targetChanged fun fault => h _ _ rfl
          | true =>
              refine runsTx_lockOnly trivial ?_ (fun result _ => h _ _ rfl) fun fault => h _ _ rfl
              intro c htrace hcurrent b change halone
              have hrun := halone
              cases hrun
              refine records_of_commit htrace rfl rfl trivial .intro ?_
              rw [alone_approveWith (hget hcurrent), approveLocked_open hstate hown]
              exact halone
      · rw [approveLocked_closed hstate]
        refine runsTx_return ?_ (h _ _ rfl) fun fault => h _ _ rfl
        intro c htrace hcurrent
        refine records_of_commit htrace rfl rfl trivial trivial ?_
        rw [alone_approveWith (hget hcurrent), approveLocked_closed hstate]
        rfl

theorem runs_approveMfaReset (claims : AccessClaims) (request : Uuid) :
    Runs env start i [.called (.approveMfaReset claims request)]
      (SupportAdminControl.approveMfaReset claims request) := by
  refine runs_authorize rfl (runs_clock fun now => runs_approve fun t result ht => ?_)
  match result with
  | .error (.thrown error) => exact runs_fail ht
  | .error .deadlock => exact runs_fail ht
  | .error .integrity => exact runs_fail ht
  | .ok none => exact runs_fail ht
  | .ok (some record) => exact runs_done ht trivial

theorem alone_executeWith {β : Type} {refused : β} {finish : GovernedRequest → User → Trans β}
    {args : GovernedArgs} {d : Db} {request : Option GovernedRequest}
    (hget : d.governed.get args.requestId = request) :
    (executeWith refused finish args).alone d id =
      (executeLocked refused finish args request).alone d id := by
  subst hget
  rfl

theorem executeLocked_closed {β : Type} {refused : β} {finish : GovernedRequest → User → Trans β}
    {args : GovernedArgs} {row : GovernedRequest}
    (h : (row.state ≠ .approved || row.approverUserId.isNone) = true) :
    executeLocked refused finish args (some row) = .ret refused :=
  if_pos h

theorem executeLocked_early {β : Type} {refused : β} {finish : GovernedRequest → User → Trans β}
    {args : GovernedArgs} {row : GovernedRequest}
    (h : ¬(row.state ≠ .approved || row.approverUserId.isNone) = true)
    (hearly : args.now < row.executeAfter) :
    executeLocked refused finish args (some row) = .raise (.thrown governedTooEarly) :=
  (if_neg h).trans (if_pos hearly)

theorem executeLocked_due {β : Type} {refused : β} {finish : GovernedRequest → User → Trans β}
    {args : GovernedArgs} {row : GovernedRequest}
    (h : ¬(row.state ≠ .approved || row.approverUserId.isNone) = true)
    (hdue : ¬args.now < row.executeAfter) :
    executeLocked refused finish args (some row) =
      lockRow (.user row.targetUserId) >>= fun view =>
        executeTarget finish args.requestId row (UserView.row view) :=
  (if_neg h).trans (if_neg hdue)

theorem alone_executeLocked_due {β : Type} {refused : β}
    {finish : GovernedRequest → User → Trans β} {args : GovernedArgs} {row : GovernedRequest}
    {user : User} {d : Db} (h : ¬(row.state ≠ .approved || row.approverUserId.isNone) = true)
    (hdue : ¬args.now < row.executeAfter) (huser : d.users.get row.targetUserId = some user)
    (hversion : user.version = row.targetUserVersion) :
    (executeLocked refused finish args (some row)).alone d id = (finish row user).alone d id := by
  rw [executeLocked_due h hdue]
  change (executeTarget finish args.requestId row (d.users.get row.targetUserId)).alone d id = _
  rw [huser, executeTarget, if_pos hversion]

theorem runs_execute {claims : AccessClaims} {request : Uuid} {now : Time}
    {k : Except (Fault AuthError) (List Uuid × Option (GovernedResetRecord × RecoveryUser)) →
      Proc Result}
    (h : ∀ (t : List Event) result, t.all Event.plain = true →
      (∀ user token hash, .otpStored user (.mfa token) hash ∉ t) → Runs env start i t (k result)) :
    Runs env start i
      (.clock now :: authorized claims .securitySupervisorL3 (.executeMfaReset claims request))
      (RecoveryRepository.executeMfaReset ⟨claims.userId, request, now⟩ >>= k) := by
  have hquit : ∀ fault, Runs env start i
      (.clock now :: authorized claims .securitySupervisorL3 (.executeMfaReset claims request))
      (k (.error fault)) :=
    fun fault => h _ _ rfl (by simp [authorized])
  refine runs_txn (runsTx_lock (fun row => ?_) (hquit _))
  cases row with
  | none =>
      refine runsTx_return ?_ (h _ _ rfl (by simp [authorized])) hquit
      intro c htrace hcurrent
      have hget : c.db.governed.get request = none :=
        hcurrent ⟨.governed request, none⟩ (by simp)
      refine records_of_commit htrace rfl rfl trivial trivial ?_
      rw [alone_executeWith hget]
      rfl
  | some row =>
      by_cases hclosed : (row.state ≠ .approved || row.approverUserId.isNone) = true
      · rw [executeLocked_closed hclosed]
        refine runsTx_return ?_ (h _ _ rfl (by simp [authorized])) hquit
        intro c htrace hcurrent
        have hget : c.db.governed.get request = some row :=
          hcurrent ⟨.governed request, some row⟩ (by simp)
        refine records_of_commit htrace rfl rfl trivial trivial ?_
        rw [alone_executeWith hget, executeLocked_closed hclosed]
        rfl
      · by_cases hearly : now < row.executeAfter
        · rw [executeLocked_early hclosed hearly]
          exact runsTx_raise (hquit _)
        · rw [executeLocked_due hclosed hearly]
          refine runsTx_lock (fun view => ?_) (hquit _)
          cases huser : UserView.row view with
          | none => exact runsTx_targetChanged hquit
          | some user =>
              by_cases hversion : user.version = row.targetUserVersion
              · rw [executeTarget, if_pos hversion]
                unfold executeFound
                refine runsTx_ask (fun _ => rfl) (fun _ _ => rfl) (fun _ _ => trivial)
                  (fun _ => trivial) ?_
                intro found
                refine runsTx_lockOnly ((lockOnly_executeWrites _ _ _ _).bind fun _ => trivial) ?_
                  (fun result _ => h _ _ rfl (by simp [authorized])) fun fault =>
                    h _ _ rfl (by simp [authorized])
                intro c htrace hcurrent b change halone
                obtain ⟨result, hrun, rfl⟩ := alone_bind_ret halone
                have hget : c.db.governed.get request = some row :=
                  hcurrent ⟨.governed request, some row⟩ (by simp)
                have hview : c.db.userView row.targetUserId = view :=
                  hcurrent ⟨.user row.targetUserId, view⟩ (by simp)
                refine records_of_commit htrace rfl rfl trivial ?_ ?_
                · cases result with
                  | none => exact trivial
                  | some result => exact Executes.intro
                · rw [alone_executeWith hget, alone_executeLocked_due hclosed hearly
                    ((congrArg UserView.row hview).trans huser) hversion]
                  exact hrun
              · rw [executeTarget, if_neg hversion]
                exact runsTx_targetChanged hquit

theorem runs_executeMfaReset (claims : AccessClaims) (request : Uuid) :
    Runs env start i [.called (.executeMfaReset claims request)]
      (SupportAdminControl.executeMfaReset claims request) := by
  refine runs_authorize rfl (runs_clock fun now => runs_execute fun t result ht hcodes => ?_)
  match result with
  | .error (.thrown error) => exact runs_fail ht
  | .error .deadlock => exact runs_fail ht
  | .error .integrity => exact runs_fail ht
  | .ok (_, none) => exact runs_fail ht
  | .ok (_, some (record, user)) =>
      refine runs_revokeUserAccess (fun cutoff found results => ?_) fun _ _ =>
        runs_fail (plain_append [_, _] rfl ht)
      refine runs_notifyUser (plain_revocations (plain_append [_, _, _, _] rfl ht)) ?_
      intro user token hash
      refine codes_revocations ?_
      simpa using hcodes user token hash

theorem runs_readGoverned (request : Uuid) (ht : t.all Event.plain = true) :
    Runs env start i t (do
      let row ← look (getMfaReset request) fun answer => .recovery (.governed request answer)
      match row with
      | none => fail governedInvalid
      | some row => return .governed (governedRecord request row)) := by
  refine runs_look (fun _ => rfl) (fun _ _ => rfl) (fun _ => trivial) (fun _ => trivial) ?_
  intro row
  cases row with
  | none => exact runs_fail (plain_append [_] rfl ht)
  | some row => exact runs_done (plain_append [_] rfl ht) trivial

theorem runs_getMfaReset (claims : AccessClaims) (request : Uuid) :
    Runs env start i [.called (.getMfaReset claims request)]
      (SupportAdminControl.getMfaReset claims request) := by
  unfold SupportAdminControl.getMfaReset SupportAdminControl.staffHasRole
  split
  · exact runs_fail rfl
  · refine runs_look (fun _ => rfl) (fun _ _ => rfl) (fun _ => trivial) (fun _ => trivial) ?_
    intro agent
    cases agent with
    | true => exact runs_readGoverned request rfl
    | false =>
        refine runs_look (fun _ => rfl) (fun _ _ => rfl) (fun _ => trivial) (fun _ => trivial) ?_
        intro supervisor
        cases supervisor with
        | true => exact runs_readGoverned request rfl
        | false => exact runs_fail rfl

end Staff

end Recovery

section Exports

open PrivacyRepository GDPRControl

theorem lockOnly_insertExport (id user : Uuid) (keyHash : Digest) (expiresAt : Time) :
    (insertExport id user keyHash expiresAt).LockOnly :=
  (lockOnly_reserve _ _).bind fun _ => trivial

theorem lockOnly_storeExport (args : CompleteArgs) : (storeExport args).LockOnly := by
  refine (lockOnly_lockRow _).bind fun request => ?_
  split
  · trivial
  · split
    · exact (lockOnly_reserve _ _).bind fun _ => trivial
    · trivial

theorem lockOnly_failExportRequest (id user : Uuid) (code : String) :
    (failExportRequest id user code).LockOnly := by
  refine (lockOnly_lockRow _).bind fun request => ?_
  split
  · trivial
  · split <;> trivial

theorem runs_getOrCreateExport {id user : Uuid} {keyHash : Digest} {expiresAt : Time}
    {k : PrivacyRequestRecord × Bool → Proc Result} (hid : id = .drawn i 0)
    (ht : t.all Event.preparatory = true)
    (hok : ∀ (t : List Event) result, t.all Event.preparatory = true →
      (result.2 = true → result.1.requestId = id) → Runs env start i t (k result)) :
    Runs env start i t (getOrCreateExport id user keyHash expiresAt >>= k) := by
  refine runs_txn (runsTx_ask (fun _ => rfl) (fun _ _ => rfl) (fun _ _ => trivial)
    (fun _ => trivial) fun existing => ?_)
  have hasked := preparatory_append
    [.account (.existingExport user keyHash (existing.map Prod.fst))] rfl ht
  have hplain := plain_of_preparatory hasked
  cases existing with
  | some existing =>
      refine runsTx_return ?_ (hok _ _ (preparatory_append [_] rfl hasked) (by simp))
        fun fault => runs_fail hplain
      intro c htrace _
      exact records_of_tells htrace rfl rfl trivial trivial
  | none =>
      refine runsTx_lockOnly ((lockOnly_insertExport _ _ _ _).bind fun _ => trivial) ?_ ?_
        fun fault => runs_fail hplain
      · intro c htrace _ b change halone
        obtain ⟨_, hrun, rfl⟩ := alone_bind_ret halone
        exact records_of_commit htrace rfl rfl trivial hid hrun
      · rintro result ⟨d, change, _, halone⟩
        obtain ⟨_, _, rfl⟩ := alone_bind_ret halone
        exact hok _ _ (preparatory_append [_] rfl hasked) fun _ => rfl

theorem runs_abandonExport {request user : Uuid} (ht : t.all Event.plain = true) :
    Runs env start i t (abandonExport request user) := by
  refine runs_transact (lockOnly_failExportRequest _ _ _) (fun _ => rfl) (fun _ _ => rfl) ?_ ?_
    (fun _ => runs_fail (plain_append [_] rfl ht)) (runs_fail ht)
  · exact fun _ _ => trivial
  · exact fun _ => trivial

theorem runs_requestExport (claims : AccessClaims) (key : String) :
    Runs env start i [.called (.requestExport claims key)]
      (requestExport env i claims key) := by
  unfold requestExport
  split
  · exact runs_fail rfl
  · refine runs_clock fun now => runs_getOrCreateExport rfl rfl fun t result hcalm hdrawn => ?_
    have ht := plain_of_preparatory hcalm
    obtain ⟨request, created⟩ := result
    cases created with
    | false => exact runs_done ht trivial
    | true =>
        refine runs_clock fun collectedAt => ?_
        refine runs_look (fun _ => rfl) (fun _ _ => rfl) (fun _ => trivial) (fun _ => trivial) ?_
        intro data
        cases data with
        | none => exact runs_abandonExport (plain_append [_, _] rfl ht)
        | some data =>
            refine runs_clock fun completedAt => ?_
            refine runs_attempt (lockOnly_storeExport _) (fun _ => rfl) (fun _ _ => rfl) ?_ ?_ ?_
              fun fault => runs_abandonExport (plain_append [_, _, _] rfl ht)
            · exact fun _ _ => trivial
            · exact fun _ => .of_preparatory (hdrawn rfl) (preparatory_append [_, _, _] rfl hcalm)
            · exact fun record => runs_done (plain_append [_, _, _, _] rfl ht) trivial

end Exports

end AuthCore
