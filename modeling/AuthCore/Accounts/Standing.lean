/-
What an event does to one account: its row and the identities that log in with
its address and number.  Everything said about accounts over a run comes from
this one step.
-/
import AuthCore.Accounts.Workflows
import AuthCore.Sessions.Invariant

namespace AuthCore

open Interleave Relational RecoveryRepository

/-- A user's row and its password and phone identities. -/
@[ext]
structure Account where
  row : Option User
  login : Uuid → Option Identity

def Db.account (d : Db) (u : Uuid) : Account where
  row := d.users.get u
  login id := (d.identities.get id).filter fun x => x.userId == u && x.isLocal

/-- The identity logs in with the contact that the row has. -/
def InStep (row : User) (x : Identity) : Prop :=
  ∀ contactType, x.provider = contactProvider contactType →
    DbChange.contactOf row contactType = some x.providerSubject

/-- The events that insert a user. -/
def Event.creates : Event → Bool
  | recovery (.emailRegistered _) => true
  | recovery (.phoneRegistered _) => true
  | login (.provisioned ..) => true
  | _ => false

/-- The events that verify a contact of a new user. -/
def Event.verifies : Event → Bool
  | recovery (.emailVerified ..) => true
  | recovery (.phoneVerified ..) => true
  | _ => false

def withHash (hash : String) (x : Identity) : Identity :=
  { x with passwordHash := some hash }

def bumped (state : UserState) (row : User) : User :=
  { row with state := state, version := row.version + 1 }

def anonymized (now : Time) (row : User) : User :=
  { row with
    email := none, givenName := none, familyName := none, phoneE164 := none,
    state := .anonymized, anonymizedAt := some now, version := row.version + 1 }

/-- The row with a new contact. -/
def moved (contactType : ContactType) (value : String) (row : User) : User :=
  { DbChange.withContact row contactType value with version := row.version + 1 }

/-- What an event does to an account. -/
inductive AccountStep (u : Uuid) (a : Account) : Event → Account → Prop
  | same {e : Event} : AccountStep u a e a
  | created {e : Event} {a' : Account} {row : User} {new : Uuid} :
      e.creates = true → a.row = none → a'.row = some row → row.anonymizedAt = none →
      (∀ id x, a'.login id = some x → a.login id = some x ∨ id = new ∧ InStep row x) →
      AccountStep u a e a'
  | rehashed {hash : String} {found : Option Uuid} :
      AccountStep u a (.login (.passwordUpdated u hash found))
        ⟨a.row, fun id => (a.login id).map fun x => if found = some id then withHash hash x else x⟩
  | verified {e : Event} {a' : Account} {row : User} :
      e.verifies = true → a.row = some row → RegistrationRepository.verifiable row = true →
      a'.row = some (bumped .active row) →
      (∀ id, a'.login id = a.login id ∨
        a'.login id = (a.login id).map fun x => { x with verified := true }) →
      AccountStep u a e a'
  | reset {args : ResetArgs} {found : Option Uuid} {row : User} {id : Uuid} {x : Identity} :
      a.row = some row → resettable row = true → a.login id = some x → x.provider = .password →
      AccountStep u a (.recovery (.passwordReset args found
          (.updated, some (recoveryUser u (resetUser row)))))
        ⟨some (resetUser row),
          fun k => (a.login k).map fun x => if k = id then withHash args.passwordHash x else x⟩
  | contact {args : ProofArgs} {record : ContactChangeRecord} {a' : Account} {row : User}
      {contactType : ContactType} {value : String} :
      args.userId = u → a.row = some row → row.state = .active →
      a'.row = some (moved contactType value row) →
      (∀ id x', a'.login id = some x' → ∃ x, a.login id = some x ∧
        (x.provider = contactProvider contactType ∧ x' = { x with providerSubject := value } ∨
          x.provider ≠ contactProvider contactType ∧ x' = x)) →
      AccountStep u a (.recovery (.contactVerified args (some record))) a'
  | unlocked {actor : Uuid} {user : Option RecoveryUser} {row : User} :
      a.row = some row → row.state = .active ∨ row.state = .locked →
      AccountStep u a (.recovery (.unlocked u actor user))
        ⟨some (bumped .active row), a.login⟩
  | suspended {actor : Uuid} {result : Bool} {row : User} :
      a.row = some row → row.state ≠ .disabled → row.state ≠ .anonymized →
      AccountStep u a (.account (.suspended u actor result))
        ⟨some (bumped .suspended row), a.login⟩
  | executed {args : GovernedArgs} {found : List Uuid} {record : GovernedResetRecord}
      {user : RecoveryUser} {row : User} :
      record.targetUserId = u → a.row = some row →
      AccountStep u a (.recovery (.resetExecuted args found (some (record, user))))
        ⟨some (bumped row.state row), a.login⟩
  | erased {args : ErasureArgs} {email : Option String} {found : ErasureFound}
      {result : Option PrivacyRequestRecord} {a' : Account} {row : User} :
      args.userId = u → a.row = some row → a'.row = some (anonymized args.now row) →
      (∀ id x, a'.login id = some x → a.login id = some x) →
      AccountStep u a (.account (.erased args (.erased email found) result)) a'

theorem AccountStep.of_eq {u : Uuid} {a a' : Account} {e : Event} (h : a' = a) :
    AccountStep u a e a' :=
  h ▸ .same

section Steps

variable {m : Core Db World} {u : Uuid} {d : Db}

theorem AccountStep.of_keeps {e : Event}
    (h : ∀ commit, e.commit = some commit →
      commit.body.Guarantees (Tx.Keeps fun d => d.account u)) :
    AccountStep u (m.db.account u) e ((e.change m.db).account u) :=
  .of_eq (Event.keeps_change h m.db)

/-- An event that keeps to tables outside of users and identities. -/
theorem AccountStep.of_outside {e : Event} {π : Db → Db}
    (h : ∀ commit, e.commit = some commit → commit.body.Guarantees (Tx.Keeps π))
    (hπ : ∀ d, (π d).account u = d.account u) :
    AccountStep u (m.db.account u) e ((e.change m.db).account u) := by
  refine .of_eq ?_
  have hsame := congrArg (fun d : Db => d.account u) (Event.keeps_change h m.db)
  simpa only [hπ] using hsame

theorem account_eq {d' : Db} (husers : d'.users.get u = d.users.get u)
    (hlogin : ∀ id, (d'.account u).login id = (d.account u).login id) :
    d'.account u = d.account u :=
  Account.ext husers (funext hlogin)

/-- A row that is written does not matter to other accounts. -/
theorem account_setUser {id : Uuid} {users : Table Uuid User} (hne : u ≠ id)
    (hother : ∀ k, k ≠ id → users.get k = d.users.get k) :
    ({ d with users := users } : Db).account u = d.account u :=
  account_eq (hother u hne) fun _ => rfl

theorem get_bumpUser {id k : Uuid} {g : UserState → UserState} :
    ((DbChange.bumpUser id g).apply d).users.get k =
      (d.users.get k).map fun row => if k = id then bumped (g row.state) row else row := by
  change (d.users.update _ _).get k = _
  rw [Table.get_update]
  simp [bumped]

theorem account_bumpUser {id : Uuid} {g : UserState → UserState} (hne : u ≠ id) :
    ((DbChange.bumpUser id g).apply d).account u = d.account u := by
  refine account_eq ?_ fun _ => rfl
  rw [get_bumpUser]
  simp [hne]

theorem get_bumpUser_self {g : UserState → UserState} {row : User}
    (hrow : d.users.get u = some row) :
    ((DbChange.bumpUser u g).apply d).users.get u = some (bumped (g row.state) row) := by
  rw [get_bumpUser, hrow]
  simp

theorem account_bumpUser_self {g : UserState → UserState} {row : User}
    (hrow : d.users.get u = some row) :
    ((DbChange.bumpUser u g).apply d).account u =
      ⟨some (bumped (g row.state) row), (d.account u).login⟩ := by
  refine Account.ext ?_ rfl
  exact get_bumpUser_self hrow

/-- A suspension finds an account that is open, or does nothing. -/
theorem alone_suspend {target actor : Uuid} {result : Bool} {change : Db → Db}
    (h : (RecoveryRepository.suspend target actor).alone d id = .ok (result, change)) :
    (result = false ∧ change = id) ∨ result = true ∧ ∃ row, d.users.get target = some row ∧
      row.state ≠ .disabled ∧ row.state ≠ .anonymized ∧ change = fun d =>
        (DbChange.addAudit ⟨some actor, some target, none, "ACCOUNT_SUSPENDED", "success"⟩).apply
          ((DbChange.bumpUser target fun _ => .suspended).apply d) := by
  rw [suspend_alone] at h
  cases hrow : d.users.get target with
  | none =>
      rw [hrow] at h
      cases h
      exact Or.inl ⟨rfl, rfl⟩
  | some row =>
      rw [hrow] at h
      dsimp only at h
      split at h
      · cases h
        exact Or.inl ⟨rfl, rfl⟩
      · rename_i hopen
        cases h
        simp only [Bool.or_eq_true, beq_iff_eq, not_or] at hopen
        exact Or.inr ⟨rfl, row, rfl, hopen.1, hopen.2, rfl⟩

/-- An unlock finds an account that is active or locked, or does nothing. -/
theorem alone_unlock {target actor : Uuid} {result : Option RecoveryUser} {change : Db → Db}
    (h : (RecoveryRepository.unlock target actor).alone d id = .ok (result, change)) :
    (result = none ∧ change = id ∧ ∀ row, d.users.get target = some row →
      row.state ≠ .active ∧ row.state ≠ .locked) ∨
    ∃ row user, d.users.get target = some row ∧ (row.state = .active ∨ row.state = .locked) ∧
      result = some user ∧ user.email = row.email ∧ change = fun d =>
        (DbChange.addAudit ⟨some actor, some target, none, "ACCOUNT_UNLOCKED", "success"⟩).apply
          ((DbChange.bumpUser target fun _ => .active).apply d) := by
  rw [unlock_alone] at h
  cases hrow : (d.users.get target).filter
      (fun row => row.state == .active || row.state == .locked) with
  | none =>
      rw [hrow] at h
      cases h
      refine Or.inl ⟨rfl, rfl, fun row hget => ?_⟩
      rw [hget] at hrow
      simpa [Option.filter] using hrow
  | some row =>
      rw [hrow] at h
      cases h
      rw [Option.filter_eq_some_iff] at hrow
      exact Or.inr ⟨row, _, hrow.1, by simpa using hrow.2, rfl, rfl, rfl⟩

theorem step_suspended {target actor : Uuid} {result : Bool}
    (h : (Event.account (.suspended target actor result)).Agrees m) :
    AccountStep u (m.db.account u) (.account (.suspended target actor result))
      (((Event.account (.suspended target actor result)).change m.db).account u) := by
  obtain ⟨change, halone, hchange⟩ := h.commits rfl
  rw [hchange]
  rcases alone_suspend halone with ⟨_, rfl⟩ | ⟨_, row, hrow, hdisabled, hanonymized, rfl⟩
  · exact .same
  · change AccountStep _ _ _
      (((DbChange.bumpUser target fun _ => .suspended).apply m.db).account u)
    by_cases hu : u = target
    · subst hu
      rw [account_bumpUser_self hrow]
      exact .suspended hrow hdisabled hanonymized
    · exact .of_eq (account_bumpUser hu)

theorem step_unlocked {target actor : Uuid} {result : Option RecoveryUser}
    (h : (Event.recovery (.unlocked target actor result)).Agrees m) :
    AccountStep u (m.db.account u) (.recovery (.unlocked target actor result))
      (((Event.recovery (.unlocked target actor result)).change m.db).account u) := by
  obtain ⟨change, halone, hchange⟩ := h.commits rfl
  rw [hchange]
  rcases alone_unlock halone with ⟨_, rfl, _⟩ | ⟨row, user, hrow, hopen, _, _, rfl⟩
  · exact .same
  · change AccountStep _ _ _ (((DbChange.bumpUser target fun _ => .active).apply m.db).account u)
    by_cases hu : u = target
    · subst hu
      rw [account_bumpUser_self hrow]
      exact .unlocked hrow hopen
    · exact .of_eq (account_bumpUser hu)

/-- An execution does nothing, or everything that its guards allow. -/
theorem alone_executeFound {args : GovernedArgs} {found : List Uuid}
    {result : Option (GovernedResetRecord × RecoveryUser)} {change : Db → Db}
    (h : (executeWith none (fun row user => executeWrites args row user found) args).alone d id =
      .ok (result, change)) :
    (result = none ∧ change = id) ∨ ∃ row user, d.governed.get args.requestId = some row ∧
      row.state = .approved ∧ row.approverUserId.isSome = true ∧ row.executeAfter ≤ args.now ∧
      d.users.get row.targetUserId = some user ∧ user.version = row.targetUserVersion ∧
      (executeWrites args row user found).alone d id = .ok (result, change) := by
  rw [alone_executeWith rfl] at h
  cases hget : d.governed.get args.requestId with
  | none =>
      rw [hget] at h
      cases h
      exact Or.inl ⟨rfl, rfl⟩
  | some row =>
      rw [hget] at h
      by_cases hclosed : (row.state ≠ .approved || row.approverUserId.isNone) = true
      · rw [executeLocked_closed hclosed] at h
        cases h
        exact Or.inl ⟨rfl, rfl⟩
      · by_cases hearly : args.now < row.executeAfter
        · rw [executeLocked_early hclosed hearly] at h
          cases h
        · rw [executeLocked_due hclosed hearly] at h
          change Tx.alone d id (executeTarget (fun row user => executeWrites args row user found)
            args.requestId row (d.users.get row.targetUserId)) = .ok (result, change) at h
          cases huser : d.users.get row.targetUserId with
          | none =>
              rw [huser] at h
              cases h
          | some user =>
              rw [huser, executeTarget] at h
              split at h
              · rename_i hversion
                simp only [ne_eq, Bool.or_eq_true, decide_eq_true_eq, not_or, not_not,
                  Option.isNone_iff_eq_none] at hclosed
                refine Or.inr ⟨row, user, rfl, hclosed.1, ?_, Nat.le_of_not_lt hearly, huser,
                  hversion, h⟩
                exact Option.isSome_iff_ne_none.mpr hclosed.2
              · cases h

/-- The writes of an execution after the factors are revoked. -/
theorem alone_executeWrites {args : GovernedArgs} {row : GovernedRequest} {user : User}
    {found : List Uuid} {result : Option (GovernedResetRecord × RecoveryUser)}
    {change : Db → Db}
    (h : (executeWrites args row user found).alone d id = .ok (result, change)) :
    result = some (governedRecord args.requestId (executed args row),
      recoveryUser row.targetUserId { user with version := user.version + 1 }) ∧
    ∃ pending, (Tx.each (revokeFactor row.targetUserId args.now) found).alone d id =
        .ok ((), pending) ∧
      change = (DbChange.addAudit ⟨some args.actor, some row.targetUserId, none,
          "ADMIN_MFA_RESET_EXECUTED", "success"⟩).apply ∘
        (DbChange.setGoverned args.requestId (executed args)).apply ∘
        (DbChange.bumpUser row.targetUserId id).apply ∘ pending := by
  obtain ⟨_, pending, hfactors, hrest⟩ := Tx.alone_bind_eq_ok h
  cases hrest
  exact ⟨rfl, pending, hfactors, rfl⟩

theorem account_of_factors {user : Uuid} {now : Time} {found : List Uuid} {pending : Db → Db}
    (h : (Tx.each (revokeFactor user now) found).alone d id = .ok ((), pending)) :
    (pending d).account u = d.account u := by
  have hkeeps : (Tx.each (revokeFactor user now) found).Guarantees
      (Tx.Keeps fun d => d.account u) :=
    Tx.guarantees_each (guarantees_revokeFactor fun _ _ _ => rfl) _
  exact Tx.keeps_of_reflTransGen (hkeeps.alone h d)

theorem step_executed {args : GovernedArgs} {found : List Uuid}
    {result : Option (GovernedResetRecord × RecoveryUser)}
    (h : (Event.recovery (.resetExecuted args found result)).Agrees m) :
    AccountStep u (m.db.account u) (.recovery (.resetExecuted args found result))
      (((Event.recovery (.resetExecuted args found result)).change m.db).account u) := by
  obtain ⟨change, halone, hchange⟩ := h.commits rfl
  rw [hchange]
  rcases alone_executeFound halone with ⟨_, rfl⟩ | ⟨row, user, _, _, _, _, huser, _, hwrites⟩
  · exact .same
  · obtain ⟨hanswer, pending, hfactors, rfl⟩ := alone_executeWrites hwrites
    dsimp only at hanswer
    subst hanswer
    have hsame := account_of_factors (u := u) hfactors
    change AccountStep _ _ _
      (((DbChange.bumpUser row.targetUserId id).apply (pending m.db)).account u)
    by_cases hu : u = row.targetUserId
    · subst hu
      have hrow : (pending m.db).users.get row.targetUserId = some user :=
        (congrArg Account.row hsame).trans huser
      rw [account_bumpUser_self hrow, hsame]
      exact .executed rfl huser
    · rw [account_bumpUser hu, hsame]
      exact .same

/-- The users are `users`, and the identities those of `d`, of which some of one
user are marked as verified. -/
structure OnlyVerified (users : Table Uuid User) (user : Uuid) (d d' : Db) : Prop where
  users : d'.users = users
  identities : ∀ id, d'.identities.get id = d.identities.get id ∨
    ∃ x, d.identities.get id = some x ∧ x.userId = user ∧
      d'.identities.get id = some { x with verified := true }

theorem onlyVerified_set {users : Table Uuid User} {user id : Uuid} {x : Identity} {d' : Db}
    (h : OnlyVerified users user d d') (hget : d.identities.get id = some x)
    (huser : x.userId = user) :
    OnlyVerified users user d ((DbChange.setVerified id).apply d') where
  users := h.users
  identities k := by
    change (d'.identities.update _ _).get k = _ ∨ _
    rw [Table.get_update]
    by_cases hk : k = id
    · subst hk
      refine Or.inr ⟨x, hget, huser, ?_⟩
      change (d'.identities.update _ _).get k = _
      rw [Table.get_update]
      rcases h.identities k with hsame | ⟨y, hy, _, hverified⟩
      · rw [hsame, hget]
        simp
      · rw [hget] at hy
        cases hy
        rw [hverified]
        simp
    · rcases h.identities k with hsame | ⟨y, hy, hyuser, hverified⟩
      · refine Or.inl ?_
        rw [hsame]
        simp [hk]
      · refine Or.inr ⟨y, hy, hyuser, ?_⟩
        change (d'.identities.update _ _).get k = _
        rw [Table.get_update, hverified]
        simp [hk]

theorem alone_markVerified {users : Table Uuid User} {user : Uuid} {provider : IdentityProvider}
    {id : Uuid} {pending : Db → Db} {result : Unit × (Db → Db)} {b : Db}
    (h : (RegistrationRepository.markVerified user provider id).alone d pending = .ok result)
    (honly : OnlyVerified users user d (pending b)) :
    OnlyVerified users user d (result.2 b) := by
  rw [markVerified_alone] at h
  cases hget : d.identities.get id with
  | none =>
      rw [hget] at h
      cases h
      exact honly
  | some row =>
      rw [hget] at h
      dsimp only at h
      split at h
      · rename_i hmatch
        cases h
        simp only [Bool.and_eq_true, beq_iff_eq] at hmatch
        exact onlyVerified_set honly hget hmatch.1
      · cases h
        exact honly

theorem alone_markAll {users : Table Uuid User} {user : Uuid} {provider : IdentityProvider}
    {ids : List Uuid} {pending : Db → Db} {result : Unit × (Db → Db)} {b : Db}
    (h : (Tx.each (RegistrationRepository.markVerified user provider) ids).alone d pending =
      .ok result) (honly : OnlyVerified users user d (pending b)) :
    OnlyVerified users user d (result.2 b) := by
  induction ids generalizing pending with
  | nil =>
      cases h
      exact honly
  | cons id rest ih =>
      obtain ⟨_, pending', hfirst, hrest⟩ := Tx.alone_bind_eq_ok h
      exact ih hrest (alone_markVerified hfirst honly)

theorem OnlyVerified.login {users : Table Uuid User} {user : Uuid} {d' : Db}
    (h : OnlyVerified users user d d') (id : Uuid) :
    (d'.account u).login id = (d.account u).login id ∨
      u = user ∧ (d'.account u).login id =
        ((d.account u).login id).map fun x => { x with verified := true } := by
  rcases h.identities id with hsame | ⟨x, hget, huser, hverified⟩
  · refine Or.inl ?_
    change (d'.identities.get id).filter _ = _
    rw [hsame]
    rfl
  · change (d'.identities.get id).filter _ = (d.identities.get id).filter _ ∨ _ ∧
      (d'.identities.get id).filter _ = ((d.identities.get id).filter _).map _
    rw [hget, hverified]
    simp only [Option.filter_some]
    by_cases hu : u = user
    · refine Or.inr ⟨hu, ?_⟩
      split
      · rename_i hmine
        rw [if_pos (by exact hmine)]
        rfl
      · rename_i hother
        rw [if_neg (by exact hother)]
        rfl
    · have hother : ¬(x.userId == u && x.isLocal) = true := by
        simp [huser, Ne.symm hu]
      refine Or.inl ?_
      rw [if_neg (by exact hother), if_neg hother]

/-- A verification of `user`, whatever identities it marks. -/
theorem OnlyVerified.step {e : Event} {user : Uuid} {row : User} {d' : Db}
    (hverifies : e.verifies = true) (hrow : d.users.get user = some row)
    (hverifiable : RegistrationRepository.verifiable row = true)
    (h : OnlyVerified ((DbChange.bumpUser user fun _ => .active).apply d).users user d d') :
    AccountStep u (d.account u) e (d'.account u) := by
  have hget : ∀ k, (d'.account k).row =
      (d.users.get k).map fun row => if k = user then bumped .active row else row := by
    intro k
    change d'.users.get k = _
    rw [h.users, get_bumpUser]
  by_cases hu : u = user
  · subst hu
    refine .verified hverifies hrow hverifiable ?_ fun id => ?_
    · rw [hget, hrow]
      simp
    · rcases h.login (u := u) id with hsame | ⟨_, hmarked⟩
      · exact Or.inl hsame
      · exact Or.inr hmarked
  · refine .of_eq (Account.ext ?_ (funext fun id => ?_))
    · rw [hget]
      simp [hu, Db.account]
    · rcases h.login (u := u) id with hsame | ⟨heq, _⟩
      · exact hsame
      · exact absurd heq hu

theorem step_emailVerified {hash : Digest} {now : Time} {found : Option Uuid} {result : Bool}
    (h : (Event.recovery (.emailVerified hash now found result)).Agrees m) :
    AccountStep u (m.db.account u) (.recovery (.emailVerified hash now found result))
      (((Event.recovery (.emailVerified hash now found result)).change m.db).account u) := by
  obtain ⟨change, halone, hchange⟩ := h.commits rfl
  rw [hchange]
  obtain ⟨locked, pending, hlock, hrest⟩ := Tx.alone_bind_eq_ok halone
  obtain ⟨rfl, -⟩ := alone_lockMailed hlock
  cases locked with
  | none =>
      cases hrest
      exact .same
  | some locked =>
      change Tx.alone m.db ((DbChange.useMailed locked.1 now).apply ∘ id)
        (if (m.db.users.get locked.2.userId).any RegistrationRepository.verifiable = true then do
          write (DbChange.setUserState locked.2.userId .active)
          Tx.each (RegistrationRepository.markVerified locked.2.userId .password)
            (m.db.userView locked.2.userId).passwords
          write (DbChange.addAudit
            ⟨none, some locked.2.userId, none, "EMAIL_VERIFIED", "success"⟩)
          return true
        else return false : Trans Bool) = .ok (result, change) at hrest
      split at hrest
      · rename_i hany
        obtain ⟨row, hrow, hverifiable⟩ := (Option.any_eq_true _ _).mp hany
        obtain ⟨_, p₁, hbumped, hmarking⟩ := Tx.alone_bind_eq_ok hrest
        cases hbumped
        obtain ⟨_, p₂, hmarks, hend⟩ := Tx.alone_bind_eq_ok hmarking
        cases hend
        have honly := alone_markAll (b := m.db) hmarks ⟨rfl, fun _ => Or.inl rfl⟩
        exact OnlyVerified.step rfl hrow hverifiable ⟨honly.users, honly.identities⟩
      · cases hrest
        exact .same

theorem step_phoneVerified {user : Uuid} {result : Bool}
    (h : (Event.recovery (.phoneVerified user result)).Agrees m) :
    AccountStep u (m.db.account u) (.recovery (.phoneVerified user result))
      (((Event.recovery (.phoneVerified user result)).change m.db).account u) := by
  obtain ⟨change, halone, hchange⟩ := h.commits rfl
  rw [hchange]
  rw [activatePhone_alone] at halone
  split at halone
  · rename_i hany
    obtain ⟨row, hrow, hverifiable⟩ := (Option.any_eq_true _ _).mp hany
    obtain ⟨_, p₁, hfirst, hrest⟩ := Tx.alone_bind_eq_ok halone
    cases hfirst
    cases hphones : (m.db.userView user).phones with
    | nil =>
        rw [hphones] at hrest
        cases hrest
        exact OnlyVerified.step rfl hrow hverifiable ⟨rfl, fun _ => Or.inl rfl⟩
    | cons id rest =>
        rw [hphones] at hrest
        obtain ⟨_, p₂, hmark, hend⟩ := Tx.alone_bind_eq_ok hrest
        cases hend
        have honly := alone_markVerified (b := m.db) hmark ⟨rfl, fun _ => Or.inl rfl⟩
        exact OnlyVerified.step rfl hrow hverifiable ⟨honly.users, honly.identities⟩
  · cases halone
    exact .same

/-- A reset that changed a password: the token it used, the user and the
identity. -/
theorem alone_resetUpdated {args : ResetArgs} {found : Option Uuid} {user : Option RecoveryUser}
    {change : Db → Db}
    (h : (resetWith (fun _ => false) args found).alone d id = .ok ((.updated, user), change)) :
    ∃ tokenId token row identity x, found = some tokenId ∧
      d.ephemeral.get tokenId = some token ∧ token.tokenHash = args.tokenHash ∧
      token.purpose ∈ resetPurposes ∧ token.consumedAt = none ∧ args.now < token.expiresAt ∧
      d.users.get token.userId = some row ∧ resettable row = true ∧
      d.identities.get identity = some x ∧ x.userId = token.userId ∧ x.provider = .password ∧
      user = some (recoveryUser token.userId (resetUser row)) ∧
      (storeReset args tokenId token.userId identity
        (oldHistory ((d.identityView identity).history ++
          [(args.historyId, ⟨identity, args.passwordHash, args.started⟩)]))).alone d id =
        .ok ((), change) := by
  obtain ⟨locked, pending, hlock, hrest⟩ := Tx.alone_bind_eq_ok h
  obtain ⟨rfl, hlocked⟩ := alone_lockMailed hlock
  cases locked with
  | none => cases hrest
  | some locked =>
      obtain ⟨tokenId, token⟩ := locked
      obtain ⟨hfound, htoken, hhash, hpurpose, hunused, hexpiry⟩ := hlocked tokenId token rfl
      rcases alone_resetAccount hrest with
        ⟨_, row, identity, rest, hrow, hpasswords, hrun⟩ | ⟨hother, _⟩
      · have hmem : identity ∈ (d.userView token.userId).passwords := by
          rw [hpasswords]
          exact List.mem_cons_self
        obtain ⟨⟨id', x⟩, hselect, rfl⟩ := List.mem_map.mp hmem
        rw [Table.mem_select] at hselect
        simp only [Bool.and_eq_true, beq_iff_eq] at hselect
        unfold resetIdentity at hrun
        split at hrun
        · cases hrun
        · rename_i hresettable
          rw [if_neg (by simp)] at hrun
          obtain ⟨_, pending, hstore, hrest⟩ := Tx.alone_bind_eq_ok hrun
          cases hrest
          exact ⟨tokenId, token, row, id', x, hfound, htoken, hhash, hpurpose, hunused, hexpiry,
            hrow, by simpa using hresettable, hselect.1, hselect.2.1, hselect.2.2, rfl, hstore⟩
      · exact absurd rfl hother

theorem login_setPasswordHash {id k : Uuid} {hash : String} :
    (((DbChange.setPasswordHash id hash).apply d).account u).login k =
      ((d.account u).login k).map fun x => if k = id then withHash hash x else x := by
  change ((d.identities.update _ _).get k).filter _ = ((d.identities.get k).filter _).map _
  rw [Table.get_update]
  cases d.identities.get k with
  | none => rfl
  | some x =>
      by_cases hk : k = id
      · simp only [hk, beq_self_eq_true, if_true, Option.map_some, Option.filter_some]
        split
        · rename_i hmine
          rw [if_pos (by exact hmine)]
          rfl
        · rename_i hother
          rw [if_neg (by exact hother)]
          rfl
      · simp [hk]

theorem login_setPasswordHash_other {id : Uuid} {hash : String} {x : Identity}
    (hget : d.identities.get id = some x) (hne : u ≠ x.userId) :
    ((DbChange.setPasswordHash id hash).apply d).account u = d.account u := by
  refine account_eq rfl fun k => ?_
  rw [login_setPasswordHash]
  by_cases hk : k = id
  · subst hk
    have hnone : (d.account u).login k = none := by
      change (d.identities.get k).filter _ = none
      rw [hget]
      simp [Option.filter_some, Ne.symm hne]
    rw [hnone]
    rfl
  · simp [hk]

/-- What a reset does to the account of its user; it leaves other accounts alone. -/
theorem account_of_reset {args : ResetArgs} {found : Option Uuid} {user : Option RecoveryUser}
    (h : (Event.recovery (.passwordReset args found (.updated, user))).Agrees m) :
    ∃ owner row identity x, user = some (recoveryUser owner (resetUser row)) ∧
      (m.db.account owner).row = some row ∧ resettable row = true ∧
      (m.db.account owner).login identity = some x ∧ x.provider = .password ∧
      ((Event.recovery (.passwordReset args found (.updated, user))).change m.db).account owner =
        ⟨some (resetUser row), fun k => ((m.db.account owner).login k).map fun x =>
          if k = identity then withHash args.passwordHash x else x⟩ ∧
      ∀ other, other ≠ owner →
        ((Event.recovery (.passwordReset args found (.updated, user))).change m.db).account other =
          m.db.account other := by
  obtain ⟨change, halone, hchange⟩ := h.commits rfl
  rw [hchange]
  obtain ⟨tokenId, token, row, identity, x, _, _, _, _, _, _, hrow, hresettable, hget, howner,
    hprovider, hanswer, hstore⟩ := alone_resetUpdated halone
  cases hstore
  have hmine : (m.db.account token.userId).login identity = some x := by
    change (m.db.identities.get identity).filter _ = some x
    rw [hget]
    simp [howner, hprovider, Identity.isLocal]
  refine ⟨token.userId, row, identity, x, hanswer, hrow, hresettable, hmine, hprovider, ?_, ?_⟩
  · change ((DbChange.bumpUser token.userId unlockedState).apply
      ((DbChange.setPasswordHash identity args.passwordHash).apply m.db)).account _ = _
    rw [account_bumpUser_self (g := unlockedState)
      (d := (DbChange.setPasswordHash identity args.passwordHash).apply m.db) hrow]
    exact Account.ext rfl (funext fun k => login_setPasswordHash)
  · intro other hother
    change ((DbChange.bumpUser token.userId unlockedState).apply
      ((DbChange.setPasswordHash identity args.passwordHash).apply m.db)).account _ = _
    rw [account_bumpUser hother, login_setPasswordHash_other hget (howner ▸ hother)]

theorem step_passwordReset {args : ResetArgs} {found : Option Uuid} {user : Option RecoveryUser}
    (h : (Event.recovery (.passwordReset args found (.updated, user))).Agrees m) :
    AccountStep u (m.db.account u) (.recovery (.passwordReset args found (.updated, user)))
      (((Event.recovery (.passwordReset args found (.updated, user))).change m.db).account u) := by
  obtain ⟨owner, row, identity, x, huser, hrow, hresettable, hmine, hprovider, hself, hothers⟩ :=
    account_of_reset h
  by_cases hu : u = owner
  · subst hu
    rw [hself, huser]
    exact .reset hrow hresettable hmine hprovider
  · exact .of_eq (hothers u hu)

theorem step_passwordUpdated {user : Uuid} {hash : String} {found : Option Uuid}
    (h : (Event.login (.passwordUpdated user hash found)).Agrees m) :
    AccountStep u (m.db.account u) (.login (.passwordUpdated user hash found))
      (((Event.login (.passwordUpdated user hash found)).change m.db).account u) := by
  obtain ⟨change, halone, hchange⟩ := h.commits rfl
  rw [hchange]
  cases found with
  | none =>
      cases halone
      exact .same
  | some id =>
      change (LoginRepository.storePasswordHash user hash (some id)).alone m.db _ = _ at halone
      rw [storePasswordHash_alone] at halone
      cases hget : m.db.identities.get id with
      | none =>
          rw [hget] at halone
          cases halone
          exact .same
      | some x =>
          rw [hget] at halone
          dsimp only at halone
          split at halone
          · rename_i hmine
            simp only [Bool.and_eq_true, beq_iff_eq] at hmine
            cases halone
            change AccountStep _ _ _ (((DbChange.setPasswordHash id hash).apply m.db).account u)
            by_cases hu : u = user
            · have heq : ((DbChange.setPasswordHash id hash).apply m.db).account u =
                  ⟨(m.db.account u).row, fun k => ((m.db.account u).login k).map fun x =>
                    if some id = some k then withHash hash x else x⟩ := by
                refine Account.ext rfl (funext fun k => ?_)
                rw [login_setPasswordHash]
                simp only [Option.some.injEq, eq_comm]
              rw [heq, ← hu]
              exact .rehashed
            · rw [login_setPasswordHash_other hget (hmine.1 ▸ hu)]
              exact .same
          · cases halone
            exact .same

/-- The identity is the one that logs in with the user's contact. -/
def isLogin (user : Uuid) (contactType : ContactType) (x : Identity) : Bool :=
  x.userId == user && x.provider == contactProvider contactType

theorem mem_localIdentities {user id : Uuid} {contactType : ContactType} :
    id ∈ localIdentities (d.userView user) contactType ↔
      ∃ x, d.identities.get id = some x ∧ isLogin user contactType x = true := by
  cases contactType with
  | email =>
      simp [localIdentities, Db.userView, isLogin, contactProvider]
  | phone =>
      simp [localIdentities, Db.userView, isLogin, contactProvider]

theorem alone_lockLogin {user id : Uuid} {contactType : ContactType} {pending : Db → Db} :
    (lockLogin user contactType id).alone d pending =
      .ok (((d.identities.get id).filter (isLogin user contactType)).map fun x => (id, x),
        pending) := by
  rw [lockLogin_alone]
  cases d.identities.get id with
  | none => rfl
  | some row =>
      rw [Option.filter_some]
      unfold isLogin
      dsimp only
      split <;> rfl

/-- The rows that log in with the user's contact. -/
def logins (d : Db) (user : Uuid) (contactType : ContactType) : List (Uuid × Identity) :=
  (localIdentities (d.userView user) contactType).filterMap fun id =>
    ((d.identities.get id).filter (isLogin user contactType)).map fun x => (id, x)

theorem mem_logins {user id : Uuid} {contactType : ContactType} {x : Identity} :
    (id, x) ∈ logins d user contactType ↔
      d.identities.get id = some x ∧ isLogin user contactType x = true := by
  simp only [logins, List.mem_filterMap, Option.map_eq_some_iff, Option.filter_eq_some_iff,
    Prod.mk.injEq]
  constructor
  · rintro ⟨k, _, y, ⟨hget, hlogin⟩, rfl, rfl⟩
    exact ⟨hget, hlogin⟩
  · rintro ⟨hget, hlogin⟩
    exact ⟨id, mem_localIdentities.mpr ⟨x, hget, hlogin⟩, x, ⟨hget, hlogin⟩, rfl, rfl⟩

/-- The login of a user is moved, if there is one. -/
theorem alone_moveLogin {user : Uuid} {contactType : ContactType} {value : String}
    {pending : Db → Db} {result : Unit × (Db → Db)}
    (h : (moveLogin user contactType value (localIdentities (d.userView user) contactType)).alone
      d pending = .ok result) :
    (logins d user contactType = [] ∧ result.2 = pending) ∨
      ∃ id row, logins d user contactType = [(id, row)] ∧
        (∀ k ∈ (IndexKey.identity (contactProvider contactType) value).entries d, k = id) ∧
        result.2 = (DbChange.setSubject id row value).apply ∘ pending := by
  obtain ⟨rows, pending', hrows, hrest⟩ := Tx.alone_bind_eq_ok h
  rw [Tx.alone_collect fun id => alone_lockLogin] at hrows
  obtain ⟨hlogins, rfl⟩ := Prod.mk.inj (Except.ok.inj hrows)
  have hlogins : logins d user contactType = rows := hlogins
  rw [hlogins]
  rcases rows with _ | ⟨⟨id, row⟩, _ | ⟨second, rest⟩⟩
  · cases hrest
    exact Or.inl ⟨rfl, rfl⟩
  · obtain ⟨_, pending', hreserve, hwrite⟩ := Tx.alone_bind_eq_ok hrest
    obtain ⟨hfree, heq⟩ := alone_reserve hreserve
    cases heq
    cases hwrite
    exact Or.inr ⟨id, row, rfl, by simpa using hfree, rfl⟩
  · cases hrest

/-- The request that one more code is presented for. -/
structure Presents (d : Db) (args : ProofArgs) (row : ContactChangeRequest) : Prop where
  stored : d.contactChanges.get args.requestId = some row
  owner : row.userId = args.userId
  pending : row.state = .pending
  open_ : args.now < row.expiresAt
  code : expectedHash row args.proof = args.codeHash

/-- What presenting a code does: nothing, a note of the proof, or the change. -/
inductive Proving (d : Db) (args : ProofArgs) :
    Option ContactChangeRecord → (Db → Db) → Prop
  | refused : Proving d args none id
  | noted {row : ContactChangeRequest} {record : ContactChangeRecord} :
      Presents d args row →
      ((proved row args.proof args.now).oldVerifiedAt.isSome &&
        (proved row args.proof args.now).newVerifiedAt.isSome) = false →
      record = contactRecord args.requestId (proved row args.proof args.now) →
      Proving d args (some record) ((DbChange.proveContact args.requestId args.proof args.now).apply)
  | inactive {row : ContactChangeRequest} :
      Presents d args row →
      Proving d args none ((DbChange.proveContact args.requestId args.proof args.now).apply)
  | applied {row : ContactChangeRequest} {user : User} {change : Db → Db} :
      Presents d args row →
      (proved row args.proof args.now).oldVerifiedAt.isSome = true →
      (proved row args.proof args.now).newVerifiedAt.isSome = true →
      d.users.get args.userId = some user → user.state = .active →
      (applyContactChange args row user (d.userView args.userId)).alone d
        (DbChange.proveContact args.requestId args.proof args.now).apply = .ok ((), change) →
      Proving d args (some (contactRecord args.requestId
        { proved row args.proof args.now with state := .applied, appliedAt := some args.now }))
        change

theorem proving_of_alone {args : ProofArgs} {result : Option ContactChangeRecord}
    {change : Db → Db} (h : (proveContactChange args).alone d id = .ok (result, change)) :
    Proving d args result change := by
  rw [proveContactChange_alone] at h
  cases hget : d.contactChanges.get args.requestId with
  | none =>
      rw [hget] at h
      cases h
      exact .refused
  | some row =>
      rw [hget] at h
      dsimp only at h
      split at h
      · cases h
        exact .refused
      · rename_i hopen
        split at h
        · cases h
          exact .refused
        · rename_i hcode
          simp only [ne_eq, Bool.or_eq_true, decide_eq_true_eq, not_or, not_not, not_le] at hopen
          have hpresents : Presents d args row :=
            ⟨hget, hopen.1.1, hopen.1.2, hopen.2, not_not.mp hcode⟩
          obtain ⟨_, pending, hnote, hrest⟩ := Tx.alone_bind_eq_ok h
          cases hnote
          split at hrest
          · rename_i hboth
            simp only [Bool.and_eq_true] at hboth
            rw [applyProved_alone] at hrest
            cases huser : (d.users.get args.userId).filter (·.state == .active) with
            | none =>
                rw [huser] at hrest
                cases hrest
                exact .inactive hpresents
            | some user =>
                rw [huser] at hrest
                obtain ⟨_, pending, happly, hend⟩ := Tx.alone_bind_eq_ok hrest
                cases hend
                rw [Option.filter_eq_some_iff] at huser
                exact .applied hpresents hboth.1 hboth.2 huser.1 (by simpa using huser.2) happly
          · rename_i hone
            cases hrest
            exact .noted hpresents (by simpa using hone) rfl

/-- How the login of a user follows its contact. -/
inductive Follows (d : Db) (user : Uuid) (contactType : ContactType) (value : String) :
    (Db → Db) → Prop
  | none : logins d user contactType = [] → Follows d user contactType value id
  | one {id : Uuid} {x : Identity} :
      logins d user contactType = [(id, x)] →
      (∀ k ∈ (IndexKey.identity (contactProvider contactType) value).entries d, k = id) →
      Follows d user contactType value (DbChange.setSubject id x value).apply

/-- The writes of an applied contact change. -/
theorem alone_applyContactChange {args : ProofArgs} {row : ContactChangeRequest} {user : User}
    {pending change : Db → Db}
    (h : (applyContactChange args row user (d.userView args.userId)).alone d pending =
      .ok ((), change)) :
    (∀ k ∈ (DbChange.contactKey row.contactType row.newValue).entries d, k = args.userId) ∧
      ∃ follow, Follows d args.userId row.contactType row.newValue follow ∧
        change = (DbChange.addAudit ⟨some args.userId, some args.userId, none,
            "CONTACT_CHANGE_COMPLETED", "success"⟩).apply ∘
          (DbChange.closeContactChange args.userId args.requestId .applied (some args.now)).apply ∘
          follow ∘ (DbChange.setContact args.userId row.contactType
            (DbChange.contactOf user row.contactType) row.newValue).apply ∘ pending := by
  obtain ⟨_, p₁, hreserve, hrest₁⟩ := Tx.alone_bind_eq_ok h
  obtain ⟨hfree, heq⟩ := alone_reserve hreserve
  cases heq
  obtain ⟨_, p₂, hset, hrest₂⟩ := Tx.alone_bind_eq_ok hrest₁
  cases hset
  obtain ⟨_, p₃, hmove, hrest₃⟩ := Tx.alone_bind_eq_ok hrest₂
  cases hrest₃
  refine ⟨by simpa using hfree, ?_⟩
  rcases alone_moveLogin hmove with ⟨hnone, heq⟩ | ⟨id, x, hone, hentries, heq⟩
  · dsimp only at heq
    subst heq
    exact ⟨_, .none hnone, rfl⟩
  · dsimp only at heq
    subst heq
    exact ⟨_, .one hone hentries, rfl⟩

theorem get_setContact {id k : Uuid} {contactType : ContactType} {old : Option String}
    {new : String} :
    ((DbChange.setContact id contactType old new).apply d).users.get k =
      (d.users.get k).map fun row =>
        if k = id ∧ DbChange.contactOf row contactType = old then moved contactType new row
        else row := by
  change (d.users.update _ _).get k = _
  rw [Table.get_update]
  simp [moved]

theorem Follows.users {user : Uuid} {contactType : ContactType} {value : String}
    {follow : Db → Db} (h : Follows d user contactType value follow) (d' : Db) :
    (follow d').users = d'.users := by
  cases h with
  | none _ => rfl
  | one _ _ => rfl

/-- Where the identities are those of `d`, the logins with the contact are moved
and no others. -/
theorem Follows.identities {user : Uuid} {contactType : ContactType} {value : String}
    {follow : Db → Db} (h : Follows d user contactType value follow) (d' : Db)
    (hsame : d'.identities = d.identities) (k : Uuid) :
    (follow d').identities.get k = (d.identities.get k).map fun x =>
      if isLogin user contactType x then { x with providerSubject := value } else x := by
  cases h with
  | none hnone =>
      change d'.identities.get k = _
      rw [hsame]
      cases hget : d.identities.get k with
      | none => rfl
      | some x =>
          have hnot : ¬isLogin user contactType x = true := by
            intro hlogin
            have hmem := mem_logins.mpr ⟨hget, hlogin⟩
            rw [hnone] at hmem
            cases hmem
          simp [hnot]
  | @one id y hone _ =>
      have hy := mem_logins.mp (hone ▸ List.mem_singleton_self (id, y))
      change (d'.identities.update _ _).get k = _
      rw [hsame, Table.get_update]
      cases hget : d.identities.get k with
      | none => rfl
      | some x =>
          by_cases hlogin : isLogin user contactType x = true
          · have hmem := mem_logins.mpr ⟨hget, hlogin⟩
            rw [hone, List.mem_singleton] at hmem
            cases hmem
            simp [hlogin]
          · have hne : k ≠ id := by
              rintro rfl
              rw [hget] at hy
              cases hy.1
              exact hlogin hy.2
            simp [hlogin, hne]

theorem step_contactVerified {args : ProofArgs} {result : Option ContactChangeRecord}
    (h : (Event.recovery (.contactVerified args result)).Agrees m) :
    AccountStep u (m.db.account u) (.recovery (.contactVerified args result))
      (((Event.recovery (.contactVerified args result)).change m.db).account u) := by
  obtain ⟨change, halone, hchange⟩ := h.commits rfl
  rw [hchange]
  dsimp only at halone
  cases proving_of_alone halone with
  | refused => exact .same
  | noted _ _ _ => exact .same
  | inactive _ => exact .same
  | @applied row user _ hpresents _ _ huser hactive happly =>
      obtain ⟨_, follow, hfollow, rfl⟩ := alone_applyContactChange happly
      have hrows : ∀ k, ((follow ((DbChange.setContact args.userId row.contactType
          (DbChange.contactOf user row.contactType) row.newValue).apply
            ((DbChange.proveContact args.requestId args.proof args.now).apply m.db))).users).get k =
          (m.db.users.get k).map fun r =>
            if k = args.userId ∧ DbChange.contactOf r row.contactType =
              DbChange.contactOf user row.contactType then moved row.contactType row.newValue r
            else r := by
        intro k
        rw [hfollow.users]
        exact get_setContact
      have hids := fun k => hfollow.identities ((DbChange.setContact args.userId
        row.contactType (DbChange.contactOf user row.contactType) row.newValue).apply
          ((DbChange.proveContact args.requestId args.proof args.now).apply m.db)) rfl k
      change AccountStep _ _ _ ((follow ((DbChange.setContact args.userId row.contactType
          (DbChange.contactOf user row.contactType) row.newValue).apply
            ((DbChange.proveContact args.requestId args.proof args.now).apply m.db))).account u)
      by_cases hu : u = args.userId
      · subst hu
        refine @AccountStep.contact _ _ args _ _ user row.contactType row.newValue rfl huser
          hactive ?_ ?_
        · change (Db.users _).get args.userId = _
          rw [hrows, huser]
          simp
        · intro id x' hx'
          change ((Db.identities _).get id).filter _ = some x' at hx'
          rw [hids, Option.filter_eq_some_iff] at hx'
          obtain ⟨hmap, hmine⟩ := hx'
          obtain ⟨x, hget, hx⟩ := Option.map_eq_some_iff.mp hmap
          have hlocal : (x.userId == args.userId && x.isLocal) = true := by
            rw [← hx] at hmine
            split at hmine
            · exact hmine
            · exact hmine
          refine ⟨x, ?_, ?_⟩
          · change (m.db.identities.get id).filter _ = some x
            rw [hget, Option.filter_some, if_pos hlocal]
          · simp only [Bool.and_eq_true, beq_iff_eq] at hlocal
            by_cases hprovider : x.provider = contactProvider row.contactType
            · rw [if_pos (by simp [isLogin, hlocal.1, hprovider])] at hx
              exact Or.inl ⟨hprovider, hx.symm⟩
            · rw [if_neg (by simp [isLogin, hprovider])] at hx
              exact Or.inr ⟨hprovider, hx.symm⟩
      · refine .of_eq (account_eq ?_ fun id => ?_)
        · rw [hrows]
          simp [hu]
        · change ((Db.identities _).get id).filter _ = (m.db.identities.get id).filter _
          rw [hids]
          cases m.db.identities.get id with
          | none => rfl
          | some x =>
              simp only [Option.map_some, Option.filter_some]
              by_cases hlogin : isLogin args.userId row.contactType x = true
              · have hother : ¬x.userId = u := by
                  simp only [isLogin, Bool.and_eq_true, beq_iff_eq] at hlogin
                  rw [hlogin.1]
                  exact Ne.symm hu
                simp [hlogin, hother]
              · simp [hlogin]

/-- The users are those of `d`, and identities of one user may be gone. -/
structure OnlyDeleted (user : Uuid) (d d' : Db) : Prop where
  users : d'.users = d.users
  identities : ∀ id, d'.identities.get id = d.identities.get id ∨
    ∃ x, d.identities.get id = some x ∧ x.userId = user ∧ d'.identities.get id = none

theorem OnlyDeleted.of_eq {user : Uuid} {d' : Db} (husers : d'.users = d.users)
    (hidentities : d'.identities = d.identities) : OnlyDeleted user d d' where
  users := husers
  identities id := by
    rw [hidentities]
    exact Or.inl rfl

theorem OnlyDeleted.trans {user : Uuid} {d' d'' : Db} (h : OnlyDeleted user d d')
    (h' : OnlyDeleted user d' d'') : OnlyDeleted user d d'' where
  users := h'.users.trans h.users
  identities id := by
    rcases h.identities id with hsame | ⟨x, hget, huser, hnone⟩
    · rcases h'.identities id with hsame' | ⟨x, hget, huser, hnone⟩
      · exact Or.inl (hsame'.trans hsame)
      · exact Or.inr ⟨x, hsame ▸ hget, huser, hnone⟩
    · rcases h'.identities id with hsame' | ⟨y, hget', _, _⟩
      · exact Or.inr ⟨x, hget, huser, hsame'.trans hnone⟩
      · rw [hnone] at hget'
        cases hget'

theorem onlyDeleted_of_steps {user : Uuid} {d' : Db}
    (h : Relation.ReflTransGen (OnlyDeleted user) d d') : OnlyDeleted user d d' := by
  induction h with
  | refl => exact .of_eq rfl rfl
  | tail _ hstep ih => exact ih.trans hstep

theorem onlyDeleted_deleteIdentity {user id : Uuid} {row : Identity} (huser : row.userId = user) :
    OnlyDeleted user d ((DbChange.deleteIdentity id row).apply d) where
  users := rfl
  identities k := by
    change (d.identities.delete _).get k = _ ∨ ∃ x, _ ∧ _ ∧ (d.identities.delete _).get k = none
    rw [Table.get_delete]
    cases hget : d.identities.get k with
    | none => exact Or.inl rfl
    | some x =>
        rw [Option.filter_some]
        split
        · exact Or.inl rfl
        · rename_i hdeleted
          simp only [Bool.not_eq_true', Bool.and_eq_false_iff, not_or, Bool.not_eq_false,
            beq_iff_eq] at hdeleted
          exact Or.inr ⟨x, rfl, hdeleted.1.1.2.trans huser, rfl⟩

theorem erasing_onlyDeleted (user : Uuid) : ErasingRequests (OnlyDeleted user) user :=
  ⟨fun _ _ => .of_eq rfl rfl, fun _ _ _ _ => .of_eq rfl rfl, fun _ _ => .of_eq rfl rfl,
    fun _ _ _ _ => .of_eq rfl rfl⟩

/-- An erasure deletes identities of its user and then anonymizes the row. -/
theorem alone_erased {args : ErasureArgs} {email : Option String} {found : ErasureFound}
    {change : Db → Db} (h : (eraseWrites args email found).alone d id = .ok ((), change)) :
    ∃ pending : Db → Db, OnlyDeleted args.userId d (pending d) ∧
      (change d).users = ((DbChange.anonymizeUser args.userId email found.requests.phone
        args.now).apply (pending d)).users ∧
      (change d).identities = (pending d).identities := by
  have hpart : ∀ {body : Trans Unit} {p : Db → Db} {r : Unit × (Db → Db)},
      body.Guarantees (OnlyDeleted args.userId) → body.alone d p = .ok r →
      OnlyDeleted args.userId (p d) (r.2 d) :=
    fun hbody halone => onlyDeleted_of_steps (hbody.alone halone d)
  have hstaff : (write (DbChange.deleteStaffRoles args.userId)).Guarantees
      (OnlyDeleted args.userId) := guarantees_write fun _ => .of_eq rfl rfl
  unfold eraseWrites at h
  obtain ⟨_, p₀, h₀, h⟩ := Tx.alone_bind_eq_ok h
  obtain ⟨_, p₁, h₁, h⟩ := Tx.alone_bind_eq_ok h
  obtain ⟨_, p₂, h₂, h⟩ := Tx.alone_bind_eq_ok h
  obtain ⟨_, p₃, h₃, h⟩ := Tx.alone_bind_eq_ok h
  obtain ⟨_, p₄, h₄, h⟩ := Tx.alone_bind_eq_ok h
  obtain ⟨_, p₅, h₅, h⟩ := Tx.alone_bind_eq_ok h
  obtain ⟨_, p₆, h₆, h⟩ := Tx.alone_bind_eq_ok h
  obtain ⟨_, p₇, h₇, h⟩ := Tx.alone_bind_eq_ok h
  obtain ⟨_, p₈, h₈, h⟩ := Tx.alone_bind_eq_ok h
  obtain ⟨_, p₉, h₉, hfinish⟩ := Tx.alone_bind_eq_ok h
  cases hfinish
  refine ⟨p₉, ?_, rfl, rfl⟩
  have hrequests := hpart (guarantees_eraseRequestWrites (erasing_onlyDeleted args.userId) _) h₀
  have hfactors := hpart
    (Tx.guarantees_each (guarantees_deleteFactor fun _ _ _ => .of_eq rfl rfl) _) h₁
  have hdevices := hpart
    (Tx.guarantees_each (guarantees_deleteDevice fun _ _ _ _ => .of_eq rfl rfl) _) h₂
  have hbindings := hpart
    (Tx.guarantees_each (guarantees_deleteBinding fun _ _ _ _ => .of_eq rfl rfl) _) h₄
  have hidentities := hpart
    (Tx.guarantees_each (guarantees_deleteIdentity fun _ _ _ hrow =>
      onlyDeleted_deleteIdentity hrow) _) h₅
  have hfamilies := hpart
    (Tx.guarantees_each (guarantees_deleteFamily fun _ _ _ => .of_eq rfl rfl) _) h₆
  have hreferrals : (PrivacyRepository.eraseReferrals args.userId args.pseudonym).Guarantees
      (OnlyDeleted args.userId) := ⟨fun _ => .of_eq rfl rfl, fun _ => .of_eq rfl rfl, trivial⟩
  have hinvitations := hpart
    (Tx.guarantees_each (guarantees_withdrawInvitation (fun _ _ _ => .of_eq rfl rfl) _ _) _) h₈
  have hworkspaces := hpart
    (Tx.guarantees_each (guarantees_closePersonal (fun _ _ _ => .of_eq rfl rfl) _) _) h₉
  exact (((((((((hrequests.trans hfactors).trans hdevices).trans (hpart hstaff h₃)).trans
    hbindings).trans hidentities).trans hfamilies).trans (hpart hreferrals h₇)).trans
    hinvitations).trans hworkspaces)

theorem step_erased {args : ErasureArgs} {email : Option String} {found : ErasureFound}
    {result : Option PrivacyRequestRecord}
    (h : (Event.account (.erased args (.erased email found) result)).Agrees m) :
    AccountStep u (m.db.account u) (.account (.erased args (.erased email found) result))
      (((Event.account (.erased args (.erased email found) result)).change m.db).account u) := by
  obtain ⟨row, hrow, hemail, hphone⟩ := h.tells
  obtain ⟨change, halone, hchange⟩ := h.commits rfl
  rw [hchange]
  obtain ⟨pending, honly, husers, hidentities⟩ := alone_erased halone
  have hget : ∀ k, (change m.db).users.get k = (m.db.users.get k).map fun r =>
      if k = args.userId ∧ r.email = email ∧ r.phoneE164 = found.requests.phone then
        anonymized args.now r
      else r := by
    intro k
    rw [husers]
    change ((pending m.db).users.update _ _).get k = _
    rw [Table.get_update, honly.users]
    simp [anonymized, and_assoc]
  have hlogin : ∀ id x, ((change m.db).account u).login id = some x →
      (m.db.account u).login id = some x := by
    intro id x hx
    change ((change m.db).identities.get id).filter _ = some x at hx
    rw [hidentities] at hx
    rcases honly.identities id with hsame | ⟨_, _, _, hnone⟩
    · rwa [hsame] at hx
    · rw [hnone] at hx
      cases hx
  by_cases hu : u = args.userId
  · subst hu
    refine .erased rfl hrow ?_ hlogin
    change (change m.db).users.get args.userId = _
    rw [hget, hrow]
    simp [hemail, hphone]
  · refine .of_eq (account_eq ?_ fun id => ?_)
    · rw [hget]
      simp [hu]
    · change ((change m.db).identities.get id).filter _ = (m.db.identities.get id).filter _
      rw [hidentities]
      rcases honly.identities id with hsame | ⟨x, hx, huser, hnone⟩
      · rw [hsame]
      · rw [hnone, hx]
        simp [Option.filter_some, huser, Ne.symm hu]

/-- A new user comes with one identity of its own. -/
theorem AccountStep.of_created {e : Event} {new identity : Uuid} {row : User} {x : Identity}
    {d' : Db} (hcreates : e.creates = true) (hnone : d.users.get new = none)
    (howner : x.userId = new) (hlive : row.anonymizedAt = none) (hstep : InStep row x)
    (husers : d'.users = d.users.add new row)
    (hidentities : d'.identities = d.identities.add identity x) :
    AccountStep u (d.account u) e (d'.account u) := by
  have hlogin : ∀ id, (d'.account u).login id =
      ((d.identities.get id).or (if id = identity then some x else none)).filter
        fun x => x.userId == u && x.isLocal := by
    intro id
    change (d'.identities.get id).filter _ = _
    rw [hidentities, Table.get_add]
  have hrow : (d'.account u).row = if u = new then some row else d.users.get u := by
    change d'.users.get u = _
    rw [husers, Table.get_add_of_new hnone]
  by_cases hu : u = new
  · refine @AccountStep.created _ _ _ _ row identity hcreates (hu ▸ hnone)
      (by rw [hrow, if_pos hu]) hlive ?_
    intro id y hy
    rw [hlogin, Option.filter_eq_some_iff] at hy
    obtain ⟨hor, hmine⟩ := hy
    cases hget : d.identities.get id with
    | some z =>
        rw [hget] at hor
        cases hor
        refine Or.inl ?_
        change (d.identities.get id).filter _ = some y
        rw [hget, Option.filter_some, if_pos hmine]
    | none =>
        rw [hget] at hor
        simp only [Option.none_or, Option.ite_none_right_eq_some] at hor
        cases hor.2
        exact Or.inr ⟨hor.1, hstep⟩
  · refine .of_eq (Account.ext ?_ (funext fun id => ?_))
    · rw [hrow, if_neg hu]
      rfl
    · rw [hlogin]
      change _ = (d.identities.get id).filter _
      cases d.identities.get id with
      | some z => rfl
      | none =>
          by_cases hid : id = identity
          · simp [hid, howner, Ne.symm hu]
          · simp [hid]

theorem step_emailRegistered {args : EmailArgs}
    (h : (Event.recovery (.emailRegistered args)).Agrees m) :
    AccountStep u (m.db.account u) (.recovery (.emailRegistered args))
      (((Event.recovery (.emailRegistered args)).change m.db).account u) := by
  obtain ⟨change, halone, hchange⟩ := h.commits rfl
  rw [hchange]
  obtain ⟨⟨hnone, _, _, _⟩, rfl⟩ := alone_insertEmailAccount halone
  refine .of_created rfl hnone rfl rfl ?_ rfl rfl
  intro contactType hprovider
  cases contactType with
  | email => rfl
  | phone => cases hprovider

theorem step_phoneRegistered {args : PhoneArgs}
    (h : (Event.recovery (.phoneRegistered args)).Agrees m) :
    AccountStep u (m.db.account u) (.recovery (.phoneRegistered args))
      (((Event.recovery (.phoneRegistered args)).change m.db).account u) := by
  obtain ⟨change, halone, hchange⟩ := h.commits rfl
  rw [hchange]
  obtain ⟨_, p₁, hnew, h₁⟩ := Tx.alone_bind_eq_ok halone
  obtain ⟨hnone, heq⟩ := alone_newUser hnew
  cases heq
  obtain ⟨_, p₂, hphone, h₂⟩ := Tx.alone_bind_eq_ok h₁
  cases (alone_reserve hphone).2
  obtain ⟨_, p₃, huser, h₃⟩ := Tx.alone_bind_eq_ok h₂
  cases huser
  obtain ⟨_, p₄, hworkspace, h₄⟩ := Tx.alone_bind_eq_ok h₃
  cases hworkspace
  obtain ⟨_, p₅, hsubject, h₅⟩ := Tx.alone_bind_eq_ok h₄
  cases (alone_reserve hsubject).2
  cases h₅
  refine .of_created rfl hnone rfl rfl ?_ rfl rfl
  intro contactType hprovider
  cases contactType with
  | email => cases hprovider
  | phone => rfl

theorem contactProvider_not_oidc (contactType : ContactType) :
    LoginControl.isOidc (contactProvider contactType) = false := by
  cases contactType with
  | email => rfl
  | phone => rfl

theorem step_provisioned {args : ProvisionArgs} {result : LoginIdentity}
    (h : (Event.login (.provisioned args result)).Agrees m)
    (hoidc : LoginControl.isOidc args.profile.provider = true) :
    AccountStep u (m.db.account u) (.login (.provisioned args result))
      (((Event.login (.provisioned args result)).change m.db).account u) := by
  obtain ⟨change, halone, hchange⟩ := h.commits rfl
  rw [hchange]
  obtain ⟨_, p₁, hnew, h₁⟩ := Tx.alone_bind_eq_ok halone
  obtain ⟨hnone, heq⟩ := alone_newUser hnew
  cases heq
  obtain ⟨_, p₂, hemail, h₂⟩ := Tx.alone_bind_eq_ok h₁
  cases (alone_reserve hemail).2
  obtain ⟨_, p₃, huser, h₃⟩ := Tx.alone_bind_eq_ok h₂
  cases huser
  obtain ⟨_, p₄, hworkspace, h₄⟩ := Tx.alone_bind_eq_ok h₃
  cases hworkspace
  obtain ⟨_, p₅, hsubject, h₅⟩ := Tx.alone_bind_eq_ok h₄
  cases (alone_reserve hsubject).2
  cases h₅
  refine .of_created rfl hnone rfl rfl ?_ rfl rfl
  intro contactType hprovider
  dsimp only at hprovider
  rw [hprovider, contactProvider_not_oidc] at hoidc
  cases hoidc

theorem account_addIdentity {id : Uuid} {x : Identity} (h : x.isLocal = false) :
    ((DbChange.addIdentity id x).apply d).account u = d.account u := by
  refine account_eq rfl fun k => ?_
  change ((d.identities.add id x).get k).filter _ = (d.identities.get k).filter _
  rw [Table.get_add]
  cases d.identities.get k with
  | some z => rfl
  | none =>
      by_cases hk : k = id
      · simp [hk, h]
      · simp [hk]

theorem step_mfa {event : MFAEvent}
    (hlink : ∀ owner provider subject id, event = .linked owner provider subject id →
      LoginControl.isOidc provider = true) :
    AccountStep u (m.db.account u) (.mfa event) (((Event.mfa event).change m.db).account u) := by
  refine .of_keeps fun commit hcommit => event.guarantees ?_ ?_ hcommit
  · exact ⟨fun _ _ _ _ => rfl, fun _ _ _ _ => rfl, fun _ _ _ => rfl, fun _ _ _ => rfl⟩
  · intro owner provider subject id heq d
    have hoidc := hlink owner provider subject id heq
    refine account_addIdentity ?_
    cases provider with
    | password => cases hoidc
    | phone => cases hoidc
    | _ => rfl

theorem step_account {event : AccountEvent} (h : (Event.account event).Agrees m) :
    AccountStep u (m.db.account u) (.account event)
      (((Event.account event).change m.db).account u) := by
  by_cases hplain : (∀ target actor result, event ≠ .suspended target actor result) ∧
      ∀ args email found result, event ≠ .erased args (.erased email found) result
  · refine .of_keeps fun commit hcommit => ?_
    change event.commit = some commit at hcommit
    unfold AccountEvent.commit at hcommit
    split at hcommit
    · exact absurd rfl (hplain.1 _ _ _)
    · cases hcommit
      exact (guarantees_reserve _ _ _).bind fun _ => ⟨fun _ => rfl, fun _ => rfl, trivial⟩
    · cases hcommit
      exact ⟨fun _ => rfl, trivial⟩
    · exact absurd rfl (hplain.2 _ _ _ _)
    · cases hcommit
      refine (guarantees_lockRow _ _).bind fun row => ?_
      split
      · trivial
      · split
        · exact ⟨fun _ => rfl, trivial⟩
        · trivial
    · cases hcommit
      exact (guarantees_reserve _ _ _).bind fun _ => ⟨fun _ => rfl, fun _ => rfl, trivial⟩
    · cases hcommit
      refine (guarantees_lockRow _ _).bind fun row => ?_
      split
      · trivial
      · split
        · exact (guarantees_reserve _ _ _).bind fun _ =>
            ⟨fun _ => rfl, fun _ => rfl, fun _ => rfl, trivial⟩
        · trivial
    · cases hcommit
      refine (guarantees_lockRow _ _).bind fun row => ?_
      split
      · trivial
      · split
        · exact ⟨fun _ => rfl, trivial⟩
        · trivial
    · cases hcommit
  · simp only [not_and_or, not_forall, ne_eq, not_not] at hplain
    rcases hplain with ⟨target, actor, result, rfl⟩ | ⟨args, email, found, result, rfl⟩
    · exact step_suspended h
    · exact step_erased h

theorem step_login {event : LoginEvent} (h : (Event.login event).Agrees m)
    (hprovision : ∀ args result, event = .provisioned args result →
      LoginControl.isOidc args.profile.provider = true) :
    AccountStep u (m.db.account u) (.login event)
      (((Event.login event).change m.db).account u) := by
  cases event with
  | signalled args found result =>
      refine .of_keeps fun commit hcommit => ?_
      cases hcommit
      exact guarantees_noteDevice (fun _ _ _ => rfl) (fun _ _ => rfl) found
  | passwordUpdated user hash found => exact step_passwordUpdated h
  | provisioned args result => exact step_provisioned h (hprovision args result rfl)
  | _ => exact .same

theorem step_recovery {event : RecoveryEvent} (h : (Event.recovery event).Agrees m) :
    AccountStep u (m.db.account u) (.recovery event)
      (((Event.recovery event).change m.db).account u) := by
  cases event with
  | emailRegistered args => exact step_emailRegistered h
  | phoneRegistered args => exact step_phoneRegistered h
  | mailed args found =>
      refine .of_keeps fun commit hcommit => ?_
      cases hcommit
      refine (Tx.guarantees_each (guarantees_useUp fun _ _ => rfl) _).bind fun _ => ?_
      exact (guarantees_reserve _ _ _).bind fun _ => ⟨fun _ => rfl, fun _ => rfl, trivial⟩
  | emailVerified hash now found result => exact step_emailVerified h
  | phoneVerified user result => exact step_phoneVerified h
  | passwordReset args found result =>
      obtain ⟨outcome, user⟩ := result
      cases outcome with
      | updated => exact step_passwordReset h
      | invalid => exact .same
      | reused => exact .same
  | contactStarted args result =>
      refine .of_keeps fun commit hcommit => ?_
      cases hcommit
      refine (guarantees_lockRow _ _).bind fun view => ?_
      unfold startLocked
      split
      · trivial
      · refine (Tx.guarantees_each (guarantees_cancelContactChange fun _ _ _ => rfl) _).bind
          fun _ => ?_
        exact ⟨fun _ => rfl, fun _ => rfl, trivial⟩
  | contactVerified args result => exact step_contactVerified h
  | unlocked target actor result => exact step_unlocked h
  | resetInitiated args user result =>
      refine .of_keeps fun commit hcommit => ?_
      cases hcommit
      unfold initiateWith
      split
      · trivial
      · refine (guarantees_lockRow _ _).bind fun taken => ?_
        split
        · trivial
        · exact ⟨fun _ => rfl, fun _ => rfl, trivial⟩
  | resetApproved args result =>
      refine .of_keeps fun commit hcommit => ?_
      cases hcommit
      refine (guarantees_lockRow _ _).bind fun request => ?_
      unfold approveLocked
      split
      · trivial
      · split
        · trivial
        · split
          · trivial
          · exact ⟨fun _ => rfl, fun _ => rfl, trivial⟩
  | resetExecuted args found result => exact step_executed h
  | _ => exact .same

end Steps

/-- Whatever an event of a run does to an account is one of the steps. -/
theorem account_change {env : Env} {c m : Core Db World} (hinit : Initial c)
    (h : History env c m) {i : Nat} {e : Event}
    (hfollows : e.Follows env i (trace i m.store.log)) (hagrees : e.Agrees m) (u : Uuid) :
    AccountStep u (m.db.account u) e ((e.change m.db).account u) := by
  cases e with
  | session event =>
      exact .of_outside (fun commit hcommit => event.keeps hcommit) fun _ => rfl
  | workspace event =>
      by_cases hstays : ∀ args departure result, event ≠ .offboarded args departure result
      · exact .of_outside (fun commit hcommit => event.keeps hcommit hstays) fun _ => rfl
      · simp only [not_forall, ne_eq, not_not] at hstays
        obtain ⟨args, departure, result, rfl⟩ := hstays
        refine .of_outside (π := fun d => { d with bindings := ∅, sessions := ∅, audit := [] })
          (fun commit hcommit => ?_) fun _ => rfl
        cases departure with
        | none => cases hcommit
        | some departure =>
            cases result with
            | none => cases hcommit
            | some result =>
                cases hcommit
                exact keeps_offboardWrites args departure
  | account event => exact step_account hagrees
  | login event =>
      refine step_login hagrees fun args result heq => ?_
      subst heq
      exact hfollows
  | mfa event =>
      refine step_mfa fun owner provider subject id heq => ?_
      subst heq
      exact linked_social h hinit.log hinit.cache hfollows
  | recovery event => exact step_recovery hagrees
  | audited entry =>
      refine .of_keeps fun commit hcommit => ?_
      cases hcommit
      exact guarantees_write fun _ => rfl
  | _ => exact .same

end AuthCore
