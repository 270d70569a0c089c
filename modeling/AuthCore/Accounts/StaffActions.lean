/-
What staff do to an account, and what is left when it is refused.
-/
import AuthCore.Accounts.InTurn
import AuthCore.Accounts.Standing

namespace AuthCore

open Interleave RecoveryRepository SupportAdminControl

/-- The actions of staff on an account or on a governed request. -/
inductive StaffAction where
  | unlock (target : Uuid)
  | suspend (target : Uuid)
  | supportRecovery (target : Uuid)
  | initiateMfaReset (target : Uuid) (ticketReference : String)
  | approveMfaReset (request : Uuid)
  | executeMfaReset (request : Uuid)

def StaffAction.run (env : Env) (me : Nat) (claims : AccessClaims) : StaffAction → Proc Result
  | unlock target => SupportAdminControl.unlock claims target
  | suspend target => SupportAdminControl.suspend claims target
  | supportRecovery target => SupportAdminControl.supportRecovery env me claims target
  | initiateMfaReset target ticket =>
      SupportAdminControl.initiateMfaReset me claims target ticket
  | approveMfaReset request => SupportAdminControl.approveMfaReset claims request
  | executeMfaReset request => SupportAdminControl.executeMfaReset claims request

/-- The codes that refuse a staff action. -/
def refusals : List RecoveryErrorCode :=
  [.staffForbidden, .recentMfaRequired, .targetNotFound, .governedInvalid, .fourEyesRequired,
    .governedTooEarly]

def AuthError.refuses : AuthError → Bool
  | .recovery code _ _ => refusals.contains code
  | _ => false

/-- A recovery by support for an account that has no address: it can be unlocked,
but no link can be sent. -/
def HalfDone (claims : AccessClaims) (action : StaffAction) (d : Db) : Prop :=
  ∃ target row, action = .supportRecovery target ∧ recentMfa claims = true ∧
    RecoveryRepository.staffHasRole claims.userId .supportAgentL2 d = true ∧
    d.users.get target = some row ∧ (row.state = .active ∨ row.state = .locked) ∧
    row.email = none

/-- An account and the governed requests are as they were. -/
structure TargetSame (target : Uuid) (d d' : Db) : Prop where
  row : (d'.users.get target).map (fun row => (row.state, row.version)) =
    (d.users.get target).map fun row => (row.state, row.version)
  sessions : (d'.sessions.select fun _ row => row.userId == target) =
    d.sessions.select fun _ row => row.userId == target
  factors : (d'.mfaDevices.select fun _ row => row.userId == target) =
    d.mfaDevices.select fun _ row => row.userId == target
  tokens : (d'.ephemeral.select fun _ row => row.userId == target) =
    d.ephemeral.select fun _ row => row.userId == target
  governed : d'.governed = d.governed

theorem TargetSame.refl (target : Uuid) (d : Db) : TargetSame target d d :=
  ⟨rfl, rfl, rfl, rfl, rfl⟩

section Bodies

variable {d : Db} {change : Db → Db} {actor target : Uuid}

theorem alone_initiate_refused {args : InitiateArgs} {user : Option User}
    (h : (initiateWith args user).alone d id = .ok (none, change)) : change = id := by
  unfold initiateWith at h
  cases hrow : user.filter fun row => row.state == .active || row.state == .locked with
  | none =>
      rw [hrow] at h
      cases h
      rfl
  | some row =>
      rw [hrow] at h
      obtain ⟨taken, p, _, h⟩ := Tx.alone_bind_eq_ok h
      dsimp only at h
      split at h
      · cases h
      · cases h

theorem alone_approve_refused {args : GovernedArgs}
    (h : (approveWith (unchangedTarget args.requestId) args).alone d id = .ok (none, change)) :
    change = id := by
  change Tx.alone d id (approveLocked (unchangedTarget args.requestId) args
    (d.governed.get args.requestId)) = _ at h
  cases hget : d.governed.get args.requestId with
  | none =>
      rw [hget] at h
      cases h
      rfl
  | some row =>
      rw [hget, approveLocked] at h
      split at h
      · cases h
        rfl
      · split at h
        · cases h
        · obtain ⟨_, p, _, h⟩ := Tx.alone_bind_eq_ok h
          cases h

theorem alone_execute_refused {args : GovernedArgs} {found : List Uuid}
    (h : (executeWith ([], none) (executeFound args) args).alone d id =
      .ok ((found, none), change)) : change = id := by
  change Tx.alone d id (executeLocked ([], none) (executeFound args) args
    (d.governed.get args.requestId)) = _ at h
  cases hget : d.governed.get args.requestId with
  | none =>
      rw [hget] at h
      cases h
      rfl
  | some row =>
      rw [hget, executeLocked] at h
      split at h
      · cases h
        rfl
      · split at h
        · cases h
        · obtain ⟨view, p, _, h⟩ := Tx.alone_bind_eq_ok h
          cases huser : UserView.row view with
          | none =>
              rw [huser] at h
              cases h
          | some user =>
              rw [huser, executeTarget] at h
              split at h
              · obtain ⟨_, _, _, h⟩ := Tx.alone_bind_eq_ok h
                obtain ⟨_, _, hwrites, h⟩ := Tx.alone_bind_eq_ok h
                obtain ⟨_, _, _, hwrites⟩ := Tx.alone_bind_eq_ok hwrites
                cases hwrites
                cases h
              · cases h

end Bodies

section Actions

variable {env : Env} {me i : Nat} {claims : AccessClaims} {pass : World → Bool}
  {c : Core Db World} {α β : Type} {Q : Except AuthError α → Core Db World → Prop}

theorem leaves_transact {event : β → Event} {body : Trans β} {k : β → Proc α}
    (hok : ∀ b change x, body.alone c.db id = .ok (b, change) →
      Leaves i pass Q (k b) ⟨change c.db, x⟩)
    (herror : ∀ x, Q (.error .unhandled) ⟨c.db, x⟩) :
    Leaves i pass Q (transact event body >>= k) c :=
  Prog.leaves_commit hok fun _ x _ => Prog.leaves_raise (herror x)

theorem leaves_attempt {event : β → Event} {body : Trans β}
    {k : Except (Fault AuthError) β → Proc α}
    (hok : ∀ b change x, body.alone c.db id = .ok (b, change) →
      Leaves i pass Q (k (.ok b)) ⟨change c.db, x⟩)
    (herror : ∀ fault x, Leaves i pass Q (k (.error fault)) ⟨c.db, x⟩) :
    Leaves i pass Q (attempt event body >>= k) c :=
  Prog.leaves_commit hok fun fault x _ => herror fault x

/-- Without the second check or the role the action ends here. -/
theorem leaves_authorize {role : StaffRole} {k : Unit → Proc α}
    (herror : ¬(recentMfa claims = true ∧
      RecoveryRepository.staffHasRole claims.userId role c.db = true) →
        ∀ e x, Q (.error e) ⟨c.db, x⟩)
    (hok : recentMfa claims = true →
      RecoveryRepository.staffHasRole claims.userId role c.db = true →
        ∀ x, Leaves i pass Q (k ()) ⟨c.db, x⟩) :
    Leaves i pass Q (authorize claims role >>= k) c := by
  unfold authorize
  by_cases hmfa : recentMfa claims = true
  · rw [if_neg (not_not_intro hmfa), SupportAdminControl.staffHasRole, Prog.bind_assoc]
    refine leaves_look ?_
    by_cases hrole : RecoveryRepository.staffHasRole claims.userId role c.db = true
    · rw [if_pos hrole]
      exact hok hmfa hrole _
    · rw [if_neg hrole]
      exact leaves_fail (herror (fun h => hrole h.2) _ _)
  · rw [if_pos hmfa]
    exact leaves_fail (herror (fun h => hmfa h.1) _ c.store)

/-- If the call is refused it leaves the database at `d`. -/
def RefusedAt (d : Db) (result : Except AuthError Result) (c' : Core Db World) : Prop :=
  ∀ e, result = .error e → e.refuses = true → c'.db = d

variable {d : Db}

theorem refusedAt_same {result : Except AuthError Result} {x : World} :
    RefusedAt d result ⟨d, x⟩ :=
  fun _ _ _ => rfl

theorem leaves_of_raises {p : Proc Result} (h : p.Raises (AuthError.refuses · = false)) :
    Leaves i pass (RefusedAt d) p c := by
  intro result c' hsolo e he hrefuses
  subst he
  rw [h.solo hsolo] at hrefuses
  cases hrefuses

theorem raises_notify (recipient : String) :
    (RecoveryControl.notify recipient).Raises (AuthError.refuses · = false) := by
  intro delivered
  cases delivered with
  | true => trivial
  | false => exact rfl

theorem raises_notifyUser (user : RecoveryUser) :
    (notifyUser user).Raises (AuthError.refuses · = false) := by
  unfold notifyUser
  split
  · trivial
  · exact raises_notify _

theorem raises_revokeUserAccess (user : Uuid) (reason : String) :
    (SessionControl.revokeUserAccess user reason).Raises (AuthError.refuses · = false) := by
  intro now result
  cases result with
  | error fault => exact rfl
  | ok results =>
      refine fun _ => (Prog.raises_each (fun value => ?_) results.2).bind fun _ => trivial
      exact fun _ _ => trivial

theorem unlock_refused (target : Uuid) :
    Leaves i pass (RefusedAt c.db) (SupportAdminControl.unlock claims target) c := by
  refine leaves_authorize (fun _ e x => refusedAt_same) fun _ _ x => ?_
  refine leaves_transact (fun result change y halone => ?_) fun y => refusedAt_same
  rcases alone_unlock halone with ⟨rfl, rfl, _⟩ | ⟨_, user, _, _, rfl, _, _⟩
  · exact leaves_fail refusedAt_same
  · exact leaves_of_raises trivial

theorem suspend_refused (target : Uuid) :
    Leaves i pass (RefusedAt c.db) (SupportAdminControl.suspend claims target) c := by
  unfold SupportAdminControl.suspend
  split
  · exact leaves_fail refusedAt_same
  · refine leaves_look ?_
    split
    · exact leaves_fail refusedAt_same
    · refine leaves_transact (fun result change y halone => ?_) fun y => refusedAt_same
      cases result with
      | false =>
          rcases alone_suspend halone with ⟨_, rfl⟩ | ⟨hnot, _⟩
          · exact leaves_fail refusedAt_same
          · cases hnot
      | true =>
          exact leaves_of_raises ((raises_revokeUserAccess target _).bind fun _ => trivial)

theorem initiate_refused (target : Uuid) (ticket : String) : Leaves i pass (RefusedAt c.db)
    (SupportAdminControl.initiateMfaReset me claims target ticket) c := by
  refine leaves_authorize (fun _ e x => refusedAt_same) fun _ _ x => ?_
  refine leaves_clock fun now => ?_
  refine Prog.leaves_commit (fun b change y halone => ?_) fun _ y _ => leaves_fail refusedAt_same
  obtain ⟨user, p, hask, halone⟩ := Tx.alone_bind_eq_ok halone
  cases hask
  obtain ⟨result, q, hinitiate, hreturn⟩ := Tx.alone_bind_eq_ok halone
  cases hreturn
  cases result with
  | none =>
      obtain rfl := alone_initiate_refused hinitiate
      exact leaves_fail refusedAt_same
  | some record =>
      exact leaves_of_raises ((raises_notifyUser _).bind fun _ => trivial)

theorem approve_refused (request : Uuid) : Leaves i pass (RefusedAt c.db)
    (SupportAdminControl.approveMfaReset claims request) c := by
  refine leaves_authorize (fun _ e x => refusedAt_same) fun _ _ x => ?_
  refine leaves_clock fun now => ?_
  refine leaves_attempt (fun result change y halone => ?_) fun fault y => ?_
  · cases result with
    | none =>
        obtain rfl := alone_approve_refused halone
        exact leaves_fail refusedAt_same
    | some record => exact leaves_of_raises trivial
  · cases fault with
    | thrown error => exact leaves_fail refusedAt_same
    | deadlock => exact leaves_fail refusedAt_same
    | integrity => exact leaves_fail refusedAt_same

theorem execute_refused (request : Uuid) : Leaves i pass (RefusedAt c.db)
    (SupportAdminControl.executeMfaReset claims request) c := by
  refine leaves_authorize (fun _ e x => refusedAt_same) fun _ _ x => ?_
  refine leaves_clock fun now => ?_
  refine leaves_attempt (fun result change y halone => ?_) fun fault y => ?_
  · obtain ⟨found, result⟩ := result
    cases result with
    | none =>
        obtain rfl := alone_execute_refused halone
        exact leaves_fail refusedAt_same
    | some executed =>
        exact leaves_of_raises ((raises_revokeUserAccess _ _).bind fun _ =>
          (raises_notifyUser _).bind fun _ => trivial)
  · cases fault with
    | thrown error => exact leaves_fail refusedAt_same
    | deadlock => exact leaves_fail refusedAt_same
    | integrity => exact leaves_fail refusedAt_same

/-- If a recovery by support is refused, the account is as it was or it has been
unlocked, and the state before says which. -/
def RefusedHalfway (claims : AccessClaims) (target : Uuid) (d : Db)
    (result : Except AuthError Result) (c' : Core Db World) : Prop :=
  ∀ e, result = .error e → e.refuses = true →
    (c'.db = d ∧ ¬HalfDone claims (.supportRecovery target) d) ∨
      ∃ row, d.users.get target = some row ∧
        c'.db.users.get target = some (bumped .active row) ∧
        HalfDone claims (.supportRecovery target) d

theorem raises_issuePasswordReset {user : Uuid} {hash : Digest} {purpose : TokenPurpose}
    {expiresAt : Time} {actor : Option Uuid} {tokenId : Uuid} :
    (issuePasswordReset user hash purpose expiresAt actor tokenId).Raises
      (AuthError.refuses · = false) := by
  intro now result
  cases result with
  | ok found => trivial
  | error fault => exact rfl

theorem supportRecovery_refused (target : Uuid) :
    Leaves i pass (RefusedHalfway claims target c.db)
      (SupportAdminControl.supportRecovery env me claims target) c := by
  refine leaves_authorize (fun hnot e x => ?_) fun hmfa hrole x => ?_
  · refine fun _ _ _ => Or.inl ⟨rfl, ?_⟩
    rintro ⟨_, _, _, hmfa, hrole, _⟩
    exact hnot ⟨hmfa, hrole⟩
  · refine leaves_transact (fun result change y halone => ?_) fun y => ?_
    · rcases alone_unlock halone with ⟨rfl, rfl, hclosed⟩ |
        ⟨row, user, hrow, hopen, rfl, hemail, rfl⟩
      · refine leaves_fail fun _ _ _ => Or.inl ⟨rfl, ?_⟩
        rintro ⟨target', row, haction, _, _, hrow, hopen, _⟩
        cases haction
        rcases hopen with hstate | hstate
        · exact (hclosed row hrow).1 hstate
        · exact (hclosed row hrow).2 hstate
      · have hwritten : ((DbChange.bumpUser target fun _ => .active).apply c.db).users.get target =
            some (bumped .active row) := get_bumpUser_self hrow
        cases haddress : user.email with
        | none =>
            simp only [Option.bind_some, haddress]
            refine leaves_fail fun _ _ _ => Or.inr ⟨row, hrow, hwritten, target, row, rfl,
              hmfa, hrole, hrow, hopen, hemail.symm.trans haddress⟩
        | some address =>
            simp only [Option.bind_some, haddress]
            intro result' c' hsolo e he hrefuses
            subst he
            have hraises : e.refuses = false := by
              refine Prog.Raises.solo (P := (AuthError.refuses · = false)) ?_ hsolo
              intro now
              exact raises_issuePasswordReset.bind fun _ => (raises_notify _).bind fun _ => trivial
            rw [hraises] at hrefuses
            cases hrefuses
    · intro e he hrefuses
      cases he
      cases hrefuses

end Actions

/-- A refused staff action leaves accounts, sessions, factors, reset tokens and
governed requests as they were, except where support recovers an account
without an address. -/
theorem refused_staff_actions {env : Env} {me i : Nat} {claims : AccessClaims}
    {action : StaffAction} {pass : World → Bool} {c c' : Core Db World} {e : AuthError}
    (h : (action.run env me claims).solo i pass c = some (.error e, c'))
    (hrefuses : e.refuses = true) :
    (∀ target, TargetSame target c.db c'.db) ↔ ¬HalfDone claims action c.db := by
  have hsame : (∀ target, action ≠ .supportRecovery target) → c'.db = c.db →
      ((∀ target, TargetSame target c.db c'.db) ↔ ¬HalfDone claims action c.db) := by
    intro hother hdb
    refine ⟨fun _ ⟨target, _, haction, _⟩ => hother target haction, fun _ target => ?_⟩
    rw [hdb]
    exact .refl target c.db
  cases action with
  | unlock target =>
      exact hsame (fun _ => by simp) (unlock_refused target _ _ h e rfl hrefuses)
  | suspend target =>
      exact hsame (fun _ => by simp) (suspend_refused target _ _ h e rfl hrefuses)
  | initiateMfaReset target ticket =>
      exact hsame (fun _ => by simp) (initiate_refused target ticket _ _ h e rfl hrefuses)
  | approveMfaReset request =>
      exact hsame (fun _ => by simp) (approve_refused request _ _ h e rfl hrefuses)
  | executeMfaReset request =>
      exact hsame (fun _ => by simp) (execute_refused request _ _ h e rfl hrefuses)
  | supportRecovery target =>
      rcases supportRecovery_refused target _ _ h e rfl hrefuses with
        ⟨hdb, hnot⟩ | ⟨row, hrow, hwritten, hhalf⟩
      · refine ⟨fun _ => hnot, fun _ target => ?_⟩
        rw [hdb]
        exact .refl target c.db
      · refine ⟨fun hall => ?_, fun hnot => absurd hhalf hnot⟩
        have hversion := (hall target).row
        rw [hrow, hwritten] at hversion
        simp [bumped] at hversion

/-- Support recovers an account that logs in with a phone number: it is told that
there is no such account, and the account has been unlocked. -/
def phoneDb : Db :=
  { sampleDb [⟨.given 2, "bob", .active⟩] with
    users := sampleTable [(.given 1, ⟨none, none, none, some "+15550100", .locked, 4, none⟩),
      (.given 2, ⟨some "bob", none, none, none, .active, 1, none⟩)]
    staff := sampleTable [(.given 201, ⟨.given 2, .supportAgentL2, none⟩)] }

theorem refused_and_unlocked : ∃ c',
    ((StaffAction.supportRecovery (.given 1)).run sampleEnv 0 (strongClaims (.given 2))).solo 0
        (fun _ => true) (sampleStart phoneDb) = some (.error targetMissing, c') ∧
      (phoneDb.users.get (.given 1)).map (·.state) = some .locked ∧
      (c'.db.users.get (.given 1)).map (·.state) = some .active ∧
      ¬TargetSame (.given 1) phoneDb c'.db := by
  have hrun : (((StaffAction.supportRecovery (.given 1)).run sampleEnv 0
      (strongClaims (.given 2))).solo 0 (fun _ => true) (sampleStart phoneDb)).map (fun r =>
        (r.1, (r.2.db.users.get (.given 1)).map fun row => (row.state, row.version))) =
      some (.error targetMissing, some (.active, 5)) := by decide +kernel
  obtain ⟨⟨result, c'⟩, hsolo, heq⟩ := Option.map_eq_some_iff.mp hrun
  obtain ⟨rfl, hafter⟩ := Prod.mk.inj heq
  obtain ⟨row, hget, hrow⟩ := Option.map_eq_some_iff.mp hafter
  refine ⟨c', hsolo, rfl, by simp [hget, (Prod.mk.inj hrow).1], fun hsame => ?_⟩
  have hchanged := hsame.row
  rw [hafter] at hchanged
  exact absurd hchanged (by decide)

/-- An agent without the role is refused, and nothing has changed. -/
theorem refused_without_role : ∃ c',
    ((StaffAction.suspend (.given 1)).run sampleEnv 0 (strongClaims (.given 2))).solo 0
        (fun _ => true) (sampleStart phoneDb) = some (.error staffForbidden, c') ∧
      ∀ target, TargetSame target phoneDb c'.db := by
  have hrun : (((StaffAction.suspend (.given 1)).run sampleEnv 0
      (strongClaims (.given 2))).solo 0 (fun _ => true) (sampleStart phoneDb)).map Prod.fst =
      some (.error staffForbidden) := by decide +kernel
  obtain ⟨⟨result, c'⟩, hsolo, rfl⟩ := Option.map_eq_some_iff.mp hrun
  refine ⟨c', hsolo, (refused_staff_actions hsolo rfl).mpr ?_⟩
  rintro ⟨_, _, haction, _⟩
  cases haction

end AuthCore
