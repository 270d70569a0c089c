/-
The governed reset of security factors: two members of staff, twelve hours, and
an account that nobody has touched in between.  A request carries the version
that its initiation read, and versions never repeat.
-/
import AuthCore.Accounts.StateMachine

namespace AuthCore

open Interleave Relational RecoveryRepository SupportAdminControl

/-- What an event does to the governed requests. -/
inductive GovernedStep (d d' : Db) : Event → Prop
  | same {e : Event} : d'.governed = d.governed → GovernedStep d d' e
  | initiated {args : InitiateArgs} {user : User} {result : GovernedResetRecord × RecoveryUser} :
      d.governed.get args.requestId = none →
      d'.governed = d.governed.add args.requestId (newGoverned args user.version) →
      GovernedStep d d' (.recovery (.resetInitiated args (some user) (some result)))
  | approved {args : GovernedArgs} {record : GovernedResetRecord} {row : GovernedRequest} :
      d.governed.get args.requestId = some row → row.state = .pending →
      row.initiatorUserId ≠ args.actor →
      d'.governed = d.governed.update (fun k _ => k == args.requestId) (approved args) →
      GovernedStep d d' (.recovery (.resetApproved args (some record)))
  | executed {args : GovernedArgs} {found : List Uuid} {record : GovernedResetRecord}
      {user : RecoveryUser} {row : GovernedRequest} {target : User} :
      d.governed.get args.requestId = some row → row.state = .approved →
      row.approverUserId.isSome = true → row.executeAfter ≤ args.now →
      d.users.get row.targetUserId = some target → target.version = row.targetUserVersion →
      d'.governed = d.governed.update (fun k _ => k == args.requestId) (executed args) →
      GovernedStep d d' (.recovery (.resetExecuted args found (some (record, user))))

section Steps

variable {m : Core Db World} {d : Db}

theorem aside_governed : Aside Db.governed :=
  ⟨fun _ => rfl, fun _ => rfl, fun _ => rfl, fun _ => rfl, fun _ => rfl, fun _ _ => rfl⟩

theorem erasing_governed (user : Uuid) : Erasing (Tx.Keeps Db.governed) user where
  artifacts _ _ := rfl
  «export» _ _ _ _ := rfl
  contactChange _ _ := rfl
  mailed _ _ _ _ := rfl
  factor _ _ _ := rfl
  device _ _ _ _ := rfl
  staff _ := rfl
  binding _ _ _ _ := rfl
  identity _ _ _ _ := rfl
  family _ _ _ := rfl
  referrals _ := rfl
  referred _ _ := rfl
  invitation _ _ _ := rfl
  organization _ _ _ := rfl
  user _ _ _ _ := rfl
  request _ _ _ _ _ := rfl
  audit _ _ := rfl

theorem governed_account (event : AccountEvent) (d : Db) :
    ((Event.account event).change d).governed = d.governed := by
  by_cases hstays : ∀ args email found result, event ≠ .erased args (.erased email found) result
  · exact Event.keeps_part (e := .account event)
      (fun commit hcommit => event.keeps hcommit hstays) (fun _ => rfl) d
  · simp only [not_forall, ne_eq, not_not] at hstays
    obtain ⟨args, email, found, result, rfl⟩ := hstays
    refine Event.keeps_change (fun commit hcommit => ?_) d
    cases hcommit
    exact guarantees_eraseWrites (erasing_governed _) _ _

theorem governed_recovery {event : RecoveryEvent} (hother : event.isGoverned = false) (d : Db) :
    ((Event.recovery event).change d).governed = d.governed := by
  refine Event.keeps_change (e := .recovery event)
    (fun commit hcommit => event.guarantees ?_ ?_ ?_ (fun _ _ _ _ => rfl) hcommit) d
  · exact ⟨fun _ _ _ => rfl, fun _ _ _ => rfl, fun _ _ _ _ => rfl, fun _ _ _ => rfl,
      fun _ _ _ => rfl, fun _ _ _ _ => rfl, fun _ _ _ => rfl, fun _ _ _ => rfl, fun _ _ _ => rfl,
      fun _ _ => rfl, fun _ _ => rfl⟩
  · exact fun _ => ⟨fun _ _ _ => rfl, fun _ _ _ _ => rfl, fun _ _ _ _ _ => rfl,
      fun _ _ _ _ _ => rfl, fun _ _ _ _ => rfl⟩
  · intro hgoverned
    rw [hother] at hgoverned
    cases hgoverned

theorem step_initiated {args : InitiateArgs} {user : Option User}
    {result : Option (GovernedResetRecord × RecoveryUser)}
    (h : (Event.recovery (.resetInitiated args user result)).Agrees m) :
    GovernedStep m.db ((Event.recovery (.resetInitiated args user result)).change m.db)
      (.recovery (.resetInitiated args user result)) := by
  obtain ⟨change, halone, hchange⟩ := h.commits rfl
  rw [hchange]
  dsimp only at halone
  unfold initiateWith at halone
  split at halone
  · cases halone
    exact .same rfl
  · rename_i row hrow
    obtain ⟨huser, _⟩ := Option.filter_eq_some_iff.mp hrow
    change Tx.alone m.db id (if (m.db.governed.get args.requestId).isSome then .raise .integrity
      else do
        write (DbChange.addGoverned args.requestId (newGoverned args row.version))
        write (DbChange.addAudit
          ⟨some args.actor, some args.target, none, "ADMIN_MFA_RESET_INITIATED", "success"⟩)
        return some (governedRecord args.requestId (newGoverned args row.version),
          recoveryUser args.target row)
      : Trans (Option (GovernedResetRecord × RecoveryUser))) = _ at halone
    split at halone
    · cases halone
    · rename_i hfree
      cases halone
      subst huser
      exact .initiated (by simpa using hfree) rfl

theorem step_approved {args : GovernedArgs} {result : Option GovernedResetRecord}
    (h : (Event.recovery (.resetApproved args result)).Agrees m) :
    GovernedStep m.db ((Event.recovery (.resetApproved args result)).change m.db)
      (.recovery (.resetApproved args result)) := by
  obtain ⟨change, halone, hchange⟩ := h.commits rfl
  rw [hchange]
  dsimp only at halone
  rw [alone_approveWith rfl] at halone
  cases hget : m.db.governed.get args.requestId with
  | none =>
      rw [hget] at halone
      cases halone
      exact .same rfl
  | some row =>
      rw [hget] at halone
      by_cases hstate : row.state = .pending
      · by_cases hown : row.initiatorUserId = args.actor
        · rw [approveLocked_own hstate hown] at halone
          cases halone
        · rw [approveLocked_open hstate hown] at halone
          cases halone
          exact .approved hget hstate hown rfl
      · rw [approveLocked_closed hstate] at halone
        cases halone
        exact .same rfl

theorem governed_of_factors {user : Uuid} {now : Time} {found : List Uuid} {pending : Db → Db}
    (h : (Tx.each (revokeFactor user now) found).alone d id = .ok ((), pending)) :
    (pending d).governed = d.governed := by
  have hkeeps : (Tx.each (revokeFactor user now) found).Guarantees (Tx.Keeps Db.governed) :=
    Tx.guarantees_each (guarantees_revokeFactor fun _ _ _ => rfl) _
  exact Tx.keeps_of_reflTransGen (hkeeps.alone h d)

theorem step_resetExecuted {args : GovernedArgs} {found : List Uuid}
    {result : Option (GovernedResetRecord × RecoveryUser)}
    (h : (Event.recovery (.resetExecuted args found result)).Agrees m) :
    GovernedStep m.db ((Event.recovery (.resetExecuted args found result)).change m.db)
      (.recovery (.resetExecuted args found result)) := by
  obtain ⟨change, halone, hchange⟩ := h.commits rfl
  rw [hchange]
  rcases alone_executeFound halone with
    ⟨_, rfl⟩ | ⟨row, user, hget, hstate, happrover, hdue, huser, hversion, hwrites⟩
  · exact .same rfl
  · obtain ⟨hanswer, pending, hfactors, rfl⟩ := alone_executeWrites hwrites
    dsimp only at hanswer
    subst hanswer
    refine .executed hget hstate happrover hdue huser hversion ?_
    change (pending m.db).governed.update (fun k _ => k == args.requestId) (executed args) = _
    rw [governed_of_factors hfactors]

theorem governed_change {e : Event} (h : e.Agrees m) : GovernedStep m.db (e.change m.db) e := by
  by_cases hgoverned : ∃ event, e = .recovery event ∧ event.isGoverned = true
  · obtain ⟨event, rfl, hgoverned⟩ := hgoverned
    cases event with
    | resetInitiated args user result => exact step_initiated h
    | resetApproved args result => exact step_approved h
    | resetExecuted args found result => exact step_resetExecuted h
    | _ => cases hgoverned
  · refine .same (aside_governed.change m.db ?_ ?_)
    · rintro event rfl
      exact governed_account event m.db
    · rintro event rfl
      refine governed_recovery ?_ m.db
      simpa using fun htrue => hgoverned ⟨event, rfl, htrue⟩

end Steps

/-- Where a stored request comes from. -/
def OriginOf (log : List (Nat × Event)) (id : Uuid) (row : GovernedRequest) : Prop :=
  ∃ after j args user result before,
    log = after ++ (j, .recovery (.resetInitiated args (some user) (some result))) :: before ∧
    args.requestId = id ∧ row.targetUserId = args.target ∧ row.initiatorUserId = args.actor ∧
    row.executeAfter = args.executeAfter ∧ row.targetUserVersion = user.version ∧
    ∀ approver, row.approverUserId = some approver → approver ≠ args.actor ∧
      ∃ k now record,
        (k, .recovery (.resetApproved ⟨approver, id, now⟩ (some record))) ∈ after

/-- The request has been executed. -/
def ExecutedIn (log : List (Nat × Event)) (id : Uuid) : Prop :=
  ∃ k args found result, (k, .recovery (.resetExecuted args found (some result))) ∈ log ∧
    args.requestId = id

structure GovernedInvariant (m : Core Db World) : Prop where
  origin : ∀ id row, m.db.governed.get id = some row → OriginOf m.store.log id row
  executed : ∀ id, ExecutedIn m.store.log id →
    ∃ row, m.db.governed.get id = some row ∧ row.state = .executed

theorem OriginOf.cons {log : List (Nat × Event)} {id : Uuid} {row : GovernedRequest}
    (h : OriginOf log id row) (entry : Nat × Event) : OriginOf (entry :: log) id row := by
  obtain ⟨after, j, args, user, result, before, rfl, hid, htarget, hactor, hdue, hversion,
    happroved⟩ := h
  refine ⟨entry :: after, j, args, user, result, before, rfl, hid, htarget, hactor, hdue,
    hversion, fun approver heq => ?_⟩
  obtain ⟨hne, k, now, record, hmem⟩ := happroved approver heq
  exact ⟨hne, k, now, record, List.mem_cons_of_mem _ hmem⟩

/-- An executed request is not touched again. -/
theorem GovernedStep.executed_stays {d d' : Db} {e : Event} (h : GovernedStep d d' e) {id : Uuid}
    {row : GovernedRequest} (hget : d.governed.get id = some row) (hstate : row.state = .executed) :
    d'.governed.get id = some row := by
  cases h with
  | same heq => rw [heq, hget]
  | initiated _ heq =>
      rw [heq, Table.get_add, hget]
      rfl
  | @approved args _ _ hrow hpending _ heq =>
      rw [heq, Table.get_update, hget]
      have hne : ¬id = args.requestId := by
        rintro rfl
        rw [hget] at hrow
        cases hrow
        rw [hstate] at hpending
        cases hpending
      simp [hne]
  | @executed args _ _ _ _ _ hrow happroved _ _ _ _ heq =>
      rw [heq, Table.get_update, hget]
      have hne : ¬id = args.requestId := by
        rintro rfl
        rw [hget] at hrow
        cases hrow
        rw [hstate] at happroved
        cases happroved
      simp [hne]

theorem executedIn_cons {log : List (Nat × Event)} {id : Uuid} {i : Nat} {e : Event}
    (h : ExecutedIn ((i, e) :: log) id) :
    ExecutedIn log id ∨ ∃ args found result,
      e = .recovery (.resetExecuted args found (some result)) ∧ args.requestId = id := by
  obtain ⟨k, args, found, result, hmem, hid⟩ := h
  rcases List.mem_cons.mp hmem with heq | hold
  · cases heq
    exact Or.inr ⟨args, found, result, rfl, hid⟩
  · exact Or.inl ⟨k, args, found, result, hold, hid⟩

theorem GovernedInvariant.event {m : Core Db World} (h : GovernedInvariant m) {i : Nat} {e : Event}
    (hagrees : e.Agrees m) : GovernedInvariant (e.apply i m) := by
  have hstep := governed_change hagrees
  have hlog := Event.log_apply i e m
  constructor
  case origin =>
    intro id row hget
    rw [hlog]
    change (e.change m.db).governed.get id = some row at hget
    generalize e.change m.db = d' at hstep hget
    cases hstep with
    | same heq =>
        rw [heq] at hget
        exact (h.origin id row hget).cons _
    | @initiated args user result hnone heq =>
        rw [heq, Table.get_add_of_new hnone] at hget
        split at hget
        · rename_i hid
          cases hget
          refine ⟨[], i, args, user, result, m.store.log, rfl, hid.symm, rfl, rfl, rfl, rfl, ?_⟩
          intro approver happrover
          cases happrover
        · exact (h.origin id row hget).cons _
    | @approved args record row₀ hrow hpending hown heq =>
        rw [heq, Table.get_update, Option.map_eq_some_iff] at hget
        obtain ⟨old, hold, hnew⟩ := hget
        by_cases hid : id = args.requestId
        · subst hid
          rw [if_pos (by simp)] at hnew
          rw [hold] at hrow
          cases hrow
          obtain ⟨after, j, args', user, result, before, hsplit, hid, htarget, hactor, hdue,
            hversion, _⟩ := h.origin _ _ hold
          rw [hsplit]
          refine ⟨(i, _) :: after, j, args', user, result, before, rfl, hid, ?_, ?_, ?_, ?_, ?_⟩
          · rw [← hnew]
            exact htarget
          · rw [← hnew]
            exact hactor
          · rw [← hnew]
            exact hdue
          · rw [← hnew]
            exact hversion
          · intro approver happrover
            rw [← hnew] at happrover
            cases happrover
            exact ⟨fun heq => hown (hactor.trans heq.symm), i, args.now, record,
              List.mem_cons_self⟩
        · rw [if_neg (by simpa using hid)] at hnew
          subst hnew
          exact (h.origin id _ hold).cons _
    | @executed args found record user row₀ target hrow hstate happrover hdue huser hversion heq =>
        rw [heq, Table.get_update, Option.map_eq_some_iff] at hget
        obtain ⟨old, hold, hnew⟩ := hget
        have horigin := (h.origin id old hold).cons
          (i, .recovery (.resetExecuted args found (some (record, user))))
        split at hnew
        · subst hnew
          exact horigin
        · subst hnew
          exact horigin
  case executed =>
    intro id hexecuted
    rw [hlog] at hexecuted
    change ∃ row, (e.change m.db).governed.get id = some row ∧ _
    rcases executedIn_cons hexecuted with hold | ⟨args, found, result, rfl, rfl⟩
    · obtain ⟨row, hget, hstate⟩ := h.executed id hold
      exact ⟨row, hstep.executed_stays hget hstate, hstate⟩
    · obtain ⟨record, user⟩ := result
      generalize hd' : (Event.recovery (.resetExecuted args found (some (record, user)))).change
        m.db = d' at hstep ⊢
      cases hstep with
      | same heq =>
          -- an execution with an answer has written the request
          obtain ⟨change, halone, hchange⟩ := hagrees.commits rfl
          rcases alone_executeFound halone with ⟨hnone, _⟩ | ⟨row, user', hget, _, _, _, _, _, hwrites⟩
          · cases hnone
          · obtain ⟨_, pending, hfactors, rfl⟩ := alone_executeWrites hwrites
            rw [← hd', hchange]
            refine ⟨RecoveryRepository.executed args row, ?_, rfl⟩
            change ((pending m.db).governed.update (fun k _ => k == args.requestId)
              (RecoveryRepository.executed args)).get args.requestId = _
            rw [governed_of_factors hfactors, Table.get_update, hget]
            simp
      | @executed _ _ _ _ row target hrow _ _ _ _ _ heq =>
          refine ⟨RecoveryRepository.executed args row, ?_, rfl⟩
          rw [heq, Table.get_update, hrow]
          simp

variable {env : Env} {c : Core Db World}

theorem governedInvariant_of_history (hinit : Initial c) {m : Core Db World}
    (h : History env c m) : GovernedInvariant m := by
  refine Ledger.Leads.preserves h ?_ ?_ ?_
  · constructor
    · intro id row hget
      rw [hinit.governed, Table.get_empty] at hget
      cases hget
    · rintro id ⟨k, args, found, result, hmem, _⟩
      rw [hinit.log] at hmem
      cases hmem
  · intro m i e _ hm _ henabled
    exact hm.event henabled.2
  · intro m n _ hm
    exact ⟨hm.origin, hm.executed⟩

/-- The factors of other users are as they were. -/
def OthersKeep (user : Uuid) (d d' : Db) : Prop :=
  ∀ id factor, d.mfaDevices.get id = some factor → factor.userId ≠ user →
    d'.mfaDevices.get id = some factor

theorem othersKeep_revokeFactor {user : Uuid} {now : Time} {id : Uuid} {d b : Db}
    {pending : Db → Db} {result : Unit × (Db → Db)}
    (h : (revokeFactor user now id).alone d pending = .ok result)
    (hkeep : OthersKeep user d (pending b)) : OthersKeep user d (result.2 b) := by
  obtain ⟨_, pending', hchange, hend⟩ := Tx.alone_bind_eq_ok h
  cases hend
  rw [changeFactor_alone] at hchange
  cases hget : d.mfaDevices.get id with
  | none =>
      rw [hget] at hchange
      cases hchange
      exact hkeep
  | some row =>
      rw [hget] at hchange
      dsimp only at hchange
      split at hchange
      · rename_i hmine
        cases hchange
        simp only [Bool.and_eq_true, beq_iff_eq] at hmine
        intro k factor hfactor hother
        have hne : k ≠ id := by
          rintro rfl
          rw [hget] at hfactor
          cases hfactor
          exact hother hmine.1
        change ((pending b).mfaDevices.update _ _).get k = _
        rw [Table.get_update, hkeep k factor hfactor hother]
        simp [hne]
      · cases hchange
        exact hkeep

theorem othersKeep_revokeFactors {user : Uuid} {now : Time} {d b : Db} (found : List Uuid)
    {pending : Db → Db} {result : Unit × (Db → Db)}
    (h : (Tx.each (revokeFactor user now) found).alone d pending = .ok result)
    (hkeep : OthersKeep user d (pending b)) : OthersKeep user d (result.2 b) := by
  induction found generalizing pending with
  | nil =>
      cases h
      exact hkeep
  | cons id rest ih =>
      obtain ⟨_, pending', hfirst, hrest⟩ := Tx.alone_bind_eq_ok h
      exact ih hrest (othersKeep_revokeFactor hfirst hkeep)

/-- From `first` on, over `between`, the account has one version, and no commit
touches it but for a new hash of its password. -/
structure Undisturbed (d : Db) (between first : List (Nat × Event)) (u : Uuid)
    (version : Nat) : Prop where
  version : ∀ l₁ l₂, between = l₁ ++ l₂ →
    ∃ row, (replay d (l₂ ++ first)).users.get u = some row ∧ row.version = version
  untouched : ∀ l₁ k e l₂, between = l₁ ++ (k, e) :: l₂ → e.rehashes = true ∨
    (replay d ((k, e) :: (l₂ ++ first))).account u = (replay d (l₂ ++ first)).account u

/-- Versions only grow, so one that is back has not been away. -/
theorem undisturbed_of_version (hinit : Initial c) {m : Core Db World} (h : History env c m)
    {between first : List (Nat × Event)} (hlog : m.store.log = between ++ first) {u : Uuid}
    {row row' : User} (hrow : (replay c.db first).users.get u = some row)
    (hrow' : (replay c.db (between ++ first)).users.get u = some row')
    (hversion : row'.version = row.version) : Undisturbed c.db between first u row.version := by
  have hmiddle : ∀ l₁ l₂, between = l₁ ++ l₂ →
      ∃ r, (replay c.db (l₂ ++ first)).users.get u = some r ∧ r.version = row.version := by
    rintro l₁ l₂ rfl
    obtain ⟨r, hr, _, hup, _⟩ := row_of_stretch hinit h hrow l₂ l₁ (by simp [hlog])
    obtain ⟨r', hr', _, hup', _⟩ := row_of_stretch hinit h hr l₁ [] (by simp [hlog])
    have heq : r' = row' := by
      rw [← List.append_assoc, hrow'] at hr'
      exact (Option.some.inj hr').symm
    subst heq
    exact ⟨r, hr, by omega⟩
  refine ⟨hmiddle, ?_⟩
  rintro l₁ k e l₂ rfl
  obtain ⟨r, hr, hr_version⟩ := hmiddle (l₁ ++ [(k, e)]) l₂ (by simp)
  obtain ⟨r', hr', hr'_version⟩ := hmiddle l₁ ((k, e) :: l₂) rfl
  have hstep := row_of_entry hinit h
    (show m.store.log = l₁ ++ (k, e) :: (l₂ ++ first) by simp [hlog]) u
  obtain ⟨r'', hr'', _, hcases⟩ := hstep.row hr
  have heq : r'' = r' := Option.some.inj (hr''.symm.trans hr')
  subst heq
  rcases hcases with hsame | hup | ⟨hrehash, _⟩
  · exact Or.inr hsame
  · omega
  · exact Or.inl hrehash

/-- What has happened when a request is executed: it was initiated by a member
of staff, approved by another one, at least twelve hours lie between the clock
readings of the two calls, and from the moment the initiation read the account
until now nothing has touched it. -/
inductive Governed (d : Db) (i : Nat) (args : GovernedArgs) (target : Uuid) :
    List (Nat × Event) → Prop
  | intro {after waiting first : List (Nat × Event)} {j k : Nat} {iargs : InitiateArgs}
      {user : User} {result : GovernedResetRecord × RecoveryUser} {start approvedAt : Time}
      {record : GovernedResetRecord} {approver : Uuid} :
      iargs.requestId = args.requestId → iargs.target = target →
      (j, .account (.staffRole iargs.actor .supportAgentL2 true)) ∈ first →
      (j, .clock start) ∈ first →
      (k, .recovery (.resetApproved ⟨approver, args.requestId, approvedAt⟩ (some record))) ∈
        after →
      approver ≠ iargs.actor → (i, .clock args.now) ∈
        after ++ (j, .recovery (.resetInitiated iargs (some user) (some result))) ::
          (waiting ++ (j, .recovery (.target target (some user))) :: first) →
      start + seconds (12 * 3600) ≤ args.now →
      Undisturbed d
        (after ++ (j, .recovery (.resetInitiated iargs (some user) (some result))) ::
          (waiting ++ [(j, .recovery (.target target (some user)))])) first target user.version →
      Governed d i args target
        (after ++ (j, .recovery (.resetInitiated iargs (some user) (some result))) ::
          (waiting ++ (j, .recovery (.target target (some user))) :: first))

theorem governed_of_execution (hinit : Initial c) {m : Core Db World} (h : History env c m)
    {i : Nat} {args : GovernedArgs}
    (hexecutes : Executes (trace i m.store.log) args) {row : GovernedRequest} {user : User}
    (hget : m.db.governed.get args.requestId = some row)
    (happrover : row.approverUserId.isSome = true) (hdue : row.executeAfter ≤ args.now)
    (huser : m.db.users.get row.targetUserId = some user)
    (hversion : user.version = row.targetUserVersion) :
    Governed c.db i args row.targetUserId m.store.log := by
  obtain ⟨after, j, iargs, read, iresult, before, hsplit, hid, htarget, hactor, hafter, hread,
    happroved⟩ := (governedInvariant_of_history hinit h).origin _ _ hget
  obtain ⟨approver, heq⟩ := Option.isSome_iff_exists.mp happrover
  obtain ⟨hother, k, approvedAt, record, happroval⟩ := happroved approver heq
  obtain ⟨m₁, hm₁, rfl, hinitiates, _, _⟩ := h.around hinit.log hsplit
  change Initiates j (trace j m₁.store.log) iargs (some read) at hinitiates
  have hclock : (i, .clock args.now) ∈ m.store.log := by
    refine mem_trace_iff.mp ?_
    generalize trace i m.store.log = t at hexecutes
    cases hexecutes with
    | intro => simp
  generalize htrace : trace j m₁.store.log = t at hinitiates
  cases hinitiates with
  | @intro claims target ticket start _ =>
      obtain ⟨waiting, first, hlog₁, _, hfirst⟩ := log_of_trace
        (show trace j m₁.store.log = [] ++ _ from htrace)
      obtain ⟨m₂, hm₂, rfl, _, hagrees, _⟩ := hm₁.around hinit.log hlog₁
      have hrow : (replay c.db m₂.store.log).users.get target = some read := by
        rw [← hm₂.db_eq hinit.log]
        exact hagrees.tells.symm
      have hstaff : ∀ e ∈ Event.clock start ::
          authorized claims .supportAgentL2 (.initiateMfaReset claims target ticket),
          (j, e) ∈ m₂.store.log := by
        intro e he
        rw [← hfirst] at he
        exact mem_trace_iff.mp he
      rw [hlog₁] at hsplit
      dsimp only at htarget hid
      rw [htarget] at huser ⊢
      have hbetween : m.store.log = (after ++ (j, .recovery (.resetInitiated
          ⟨claims.userId, target, ticket, start + governedDelay, .drawn j 0⟩ (some read)
          (some iresult))) :: (waiting ++ [(j, .recovery (.target target (some read)))])) ++
          m₂.store.log := by
        rw [hsplit]
        simp
      have hrow' : (replay c.db m.store.log).users.get target = some user := by
        rw [← h.db_eq hinit.log]
        exact huser
      have hundisturbed := undisturbed_of_version hinit h hbetween hrow
        (by rw [← hbetween]; exact hrow') (hversion.trans hread)
      rw [hsplit] at hclock ⊢
      refine .intro hid rfl (hstaff _ (by simp [authorized])) (hstaff (.clock start) (by simp))
        happroval hother
        hclock ?_ hundisturbed
      calc start + seconds (12 * 3600) = row.executeAfter := hafter.symm
        _ ≤ args.now := hdue

/-- An execution that changes anything has an answer. -/
theorem answer_of_change {m : Core Db World} {args : GovernedArgs} {found : List Uuid}
    {result : Option (GovernedResetRecord × RecoveryUser)}
    (hagrees : (Event.recovery (.resetExecuted args found result)).Agrees m)
    (hchange : (Event.recovery (.resetExecuted args found result)).change m.db ≠ m.db) :
    ∃ answer, result = some answer := by
  obtain ⟨change, halone, heq⟩ := hagrees.commits rfl
  rcases alone_executeFound halone with ⟨_, rfl⟩ | ⟨_, _, _, _, _, _, _, _, hwrites⟩
  · exact absurd heq hchange
  · exact ⟨_, (alone_executeWrites hwrites).1⟩

/-- An execution with an answer has a governed request behind it. -/
theorem execution_of_answer (hinit : Initial c) {m : Core Db World} (h : History env c m)
    {i : Nat} {args : GovernedArgs} {found : List Uuid}
    {answer : GovernedResetRecord × RecoveryUser}
    (hexecutes : Executes (trace i m.store.log) args)
    (hagrees : (Event.recovery (.resetExecuted args found (some answer))).Agrees m) :
    ∃ target, Governed c.db i args target m.store.log ∧ OthersKeep target m.db
      ((Event.recovery (.resetExecuted args found (some answer))).change m.db) := by
  obtain ⟨change, halone, heq⟩ := hagrees.commits rfl
  rcases alone_executeFound halone with
    ⟨hnone, _⟩ | ⟨row, user, hget, _, happrover, hdue, huser, hversion, hwrites⟩
  · cases hnone
  · obtain ⟨_, pending, hfactors, rfl⟩ := alone_executeWrites hwrites
    refine ⟨row.targetUserId, governed_of_execution hinit h hexecutes hget happrover hdue huser
      hversion, ?_⟩
    rw [heq]
    exact othersKeep_revokeFactors found hfactors fun _ _ hfactor _ => hfactor

/-- A request is executed once. -/
theorem fresh_of_executed (hinit : Initial c) {m : Core Db World} (h : History env c m)
    {args : GovernedArgs} {found : List Uuid} {answer : GovernedResetRecord × RecoveryUser}
    (hagrees : (Event.recovery (.resetExecuted args found (some answer))).Agrees m) :
    ¬ExecutedIn m.store.log args.requestId := by
  intro hbefore
  obtain ⟨row, hrow, hexecuted⟩ := (governedInvariant_of_history hinit h).executed _ hbefore
  obtain ⟨change, halone, _⟩ := hagrees.commits rfl
  rcases alone_executeFound halone with ⟨hnone, _⟩ | ⟨row', _, hget, hstate, _⟩
  · cases hnone
  · rw [hrow] at hget
    cases hget
    rw [hstate] at hexecuted
    cases hexecuted

/-- A request that is executed stays as it is. -/
theorem executed_of_stretch (hinit : Initial c) {m : Core Db World} (h : History env c m)
    {earlier : List (Nat × Event)} {id : Uuid} {row : GovernedRequest}
    (hget : (replay c.db earlier).governed.get id = some row) (hstate : row.state = .executed)
    (between later : List (Nat × Event)) (hlog : m.store.log = later ++ (between ++ earlier)) :
    (replay c.db (between ++ earlier)).governed.get id = some row := by
  induction between generalizing later with
  | nil => exact hget
  | cons entry rest ih =>
      obtain ⟨i, e⟩ := entry
      obtain ⟨m₀, hm₀, hlog₀, _, hagrees, _⟩ := h.around hinit.log
        (show m.store.log = later ++ (i, e) :: (rest ++ earlier) by simp [hlog])
      have hrest := ih (later ++ [(i, e)]) (by simp [hlog])
      rw [← hlog₀, ← hm₀.db_eq hinit.log] at hrest
      rw [List.cons_append, ← hlog₀, replay_cons, ← hm₀.db_eq hinit.log]
      exact (governed_change hagrees).executed_stays hrest hstate

/-- What every run promises of the governed requests: an execution that changes
anything had a governed request behind it, touches the factors of no other user
and is the only one of its request, and an executed request stays as it is. -/
structure GovernedRuns (d : Db) (log : List (Nat × Event)) : Prop where
  governed : ∀ later i args found result earlier,
    log = later ++ (i, .recovery (.resetExecuted args found result)) :: earlier →
    replay d ((i, .recovery (.resetExecuted args found result)) :: earlier) ≠ replay d earlier →
    ∃ target, Governed d i args target earlier ∧
      OthersKeep target (replay d earlier)
        (replay d ((i, .recovery (.resetExecuted args found result)) :: earlier)) ∧
      ¬ExecutedIn (later ++ earlier) args.requestId
  executed : ∀ later between earlier id row, log = later ++ (between ++ earlier) →
    (replay d earlier).governed.get id = some row → row.state = .executed →
    (replay d (between ++ earlier)).governed.get id = some row

theorem governed_reset (hinit : Initial c) {s : Config schema World AuthError Result}
    (h : (application env).Reachable c s) : GovernedRuns c.db s.core.store.log := by
  have hhistory := history_of_reachable hinit.log h
  constructor
  case executed =>
    intro later between earlier id row hlog hget hstate
    exact executed_of_stretch hinit hhistory hget hstate between later hlog
  case governed =>
    intro later i args found result earlier hlog hchange
    obtain ⟨m, hm, rfl, hexecutes, hagrees, _⟩ := hhistory.around hinit.log hlog
    rw [replay_cons, ← hm.db_eq hinit.log] at hchange ⊢
    obtain ⟨answer, rfl⟩ := answer_of_change hagrees hchange
    change Executes (trace i m.store.log) args at hexecutes
    obtain ⟨target, hgoverned, hothers⟩ := execution_of_answer hinit hm hexecutes hagrees
    refine ⟨target, hgoverned, hothers, ?_⟩
    rintro ⟨k, args', found', result', hmem, hid⟩
    rcases List.mem_append.mp hmem with hlater | hearlier
    · -- the later one finds this one in its log
      obtain ⟨l₁, l₂, rfl⟩ := List.append_of_mem hlater
      obtain ⟨m', hm', hlog', _, hagrees', _⟩ := hhistory.around hinit.log
        (show s.core.store.log = l₁ ++ (k, .recovery (.resetExecuted args' found' (some result')))
          :: (l₂ ++ (i, .recovery (.resetExecuted args found (some answer))) :: m.store.log) by
          simp [hlog])
      refine fresh_of_executed hinit hm' hagrees' ⟨i, args, found, answer, ?_, hid.symm⟩
      rw [hlog']
      simp
    · exact fresh_of_executed hinit hm hagrees ⟨k, args', found', result', hearlier, hid⟩

/-- Bob asks for a reset of Ann's factors, Eve approves it, twelve hours pass
and Eve executes it. -/
def governedMoves : List SampleMove :=
  perform 0 (.initiateMfaReset (strongClaims (.given 2)) (.given 1) "ticket") 10 ++
    perform 1 (.approveMfaReset (strongClaims (.given 3)) (.drawn 0 0)) 9 ++
    [.tick governedDelay] ++
    perform 2 (.executeMfaReset (strongClaims (.given 3)) (.drawn 0 0)) 19

theorem staffedCore_initial : Initial staffedCore :=
  ⟨rfl, rfl, rfl, rfl, rfl, rfl, fun _ => rfl, rfl, rfl⟩

theorem governed_reset_after_twelve_hours :
    ∃ s, (application sampleEnv).Reachable staffedCore s ∧
      (s.core.db.mfaDevices.get (.given 1)).map (·.status) = some .revoked ∧
      GovernedRuns staffedCore.db s.core.store.log := by
  obtain ⟨s, hreach, hrevoked⟩ := Service.reachable_of_run
    (show ((application sampleEnv).run (Service.start staffedCore) governedMoves).map (fun s =>
        decide ((s.core.db.mfaDevices.get (.given 1)).map (·.status) = some .revoked)) =
      some true by decide +kernel)
  exact ⟨s, hreach, by simpa using hrevoked, governed_reset staffedCore_initial hreach⟩

end AuthCore
