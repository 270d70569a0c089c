/-
The calls on organizations and their members keep to the ledger.
-/
import AuthCore.History.Sessions

namespace AuthCore

open Interleave WorkspaceRepository

variable {env : Env} {start : Core Db World} {i : Nat} {t : List Event}

theorem lockOnly_grant (user org grantedBy : Uuid) (removed : List Uuid) (entry : Uuid × Uuid) :
    (grant user org grantedBy removed entry).LockOnly :=
  (lockOnly_reserve _ _).bind fun _ => lockOnly_write _

theorem lockOnly_insertOrganization (args : OrganizationArgs) (catalog : List Uuid) :
    (insertOrganization args catalog).LockOnly :=
  (Tx.lockOnly_each (lockOnly_grant _ _ _ _) _).bind fun _ => trivial

theorem lockOnly_revokeInvitation (condition : Invitation → Bool) (id : Uuid) :
    (revokeInvitation condition id).LockOnly := by
  refine (lockOnly_lockRow _).bind fun invitation => ?_
  split
  · trivial
  · split <;> trivial

theorem lockOnly_insertInvitation (args : InviteArgs) (pending : List Uuid) :
    (insertInvitation args pending).LockOnly :=
  (Tx.lockOnly_each (lockOnly_revokeInvitation _) _).bind fun _ => trivial

theorem lockOnly_join (args : AcceptArgs) (admission : Admission) :
    (join args admission).LockOnly :=
  (Tx.lockOnly_each (lockOnly_grant _ _ _ _) _).bind fun _ => trivial

theorem lockOnly_revokeBinding (user org : Uuid) (now : Time) (id : Uuid) :
    (revokeBinding user org now id).LockOnly := by
  refine (lockOnly_lockRow _).bind fun binding => ?_
  split
  · trivial
  · split <;> trivial

theorem lockOnly_swapRole (args : MemberArgs) (change : RoleChange) :
    (swapRole args change).LockOnly :=
  (Tx.lockOnly_collect (lockOnly_revokeBinding _ _ _) _).bind fun _ =>
    Tx.lockOnly_each (lockOnly_grant _ _ _ _) _

theorem lockOnly_lockScoped (args : MemberArgs) (id : Uuid) : (lockScoped args id).LockOnly := by
  refine (lockOnly_lockRow _).bind fun session => ?_
  split
  · trivial
  · split <;> trivial

theorem lockOnly_unscopeAll (args : MemberArgs) (sessions : List Uuid) :
    (unscopeAll args sessions).LockOnly :=
  (Tx.lockOnly_collect (lockOnly_lockScoped _) _).bind fun _ =>
    (Tx.lockOnly_each (fun _ => lockOnly_write _) _).bind fun _ => trivial

theorem runs_createOrganization (user : Uuid) (name : String) :
    Runs env start i [.called (.createOrganization user name)]
      (WorkspaceControl.createOrganization env i user name) := by
  unfold WorkspaceControl.createOrganization
  dsimp only
  split
  · exact runs_fail rfl
  · refine runs_txn (runsTx_ask (fun _ => rfl) (fun _ _ => rfl) (fun _ _ => trivial)
      (fun _ => trivial) fun owner => ?_)
    split
    · exact runsTx_raise (runs_fail rfl)
    · refine runsTx_ask (fun _ => rfl) (fun _ _ => rfl) (fun _ _ => rfl) (fun _ => trivial) ?_
      intro catalog
      split
      · exact runsTx_raise (runs_fail rfl)
      · rename_i hcatalog
        refine runsTx_lockOnly ((lockOnly_insertOrganization _ _).bind fun _ => trivial) ?_ ?_ ?_
        · intro c htrace _ b change halone
          obtain ⟨created, hrun, rfl⟩ := alone_bind_ret halone
          refine records_of_commit htrace rfl rfl trivial (.intro ?_) hrun
          simpa using hcatalog
        · intro b _
          exact runs_done rfl trivial
        · intro fault
          exact runs_fail rfl

/-- The queries for access: none is granted without a role, except to the owner
of a personal workspace. -/
theorem runs_getWorkspaceAccess {user workspace : Uuid}
    {k : Option WorkspaceSummary → Proc Result}
    (hnone : ∀ reads : List Event, reads.all Event.plain = true →
      Runs env start i (reads ++ t) (k none))
    (hsome : ∀ reads summary, Accessed user workspace reads summary →
      Runs env start i (reads ++ t) (k (some summary))) :
    Runs env start i t (getWorkspaceAccess user workspace >>= k) := by
  unfold getWorkspaceAccess
  rw [Prog.bind_assoc]
  refine runs_look (fun _ => rfl) (fun _ _ => rfl) (fun _ => rfl) (fun _ => trivial) ?_
  intro found
  cases found with
  | none => exact hnone [_] rfl
  | some organization =>
      dsimp only
      split
      · exact hnone [_] rfl
      · split
        · rename_i hpersonal
          split
          · exact hsome [_] _ (.personal hpersonal)
          · exact hnone [_] rfl
        · rename_i htype
          rw [Prog.bind_assoc]
          refine runs_look (fun _ => rfl) (fun _ _ => rfl) (fun _ => rfl) (fun _ => trivial) ?_
          intro roles
          split
          · exact hnone [_, _] rfl
          · rename_i hroles
            have horganization : organization.workspaceType = .organization := by
              cases h : organization.workspaceType with
              | personal => exact absurd h htype
              | organization => rfl
            exact hsome [_, _] _ (.member horganization (by simpa using hroles))

theorem Accessed.plain {user id : Uuid} {reads : List Event} {summary : WorkspaceSummary}
    (h : Accessed user id reads summary) : reads.all Event.plain = true := by
  cases h with
  | personal => rfl
  | member => rfl

theorem plain_append (pre : List Event) (hpre : pre.all Event.plain = true)
    (ht : t.all Event.plain = true) : (pre ++ t).all Event.plain = true := by
  simp [hpre, ht]

theorem runs_revokeOrganizationInvitation {args : InviteArgs} {k : Unit → Proc Result}
    (hok : Runs env start i (.workspace (.invitationRevoked args) :: t) (k ()))
    (hfault : Runs env start i t (.raise .unhandled)) :
    Runs env start i t (revokeOrganizationInvitation args >>= k) := by
  refine runs_transact (lockOnly_revokeInvitation _ _) (fun _ => rfl) (fun _ _ => rfl) ?_ ?_
    (fun _ => hok) hfault
  · exact fun _ _ => trivial
  · exact fun _ => trivial

/-- The queries and the commit of an invitation. -/
def Event.invites : Event → Bool
  | workspace (.offboarded ..) => false
  | workspace _ => true
  | _ => false

theorem plain_of_invites {pre : List Event} (h : pre.all Event.invites = true) :
    pre.all Event.plain = true := by
  rw [List.all_eq_true] at h ⊢
  intro e he
  have hinvites := h e he
  unfold Event.invites at hinvites
  split at hinvites
  · cases hinvites
  · rename_i hne
    unfold Event.plain
    split
    all_goals simp_all
  · cases hinvites

/-- A transaction that ends without a commit of its own. -/
theorem runsTx_invited_none {args : InviteArgs} {found : List Uuid}
    {k : Except (Fault AuthError) (List Uuid × Option InvitationRecord) → Proc Result}
    {seen : List ((row : Row) × row.View)}
    (hok : Runs env start i (.workspace (.invited args found none) :: t) (k (.ok (found, none))))
    (hfault : ∀ fault, Runs env start i t (k (.error fault))) :
    RunsTx env start i t (fun result => .workspace (.invited args result.1 result.2)) k seen id
      (pure (found, none)) := by
  refine runsTx_return ?_ hok hfault
  intro c htrace _
  exact records_of_tells htrace rfl rfl trivial trivial

/-- The last part of the transaction: the insertion itself. -/
theorem runsTx_insertInvitation {args : InviteArgs} {found : List Uuid}
    {organization : Option Organization}
    {k : Except (Fault AuthError) (List Uuid × Option InvitationRecord) → Proc Result}
    {seen : List ((row : Row) × row.View)} (horganization : ¬¬isOrganization organization = true)
    (hread : .workspace (.organization args.workspace organization) ∈ t)
    (hok : ∀ result, Runs env start i (.workspace (.invited args found result) :: t)
      (k (.ok (found, result))))
    (hfault : ∀ fault, Runs env start i t (k (.error fault))) :
    RunsTx env start i t (fun result => .workspace (.invited args result.1 result.2)) k seen id
      (insertInvitation args found >>= fun created => pure (found, created)) := by
  refine runsTx_lockOnly ((lockOnly_insertInvitation _ _).bind fun _ => trivial) ?_ ?_ hfault
  · intro c htrace _ b change halone
    obtain ⟨created, hrun, rfl⟩ := alone_bind_ret halone
    cases organization with
    | none => exact absurd horganization (by simp [isOrganization])
    | some organization =>
        cases created with
        | none =>
            -- the insertion always answers with a record
            exfalso
            unfold insertInvitation at hrun
            rw [Tx.alone_bind] at hrun
            cases hpending : (Tx.each (revokeInvitation fun row => row.orgId == args.workspace &&
                row.inviteeEmail == args.email) found).alone c.db id with
            | error fault =>
                rw [hpending] at hrun
                cases hrun
            | ok result =>
                rw [hpending] at hrun
                cases hrun
        | some created =>
            refine records_of_commit htrace rfl rfl trivial ⟨organization, hread, ?_⟩ hrun
            simpa [isOrganization] using horganization
  · rintro b ⟨d, change, _, halone⟩
    obtain ⟨created, _, rfl⟩ := alone_bind_ret halone
    exact hok created

/-- The transaction of an invitation.  It is issued only in an organization. -/
theorem runs_createOrganizationInvitation {args : InviteArgs}
    {k : Option InvitationRecord → Proc Result}
    (h : ∀ (pre : List Event) result, pre.all Event.invites = true →
      Runs env start i (pre ++ t) (k result))
    (hfault : ∀ pre : List Event, pre.all Event.invites = true →
      Runs env start i (pre ++ t) (.raise .unhandled)) :
    Runs env start i t (createOrganizationInvitation args >>= k) := by
  refine runs_txn (runsTx_ask (fun _ => rfl) (fun _ _ => rfl) (fun _ _ => rfl)
    (fun _ => trivial) fun organization => ?_)
  split
  · exact runsTx_invited_none (h [_, _] _ rfl) fun _ => hfault [_] rfl
  · rename_i horganization
    refine runsTx_ask (fun _ => rfl) (fun _ _ => rfl) (fun _ _ => trivial) (fun _ => trivial) ?_
    intro allowed
    split
    · exact runsTx_invited_none (h [_, _, _] _ rfl) fun _ => hfault [_, _] rfl
    · refine runsTx_ask (fun _ => rfl) (fun _ _ => rfl) (fun _ _ => trivial) (fun _ => trivial) ?_
      intro existing
      cases existing with
      | none =>
          refine runsTx_ask (fun _ => rfl) (fun _ _ => rfl) (fun _ _ => trivial)
            (fun _ => trivial) ?_
          intro pending
          exact runsTx_insertInvitation horganization (by simp)
            (fun result => h [_, _, _, _, _] result rfl) fun _ => hfault [_, _, _, _] rfl
      | some user =>
          refine runsTx_ask (fun _ => rfl) (fun _ _ => rfl) (fun _ _ => rfl)
            (fun _ => trivial) ?_
          intro roles
          split
          · exact runsTx_invited_none (h [_, _, _, _, _] _ rfl) fun _ =>
              hfault [_, _, _, _] rfl
          · refine runsTx_ask (fun _ => rfl) (fun _ _ => rfl) (fun _ _ => trivial)
              (fun _ => trivial) ?_
            intro pending
            exact runsTx_insertInvitation horganization (by simp)
              (fun result => h [_, _, _, _, _, _] result rfl) fun _ =>
                hfault [_, _, _, _, _] rfl

theorem runs_inviteOrganizationMember (actor workspace : Uuid) (email : String)
    (role : OrganizationRole) :
    Runs env start i [.called (.inviteOrganizationMember actor workspace email role)]
      (WorkspaceControl.inviteOrganizationMember env i actor workspace email role) := by
  unfold WorkspaceControl.inviteOrganizationMember
  split
  · exact runs_fail rfl
  · refine runs_getWorkspaceAccess (fun reads hreads => ?_) fun reads access haccess => ?_
    · exact runs_fail (plain_append _ hreads rfl)
    · dsimp only
      split
      · exact runs_fail (plain_append _ haccess.plain rfl)
      · refine runs_count fun count => ?_
        split
        · exact runs_fail (plain_append [_] rfl (plain_append _ haccess.plain rfl))
        · refine runs_clock fun now => ?_
          have hplain : ∀ pre : List Event, pre.all Event.invites = true →
              (pre ++ Event.clock now :: Event.counted "organization_invite"
                (.member actor workspace) 86400 count :: (reads ++ [Event.called
                  (.inviteOrganizationMember actor workspace email role)])).all
                Event.plain = true :=
            fun pre hpre => plain_append _ (plain_of_invites hpre)
              (plain_append [_, _] rfl (plain_append _ haccess.plain rfl))
          refine runs_createOrganizationInvitation (fun pre result hpre => ?_) fun pre hpre =>
            runs_fail (hplain pre hpre)
          cases result with
          | none => exact runs_fail (hplain pre hpre)
          | some invitation =>
              refine runs_send ?_ fun delivered => ?_
              · intro user token hash hmem
                exfalso
                simp only [List.mem_append, List.mem_cons, reduceCtorEq, List.not_mem_nil,
                  or_false, false_or] at hmem
                rcases hmem with h | h
                · cases List.all_eq_true.mp hpre _ h
                · cases haccess with
                  | personal => simp at h
                  | member => simp at h
              · cases delivered with
                | false =>
                    exact runs_revokeOrganizationInvitation
                      (runs_fail (plain_append [_, _] rfl (hplain pre hpre)))
                      (runs_fail (plain_append [_] rfl (hplain pre hpre)))
                | true => exact runs_done (plain_append [_] rfl (hplain pre hpre)) trivial

theorem acceptable_some {normalizeEmail : String → String} {args : AcceptArgs}
    {invitation : Option Invitation} {user : Option User} {row : Invitation}
    {role : OrganizationRole}
    (h : acceptable normalizeEmail args invitation user = some (row, role)) :
    invitation = some row ∧ role ≠ .owner := by
  unfold acceptable at h
  split at h
  · split at h
    · cases h
    · split at h
      · cases h
      · split at h
        · cases h
          exact ⟨rfl, by simp⟩
        · cases h
          exact ⟨rfl, by simp⟩
        · cases h
  · cases h

theorem guarantees_grant {R : Db → Db → Prop}
    (hadd : ∀ d id row, R d ((DbChange.addBinding id row).apply d))
    (user org grantedBy : Uuid) (removed : List Uuid) (entry : Uuid × Uuid) :
    (grant user org grantedBy removed entry).Guarantees R :=
  (guarantees_reserve R _ _).bind fun _ => ⟨fun d => hadd d _ _, trivial⟩

theorem keeps_organizations_join (args : AcceptArgs) (admission : Admission) :
    (join args admission).Guarantees (Tx.Keeps Db.organizations) :=
  (Tx.guarantees_each (guarantees_grant (fun _ _ _ => rfl) _ _ _ _) _).bind fun _ =>
    ⟨fun _ => rfl, trivial⟩

/-- What the service makes of a transaction: its answer, or an error that it does not know. -/
def concluded {α β : Type} (answer : α → β) : Except (Fault AuthError) α → Proc β
  | .ok result => .done (answer result)
  | .error _ => .raise .unhandled

/-- The transaction of an acceptance. -/
theorem runs_acceptInvitation {user : Uuid} {token : Token} {now : Time}
    {k : Option WorkspaceSummary → Proc Result}
    (hnone : ∀ pre : List Event, pre.all Event.plain = true → Runs env start i
      (pre ++ [.clock now, .called (.acceptOrganizationInvitation user token)]) (k none))
    (hsome : ∀ (pre : List Event) args admission summary, pre.all Event.plain = true →
      args.userId = user → summary.workspaceId = admission.invitation.orgId →
      Runs env start i
        (.workspace (.accepted args (some admission) (some summary)) ::
          (pre ++ [.clock now, .called (.acceptOrganizationInvitation user token)]))
        (k (some summary)))
    (hfault : ∀ pre : List Event, pre.all Event.plain = true → Runs env start i
      (pre ++ [.clock now, .called (.acceptOrganizationInvitation user token)])
      (.raise .unhandled)) :
    Runs env start i [.clock now, .called (.acceptOrganizationInvitation user token)]
      (acceptOrganizationInvitation env.normalizeEmail ⟨user, env.tokenHash token, now, i⟩
        >>= k) := by
  have hquit : ∀ (pre : List Event) (seen : List ((row : Row) × row.View)),
      pre.all Event.plain = true →
      RunsTx env start i
        (pre ++ [.clock now, .called (.acceptOrganizationInvitation user token)])
        (fun result => .workspace
          (.accepted ⟨user, env.tokenHash token, now, i⟩ result.1 result.2))
        (fun result => concluded Prod.snd result >>= k)
        seen id (pure (none, none)) := by
    intro pre seen hpre
    refine runsTx_return ?_ (hnone (_ :: pre) hpre) fun _ => hfault pre hpre
    intro c htrace _
    exact records_of_tells htrace rfl rfl trivial rfl
  refine runs_txn (runsTx_ask (fun _ => rfl) (fun _ _ => rfl) (fun _ _ => trivial)
    (fun _ => trivial) fun found => ?_)
  cases found with
  | none => exact hquit [_] _ rfl
  | some found =>
      refine runsTx_lock (fun invitation => ?_) (hfault [_] rfl)
      refine runsTx_ask (fun _ => rfl) (fun _ _ => rfl) (fun _ _ => trivial)
        (fun _ => trivial) fun owner => ?_
      cases hacceptable : acceptable env.normalizeEmail ⟨user, env.tokenHash token, now, i⟩
          invitation owner with
      | none => exact hquit [_, _] _ rfl
      | some accepted =>
          obtain ⟨row, role⟩ := accepted
          obtain ⟨rfl, hrole⟩ := acceptable_some hacceptable
          refine runsTx_ask (fun _ => rfl) (fun _ _ => rfl) (fun _ _ => rfl)
            (fun _ => trivial) fun held => ?_
          split
          · exact hquit [_, _, _] _ rfl
          · rename_i hheld
            have hempty : held = [] := by simpa using hheld
            subst hempty
            refine runsTx_ask (fun _ => rfl) (fun _ _ => rfl) (fun _ _ => rfl)
              (fun _ => trivial) fun catalog => ?_
            split
            · exact hquit [_, _, _, _] _ rfl
            · rename_i hcatalog
              refine runsTx_bind (lockOnly_join _ _) ?_ fun _ => hfault [_, _, _, _] rfl
              intro _ seen pending hjoined
              have hrow : ∀ d, Protocol.Current (L := schema) seen d →
                  d.invitations.get found.1 = some row := by
                intro d hd
                exact (hjoined d hd).1 ⟨.invitation found.1, some row⟩ List.mem_cons_self
              refine runsTx_ask (fun _ => rfl) (fun _ _ => rfl) ?_ (fun _ => trivial) ?_
              · intro c hcurrent
                change (pending c.db).organizations.get row.orgId = c.db.organizations.get row.orgId
                rw [Tx.keeps_of_reflTransGen
                  ((keeps_organizations_join _ _).alone (hjoined c.db hcurrent).2 c.db)]
                rfl
              · intro organization
                have hcatalog' : catalog ≠ [] := by simpa using hcatalog
                cases organization with
                | none =>
                    refine runsTx_return ?_ (hnone [_, _, _, _, _, _] rfl)
                      fun _ => hfault [_, _, _, _, _] rfl
                    intro c htrace hcurrent
                    refine records_of_commit htrace rfl rfl (hrow c.db hcurrent)
                      ⟨.intro hrole hcatalog', by simp⟩ ?_
                    exact Tx.alone_bind_ok (hjoined c.db hcurrent).2
                | some organization =>
                    refine runsTx_lockOnly trivial ?_ ?_ fun _ => hfault [_, _, _, _, _] rfl
                    · intro c htrace hcurrent b change halone
                      cases halone
                      refine records_of_commit htrace rfl rfl (hrow c.db hcurrent)
                        ⟨.intro hrole hcatalog', ?_⟩ ?_
                      · intro summary heq
                        cases heq
                        rfl
                      · exact Tx.alone_bind_ok (hjoined c.db hcurrent).2
                    · rintro b ⟨d, change, _, halone⟩
                      cases halone
                      exact hsome [_, _, _, _, _] _ _ _ rfl rfl rfl

theorem runs_acceptOrganizationInvitation (user : Uuid) (token : Token) :
    Runs env start i [.called (.acceptOrganizationInvitation user token)]
      (WorkspaceControl.acceptOrganizationInvitation env i user token) := by
  unfold WorkspaceControl.acceptOrganizationInvitation
  refine runs_clock fun now => runs_acceptInvitation ?_ ?_ ?_
  · intro pre hpre
    exact runs_fail (plain_append _ hpre rfl)
  · rintro pre args admission summary hpre rfl hworkspace
    refine runs_delete ?_ (runs_done (plain_append [_, _] rfl (plain_append _ hpre rfl)) trivial)
    change Restores _ _ _
    rw [hworkspace]
    exact .intro
  · intro pre hpre
    exact runs_fail (plain_append _ hpre rfl)

theorem runsTx_guardLastOwner {β : Type} {event : β → Event}
    {k : Except (Fault AuthError) β → Proc Result} {seen : List ((row : Row) × row.View)}
    {org : Uuid} {removes : Bool} {rest : Unit → Trans β}
    (h : ∀ guard, OwnerGuard org removes guard →
      RunsTx env start i (guard ++ t) event k seen id (rest ()))
    (hlast : ∀ owners, Runs env start i (.workspace (.ownerCount org owners) :: t)
      (k (.error (.thrown .lastOwner)))) :
    RunsTx env start i t event k seen id (guardLastOwner org removes >>= rest) := by
  cases removes with
  | false => exact h [] .skipped
  | true =>
      unfold guardLastOwner
      rw [if_pos rfl, Tx.bind_assoc]
      refine runsTx_ask (fun _ => rfl) (fun _ _ => rfl) (fun _ _ => rfl) (fun _ => trivial) ?_
      intro owners
      by_cases howners : owners ≤ 1
      · rw [if_pos howners]
        exact runsTx_raise (hlast owners)
      · rw [if_neg howners]
        exact h [_] (.passed (by omega))

theorem OwnerGuard.plain {org : Uuid} {removes : Bool} {guard : List Event}
    (h : OwnerGuard org removes guard) : guard.all Event.plain = true := by
  cases h with
  | skipped => rfl
  | passed => rfl

/-- The transaction of a role replacement. -/
theorem runs_replaceRole {actor workspace member : Uuid} {role : OrganizationRole} {now : Time}
    {k : Except (Fault AuthError) (Option RoleChange × Option MemberSummary) → Proc Result}
    (hok : ∀ (t : List Event) result, t.all Event.plain = true →
      Runs env start i t (k (.ok result)))
    (hfault : ∀ (t : List Event) fault, t.all Event.plain = true →
      Runs env start i t (k (.error fault))) :
    Runs env start i [.clock now, .called (.replaceMemberRole actor workspace member role)]
      (WorkspaceRepository.replaceMemberRole ⟨actor, workspace, member, now, i⟩ role >>= k) := by
  have hquit : ∀ (t : List Event) (seen : List ((row : Row) × row.View)),
      t.all Event.plain = true →
      RunsTx env start i t
        (fun result => .workspace
          (.replaced ⟨actor, workspace, member, now, i⟩ role result.1 result.2))
        (fun result => Prog.done result >>= k) seen id (pure (none, none)) := by
    intro t seen ht
    refine runsTx_return ?_ (hok _ (none, none) (plain_append [_] rfl ht)) fun fault =>
      hfault t fault ht
    intro c htrace _
    exact records_of_tells htrace rfl rfl trivial trivial
  refine runs_txn (runsTx_ask (fun _ => rfl) (fun _ _ => rfl) (fun _ _ => trivial)
    (fun _ => trivial) fun allowed => ?_)
  cases allowed with
  | false => exact hquit _ _ rfl
  | true =>
      refine runsTx_ask (fun _ => rfl) (fun _ _ => rfl) (fun _ _ => rfl) (fun _ => trivial) ?_
      intro current
      by_cases hcurrent : current.isEmpty = true
      · simp only [hcurrent, if_true]
        exact hquit _ _ rfl
      · simp only [hcurrent]
        refine runsTx_guardLastOwner (fun guard hguard => ?_) fun owners => hfault _ _ rfl
        refine runsTx_ask (fun _ => rfl) (fun _ _ => rfl) (fun _ _ => rfl) (fun _ => trivial) ?_
        intro catalog
        by_cases hcatalog : catalog.isEmpty = true
        · simp only [hcatalog, if_true]
          exact hquit _ _ (plain_append [_] rfl (plain_append _ hguard.plain rfl))
        · simp only [hcatalog]
          refine runsTx_ask (fun _ => rfl) (fun _ _ => rfl) (fun _ _ => rfl) (fun _ => trivial) ?_
          intro found
          refine runsTx_bind (lockOnly_swapRole _ _) ?_ fun fault =>
            hfault _ fault (plain_append [_, _] rfl (plain_append _ hguard.plain rfl))
          intro _ seen pending hswapped
          refine runsTx_ask (fun _ => rfl) (fun _ _ => rfl) (fun _ _ => trivial)
            (fun _ => trivial) ?_
          intro user
          have hplain := fun events : List Event => fun hevents : events.all Event.plain = true =>
            plain_append events hevents (plain_append guard hguard.plain
              (t := [.workspace (.roles member workspace current),
                .workspace (.permission actor workspace "members.manage" true), .clock now,
                .called (.replaceMemberRole actor workspace member role)]) rfl)
          have hroles : current ≠ [] := by simpa using hcurrent
          have hentries : catalog ≠ [] := by simpa using hcatalog
          cases user with
          | none =>
              refine runsTx_return ?_ (hok _ _ (hplain [_, _, _, _] rfl)) fun fault =>
                hfault _ fault (hplain [_, _, _] rfl)
              intro c htrace hcurrent
              exact records_of_commit htrace rfl rfl trivial (.intro hroles hentries hguard)
                (Tx.alone_bind_ok (hswapped c.db hcurrent).2)
          | some user =>
              refine runsTx_lockOnly trivial ?_ (fun result _ => hok _ _ ?_) fun fault =>
                hfault _ fault (hplain [_, _, _] rfl)
              · intro c htrace hcurrent b change halone
                cases halone
                exact records_of_commit htrace rfl rfl trivial (.intro hroles hentries hguard)
                  (Tx.alone_bind_ok (hswapped c.db hcurrent).2)
              · exact hplain [_, _, _, _] rfl

theorem runs_replaceMemberRole (actor workspace member : Uuid) (role : OrganizationRole) :
    Runs env start i [.called (.replaceMemberRole actor workspace member role)]
      (WorkspaceControl.replaceMemberRole i actor workspace member role) := by
  unfold WorkspaceControl.replaceMemberRole
  refine runs_clock fun now => runs_replaceRole (fun t result ht => ?_) fun t fault ht =>
    runs_fail ht
  obtain ⟨change, summary⟩ := result
  cases summary with
  | none => exact runs_fail ht
  | some summary => exact runs_done ht trivial

theorem OwnerGuard.still {org : Uuid} {removes : Bool} {guard : List Event}
    (h : OwnerGuard org removes guard) (ht : t.all Event.still = true) :
    (guard ++ t).all Event.still = true := by
  cases h with
  | skipped => exact ht
  | passed => exact ht

theorem OwnerGuard.called {org : Uuid} {removes : Bool} {guard : List Event} {call : Call}
    (h : OwnerGuard org removes guard) (hcall : .called call ∈ guard ++ t) :
    .called call ∈ t := by
  cases h with
  | skipped => exact hcall
  | passed => simpa using hcall

/-- The transaction of an offboarding. -/
theorem runs_offboard {actor workspace member : Uuid} {now : Time}
    {k : Except (Fault AuthError) (Option Departure × Option OffboardResult) → Proc Result}
    (hok : ∀ (t : List Event) departure jtis, t.all Event.still = true →
      (∀ call, .called call ∈ t → call = .offboardMember actor workspace member) →
      Runs env start i
        (.workspace (.offboarded ⟨actor, workspace, member, now, i⟩ (some departure)
          (some ⟨member, jtis⟩)) :: t)
        (k (.ok (some departure, some ⟨member, jtis⟩))))
    (hnone : ∀ (t : List Event), t.all Event.still = true →
      Runs env start i t (k (.ok (none, none))))
    (hfault : ∀ (t : List Event) fault, t.all Event.still = true →
      Runs env start i t (k (.error fault))) :
    Runs env start i [.clock now, .called (.offboardMember actor workspace member)]
      (WorkspaceRepository.offboardMember ⟨actor, workspace, member, now, i⟩ >>= k) := by
  have hquit : ∀ (t : List Event) (seen : List ((row : Row) × row.View)),
      t.all Event.still = true →
      RunsTx env start i t
        (fun result => .workspace
          (.offboarded ⟨actor, workspace, member, now, i⟩ result.1 result.2))
        (fun result => Prog.done result >>= k) seen id (pure (none, none)) := by
    intro t seen ht
    refine runsTx_return ?_ (hnone _ ?_) fun fault => hfault t fault ht
    · intro c htrace _
      exact records_of_tells htrace rfl rfl trivial rfl
    · exact ht
  refine runs_txn (runsTx_ask (fun _ => rfl) (fun _ _ => rfl) (fun _ _ => trivial)
    (fun _ => trivial) fun allowed => ?_)
  cases allowed with
  | false => exact hquit _ _ rfl
  | true =>
      refine runsTx_ask (fun _ => rfl) (fun _ _ => rfl) (fun _ _ => rfl) (fun _ => trivial) ?_
      intro current
      by_cases hcurrent : current.isEmpty = true
      · simp only [hcurrent, if_true]
        exact hquit _ _ rfl
      · simp only [hcurrent]
        refine runsTx_guardLastOwner (fun guard hguard => ?_) fun owners => hfault _ _ rfl
        refine runsTx_ask (fun _ => rfl) (fun _ _ => rfl) (fun _ _ => rfl) (fun _ => trivial) ?_
        intro found
        refine runsTx_bind (Tx.lockOnly_collect (lockOnly_revokeBinding _ _ _) _) ?_ fun fault =>
          hfault _ fault (hguard.still rfl)
        intro removed seen pending hrevoked
        refine runsTx_ask (fun _ => rfl) (fun _ _ => rfl) (fun _ _ => trivial)
          (fun _ => trivial) ?_
        intro sessions
        have hroles : current ≠ [] := by simpa using hcurrent
        refine runsTx_lockOnly ((lockOnly_unscopeAll _ _).bind fun _ => trivial) ?_ ?_
          fun fault => hfault _ fault (hguard.still rfl)
        · intro c htrace hcurrent b change halone
          obtain ⟨jtis, unscoped, hunscoped, hrest⟩ := Tx.alone_bind_eq_ok halone
          cases hrest
          refine records_of_commit htrace rfl rfl trivial ⟨.intro hroles hguard, jtis, rfl⟩ ?_
          unfold offboardWrites
          rw [Tx.alone_bind_ok (hrevoked c.db hcurrent).2, Tx.alone_bind_ok hunscoped]
          rfl
        · rintro b ⟨d, change, _, halone⟩
          obtain ⟨jtis, unscoped, _, hrest⟩ := Tx.alone_bind_eq_ok halone
          cases hrest
          refine hok _ _ _ (hguard.still rfl) fun call hcall => ?_
          simp only [List.mem_cons, reduceCtorEq, false_or] at hcall
          simpa using hguard.called hcall

theorem runs_revokeJtis {jtis : List Uuid} {k : Unit → Proc Result}
    (h : Runs env start i ((jtis.map Event.revokesAccess).reverse ++ t) (k ())) :
    Runs env start i t
      (Prog.each (fun jti => Redis.revokeAccessToken jti accessTtlSeconds) jtis >>= k) := by
  induction jtis generalizing t with
  | nil => exact h
  | cons jti rest ih =>
      unfold Prog.each
      rw [Prog.bind_assoc]
      refine runs_set rfl (ih ?_)
      simpa [Event.revokesAccess] using h

/-- The end of a successful offboarding: every replaced access token has been
revoked in the store. -/
theorem returns_offboarded {actor org member : Uuid} {now cutoff : Time}
    {departure : Departure} {jtis : List Uuid} {call : Nat}
    (ht : t.all Event.still = true)
    (hcalls : ∀ call, .called call ∈ t → call = .offboardMember actor org member) :
    Returns
      ((jtis.map Event.revokesAccess).reverse ++
        .put (.organizationRevocation member org) (wholeSecond cutoff)
          userRevocationTtlSeconds ::
        .clock cutoff ::
        .workspace (.offboarded ⟨actor, org, member, now, call⟩ (some departure)
          (some ⟨member, jtis⟩)) :: t) (.ok .nothing) := by
  have hcalled : ∀ request, .called request ∈
      (jtis.map Event.revokesAccess).reverse ++
        .put (.organizationRevocation member org) (wholeSecond cutoff)
          userRevocationTtlSeconds ::
        .clock cutoff ::
        .workspace (.offboarded ⟨actor, org, member, now, call⟩ (some departure)
          (some ⟨member, jtis⟩)) :: t →
      request = .offboardMember actor org member := by
    intro request hmem
    refine hcalls request ?_
    simpa [Event.revokesAccess] using hmem
  constructor
  case settled =>
    intro e he jti hjti
    simp only [List.mem_append, List.mem_reverse, List.mem_map, List.mem_cons] at he
    rcases he with ⟨other, _, rfl⟩ | rfl | rfl | rfl | hold
    · cases hjti
    · cases hjti
    · cases hjti
    · exact List.mem_append_left _ (List.mem_reverse.mpr (List.mem_map_of_mem hjti))
    · rw [Event.displaces_of_still (List.all_eq_true.mp ht e hold)] at hjti
      cases hjti
  case pair => exact fun _ heq => by cases heq
  case claims => exact fun _ heq => by cases heq
  case decision => exact fun _ heq => by cases heq
  case refresh => exact fun _ _ _ hcall => by cases hcalled _ hcall
  case suspend => exact fun _ _ _ hcall => by cases hcalled _ hcall
  case offboard =>
    intro _ _ _ _ hcall _
    cases hcalled _ hcall
    exact .intro
  case reset => exact fun _ _ _ hcall => by cases hcalled _ hcall
  case conflict =>
    intro _ hcall hmoves
    cases hcalled _ hcall
    cases hmoves
  case authenticate => exact fun _ _ _ heq => by cases heq

theorem runs_offboardMember (actor workspace member : Uuid) :
    Runs env start i [.called (.offboardMember actor workspace member)]
      (WorkspaceControl.offboardMember i actor workspace member) := by
  unfold WorkspaceControl.offboardMember
  refine runs_clock fun now => runs_offboard ?_ ?_ ?_
  · intro t departure jtis ht hcalls
    dsimp only
    unfold SessionControl.revokeOrganizationAccess
    rw [Prog.bind_assoc]
    refine runs_clock fun cutoff => ?_
    rw [Prog.bind_assoc]
    refine runs_set ⟨.intro, rfl⟩ (runs_revokeJtis (runs_return ?_))
    exact returns_offboarded ht hcalls
  · intro t ht
    exact runs_raise (.error_of_still ht)
  · intro t fault ht
    exact runs_raise (.error_of_still ht)

theorem runs_scopeSession {args : ScopeArgs} {k : Option Uuid → Proc Result}
    (h : ∀ found, Runs env start i (.session (.scoped args found none) ::
      .session (.scopeFound args found) :: t) (k none))
    (hscoped : ∀ found, ∃ claims workspace,
      Scopes i claims workspace (.session (.scopeFound args found) :: t) args found)
    (hsome : ∀ found previous, Runs env start i (.session (.scoped args found (some previous)) ::
      .session (.scopeFound args found) :: t) (k (some previous)))
    (hfault : ∀ found, Runs env start i (.session (.scopeFound args found) :: t)
      (.raise .unhandled)) :
    Runs env start i t (SessionRepository.scopeSession args >>= k) := by
  refine runs_lookup (lockOnly_scopeMatch _) (fun _ => rfl) (fun _ _ => rfl) (fun _ => rfl)
    (fun _ => trivial) (fun _ _ => rfl) (fun _ _ => rfl) (fun _ _ => trivial)
    (fun found _ => hscoped found) (fun found previous => ?_) fun found _ => hfault found
  cases previous with
  | none => exact h found
  | some previous => exact hsome found previous

theorem runs_switchWorkspace (token : AccessClaims) (workspace : Uuid) :
    Runs env start i [.called (.switchWorkspace token workspace)]
      (WorkspaceControl.switchWorkspace i token workspace) := by
  unfold WorkspaceControl.switchWorkspace
  refine runs_authenticate (fun pre t error ht hpre _ => ?_) fun auth hpassed => ?_
  · subst ht
    exact .error_of_plain (plain_append pre hpre rfl)
  have hauth := hpassed.plain rfl
  refine runs_getWorkspaceAccess (fun reads hreads => ?_) fun reads access haccess => ?_
  · exact runs_fail (plain_append _ hreads hauth)
  · have hplain := plain_append _ haccess.plain hauth
    unfold SessionControl.issueWorkspaceScope
    dsimp only
    rw [Prog.bind_assoc]
    refine runs_clock fun now => ?_
    rw [Prog.bind_assoc]
    refine runs_scopeSession (fun found => ?_) (fun found => ?_) (fun found previous => ?_)
      fun found => ?_
    · have hstill := still_of_plain hplain
      exact runs_raise (.error_of_still hstill)
    · exact ⟨token, access, .intro hpassed haccess⟩
    · have hbase := plain_append [.session (.scopeFound
        (SessionControl.scopeArgs i token access now) found), .clock now] rfl hplain
      dsimp only
      rw [Prog.bind_assoc]
      refine runs_set rfl ?_
      rw [Prog.bind_assoc]
      refine runs_issue (.scoped (.intro hpassed haccess)) ?_
      dsimp only
      rw [Prog.bind_assoc]
      refine runs_audit (fun entry => ?_) ?_
      · refine runs_return (.of_settled (Settled.append [_, _] ?_ (settled_scoped hbase)) ?_ ?_)
        · simp [Event.displaces]
        · intro call hcall
          refine List.all_eq_true.mp hbase _ ?_
          simpa using hcall
        · intro value heq
          cases heq
          trivial
      · refine runs_raise (.unhandled (Settled.append [_] ?_ (settled_scoped hbase)) ?_)
        · simp [Event.displaces]
        · intro claims hcall
          cases List.all_eq_true.mp hbase _ (show .called (.authenticate claims) ∈ _ by
            simpa [Event.revokesAccess] using hcall)
    · exact runs_fail (plain_append [_, _] rfl hplain)

end AuthCore
