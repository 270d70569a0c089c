/-
Suspension and erasure keep to the ledger.
-/
import AuthCore.History.Workspaces
import AuthCore.History.Erasure

namespace AuthCore

open Interleave PrivacyRepository

variable {env : Env} {start : Core Db World} {i : Nat} {t : List Event}

theorem lockOnly_suspend (target actor : Uuid) :
    (RecoveryRepository.suspend target actor).LockOnly := by
  refine (lockOnly_lockRow _).bind fun user => ?_
  split
  · trivial
  · split <;> trivial

theorem runs_suspendUser {actor target : Uuid} {k : Bool → Proc Result}
    (hok : ∀ result, Runs env start i (.account (.suspended target actor result) :: t) (k result))
    (hfault : Runs env start i t (.raise .unhandled)) :
    Runs env start i t (RecoveryRepository.suspendUser actor target >>= k) := by
  refine runs_transact (lockOnly_suspend _ _) (fun _ => rfl) (fun _ _ => rfl) ?_ ?_ hok hfault
  · exact fun _ _ => trivial
  · exact fun _ => trivial

theorem called_revocations {values : List RevocationResult} {call : Call}
    (h : .called call ∈ revocations values ++ t) : .called call ∈ t := by
  rcases List.mem_append.mp h with hnew | hold
  · simp [revocations, Event.revokesAccess, Event.revokesFamily] at hnew
  · exact hold

/-- The end of a successful suspension. -/
theorem returns_suspended (claims : AccessClaims) {target actor : Uuid} {now : Time}
    {found : List SessionMatch} {results : List RevocationResult}
    (ht : ∀ e ∈ t, e.displaces = [])
    (hcalls : ∀ call, .called call ∈ t → call = .suspend claims target) :
    Returns
      (revocations results ++
        .put (.userRevocation target) (wholeSecond now) userRevocationTtlSeconds ::
        .session (.revokedAll ⟨target, "account_suspended", now⟩ found results) ::
        .session (.activeSessions target found) :: .clock now ::
        .account (.suspended target actor true) :: t) (.ok .nothing) := by
  have hcalled : ∀ call, .called call ∈ revocations results ++
        .put (.userRevocation target) (wholeSecond now) userRevocationTtlSeconds ::
        .session (.revokedAll ⟨target, "account_suspended", now⟩ found results) ::
        .session (.activeSessions target found) :: .clock now ::
        .account (.suspended target actor true) :: t →
      call = .suspend claims target := by
    intro call hcall
    exact hcalls call (by simpa using called_revocations hcall)
  constructor
  case settled =>
    refine .of_empty fun e he => ?_
    simp only [revocations, List.mem_append, List.mem_reverse, List.mem_flatMap, List.mem_cons,
      List.not_mem_nil, or_false] at he
    rcases he with ⟨_, _, rfl | rfl⟩ | rfl | rfl | rfl | rfl | rfl | hold
    · rfl
    · rfl
    · rfl
    · rfl
    · rfl
    · rfl
    · rfl
    · exact ht e hold
  case pair => exact fun _ heq => by cases heq
  case claims => exact fun _ heq => by cases heq
  case decision => exact fun _ heq => by cases heq
  case refresh => exact fun _ _ _ hcall => by cases hcalled _ hcall
  case suspend =>
    intro _ _ _ hcall _
    cases hcalled _ hcall
    exact .intro
  case offboard => exact fun _ _ _ _ hcall => by cases hcalled _ hcall
  case reset => exact fun _ _ _ hcall => by cases hcalled _ hcall
  case conflict =>
    intro _ hcall hmoves
    cases hcalled _ hcall
    cases hmoves
  case authenticate => exact fun _ _ _ heq => by cases heq

theorem runs_suspend (claims : AccessClaims) (target : Uuid) :
    Runs env start i [.called (.suspend claims target)]
      (SupportAdminControl.suspend claims target) := by
  unfold SupportAdminControl.suspend
  split
  · exact runs_raise (.error_of_still rfl)
  · refine runs_look (fun _ => rfl) (fun _ _ => rfl) (fun _ => trivial) (fun _ => trivial) ?_
    intro allowed
    cases allowed with
    | false => exact runs_raise (.error_of_still rfl)
    | true =>
        refine runs_suspendUser (fun suspended => ?_) (runs_raise (.error_of_still rfl))
        cases suspended with
        | false => exact runs_raise (.error_of_still rfl)
        | true =>
            refine runs_revokeUserAccess (fun now found results => runs_return ?_) fun _ _ =>
              runs_raise (.error_of_still rfl)
            exact returns_suspended claims (by simp [Event.displaces]) (by simp)

/-- The guard of erasure counts the other owners of each owned organization
until one has none. -/
theorem runsTx_anyWithoutOthers {β : Type} {event : β → Event}
    {k : Except (Fault AuthError) β → Proc Result} {seen : List ((row : Row) × row.View)}
    {user : Uuid} {rest : Bool → Trans β} (owned : List Uuid)
    (hsole : ∀ pre : List Event, pre.all Event.preparatory = true →
      RunsTx env start i (pre ++ t) event k seen id (rest true))
    (hnone : ∀ others : List Event, others.all Event.preparatory = true →
      (∀ org ∈ owned, ∃ n, n ≠ 0 ∧ .account (.otherOwners user org n) ∈ others) →
      RunsTx env start i (others ++ t) event k seen id (rest false)) :
    RunsTx env start i t event k seen id (anyWithoutOthers user owned >>= rest) := by
  induction owned generalizing t with
  | nil => exact hnone [] rfl (by simp)
  | cons org orgs ih =>
      unfold anyWithoutOthers
      rw [Tx.bind_assoc]
      refine runsTx_ask (fun _ => rfl) (fun _ _ => rfl) (fun _ _ => rfl) (fun _ => trivial) ?_
      intro others
      by_cases hzero : others = 0
      · rw [if_pos hzero]
        exact hsole [_] rfl
      · rw [if_neg hzero]
        refine ih (fun pre hpre => ?_) fun counted hcalm hcounted => ?_
        · have h := hsole (pre ++ [.account (.otherOwners user org others)])
            (preparatory_append pre hpre rfl)
          simpa using h
        · have h := hnone (counted ++ [.account (.otherOwners user org others)])
            (preparatory_append counted hcalm rfl) ?_
          · simpa using h
          · intro other hother
            rcases List.mem_cons.mp hother with rfl | hrest
            · exact ⟨others, hzero, by simp⟩
            · obtain ⟨n, hn, hmem⟩ := hcounted other hrest
              exact ⟨n, hn, by simp [hmem]⟩

theorem runsTx_hasSoleOwnedOrganization {β : Type} {event : β → Event}
    {k : Except (Fault AuthError) β → Proc Result} {seen : List ((row : Row) × row.View)}
    {user : Uuid} {rest : Bool → Trans β}
    (hsole : ∀ pre : List Event, pre.all Event.preparatory = true →
      RunsTx env start i (pre ++ t) event k seen id (rest true))
    (hnone : ∀ (others : List Event) owned, others.all Event.preparatory = true →
      (∀ org ∈ owned, ∃ n, n ≠ 0 ∧ .account (.otherOwners user org n) ∈ others) →
      RunsTx env start i (others ++ .account (.ownedOrganizations user owned) :: t) event k seen id
        (rest false)) :
    RunsTx env start i t event k seen id (hasSoleOwnedOrganization user >>= rest) := by
  unfold hasSoleOwnedOrganization
  rw [Tx.bind_assoc]
  refine runsTx_ask (fun _ => rfl) (fun _ _ => rfl) (fun _ _ => rfl) (fun _ => trivial) ?_
  intro owned
  refine runsTx_anyWithoutOthers owned (fun pre hpre => ?_) fun others hcalm hcounted => ?_
  · have h := hsole (pre ++ [.account (.ownedOrganizations user owned)])
      (preparatory_append pre hpre rfl)
    simpa using h
  · exact hnone others owned hcalm hcounted

theorem lockOnly_insertRequest (id user : Uuid) (keyHash : Digest) :
    (insertRequest id user keyHash).LockOnly :=
  (lockOnly_reserve _ _).bind fun _ => trivial

/-- The request of an erasure. -/
theorem runs_getOrCreateErasure {id user : Uuid} {keyHash : Digest}
    {k : Option PrivacyRequestRecord × Bool → Proc Result} (hid : id = .drawn i 0)
    (ht : t.all Event.preparatory = true)
    (hok : ∀ (t : List Event) result, t.all Event.preparatory = true →
      (∀ record, result = (some record, true) → record.requestId = id) →
      Runs env start i t (k result)) :
    Runs env start i t (getOrCreateErasure id user keyHash >>= k) := by
  have hquit : ∀ (t : List Event) (seen : List ((row : Row) × row.View)) result,
      t.all Event.preparatory = true → (∀ record, result ≠ (some record, true)) →
      RunsTx env start i t
        (fun result => .account (.requestCreated id user keyHash result))
        (fun result => concluded (fun answer => answer) result >>= k)
        seen (fun d => d) (pure result) := by
    intro t seen result ht hresult
    refine runsTx_return ?_ (hok _ result (preparatory_append [_] rfl ht) fun record heq =>
      absurd heq (hresult record)) fun fault => runs_fail (plain_of_preparatory ht)
    intro c htrace _
    obtain ⟨record, created⟩ := result
    cases record with
    | none => exact records_of_tells htrace rfl rfl trivial trivial
    | some record =>
        cases created with
        | false => exact records_of_tells htrace rfl rfl trivial trivial
        | true => exact absurd rfl (hresult record)
  refine runs_txn (runsTx_ask (fun _ => rfl) (fun _ _ => rfl) (fun _ _ => trivial)
    (fun _ => trivial) fun existing => ?_)
  cases existing with
  | some existing => exact hquit _ _ _ (preparatory_append [_] rfl ht) (by simp)
  | none =>
      refine runsTx_hasSoleOwnedOrganization (fun pre hpre => ?_) fun others owned hcalm _ => ?_
      · exact hquit _ _ _ (preparatory_append _ hpre (preparatory_append [_] rfl ht)) (by simp)
      · have hbase := preparatory_append _ hcalm
          (preparatory_append [.account (.ownedOrganizations user owned),
            .account (.existingRequest user keyHash none)] rfl ht)
        refine runsTx_lockOnly ((lockOnly_insertRequest _ _ _).bind fun _ => trivial) ?_ ?_
          fun fault => runs_fail (plain_of_preparatory hbase)
        · intro c htrace _ b change halone
          obtain ⟨_, hrun, rfl⟩ := alone_bind_ret halone
          exact records_of_commit htrace rfl rfl trivial hid hrun
        · rintro result ⟨d, change, _, halone⟩
          obtain ⟨_, _, rfl⟩ := alone_bind_ret halone
          refine hok _ _ (preparatory_append [_] rfl hbase) fun record heq => ?_
          cases heq
          rfl

theorem lockOnly_deleteFactor (user : Uuid) (found : Uuid × List String) :
    (deleteFactor user found).LockOnly := by
  refine (lockOnly_lockRow _).bind fun row => ?_
  split
  · trivial
  · split <;> trivial

theorem lockOnly_deleteDevice (user id : Uuid) : (deleteDevice user id).LockOnly := by
  refine (lockOnly_lockRow _).bind fun row => ?_
  split
  · trivial
  · split <;> trivial

theorem lockOnly_deleteBinding (user id : Uuid) : (deleteBinding user id).LockOnly := by
  refine (lockOnly_lockRow _).bind fun row => ?_
  split
  · trivial
  · split <;> trivial

theorem lockOnly_deleteIdentity (user id : Uuid) : (deleteIdentity user id).LockOnly := by
  refine (lockOnly_lockRow _).bind fun row => ?_
  split
  · trivial
  · split <;> trivial

theorem lockOnly_deleteFamily (user id : Uuid) : (deleteFamily user id).LockOnly := by
  refine (lockOnly_lockRow _).bind fun family => ?_
  dsimp only
  split
  · trivial
  · split <;> trivial

theorem lockOnly_withdrawInvitation (email pseudonym : String) (id : Uuid) :
    (withdrawInvitation email pseudonym id).LockOnly := by
  refine (lockOnly_lockRow _).bind fun row => ?_
  split
  · trivial
  · split <;> trivial

theorem lockOnly_closePersonal (user : Uuid) (pseudonym : String) (id : Uuid) :
    (closePersonal user pseudonym id).LockOnly := by
  refine (lockOnly_lockRow _).bind fun row => ?_
  split
  · trivial
  · split <;> trivial

theorem lockOnly_cancelExport (user id : Uuid) : (cancelExport user id).LockOnly := by
  refine (lockOnly_lockRow _).bind fun row => ?_
  split
  · trivial
  · split <;> trivial

theorem lockOnly_deleteContactChange (user id : Uuid) :
    (deleteContactChange user id).LockOnly := by
  refine (lockOnly_lockRow _).bind fun row => ?_
  split
  · trivial
  · split <;> trivial

theorem lockOnly_eraseReferrals (user : Uuid) (pseudonym : String) :
    (eraseReferrals user pseudonym).LockOnly :=
  trivial

theorem lockOnly_deleteMailed (user id : Uuid) : (deleteMailed user id).LockOnly := by
  refine (lockOnly_lockRow _).bind fun row => ?_
  split
  · trivial
  · split <;> trivial

/-- The queries of an erasure about whose answer nothing is recorded. -/
theorem found_other {user : Uuid} {what : String} {ids : List Uuid} {d : Db}
    (h : what ∉ ["privacy_export_artifacts", "gdpr_requests", "identities",
      "refresh_token_families"]) : (AccountEvent.found user what ids).Tells d := by
  simp only [List.mem_cons, List.not_mem_nil, or_false, not_or] at h
  exact ⟨fun heq => absurd heq h.1, fun heq => absurd heq h.2.1, fun heq => absurd heq h.2.2.1,
    fun heq => absurd heq h.2.2.2, fun heq => absurd heq h.2.2.1⟩

/-- A statement that leaves a part of the database alone leaves the answers to
questions about it alone. -/
theorem keeps_each {γ ι : Type} {π : Db → γ} {visit : ι → Trans Unit} {is : List ι} {d : Db}
    {pending : Db → Db} {result : Unit × (Db → Db)}
    (h : (Tx.each visit is).alone d pending = .ok result)
    (hvisit : ∀ i, (visit i).Guarantees (Tx.Keeps π)) : π (result.2 d) = π (pending d) :=
  Tx.keeps_of_reflTransGen ((Tx.guarantees_each hvisit is).alone h d)

/-- The statements of an erasure, each on the rows its own query found. -/
theorem runsTx_eraseRows {β : Type} {event : β → Event}
    {k : Except (Fault AuthError) β → Proc Result} {seen : List ((row : Row) × row.View)}
    {args : ErasureArgs} {email phone : Option String} {g : ErasureFound → β}
    (hpresent : ∀ d, Protocol.Current (L := schema) seen d → d.users.get args.userId ≠ none)
    (hcommit : ∀ (found : ErasureFound) (c : Core Db World) change,
      trace i c.store.log = eraseFinds args.userId found ++ t → found.requests.phone = phone →
      Protocol.Current (L := schema) seen c.db →
      (eraseWrites args email found).alone c.db id = .ok ((), change) →
      (ledger env).Records i (event (g found)) c
        ⟨change c.db, c.store.record i (event (g found))⟩)
    (hok : ∀ (finds : List Event) found, finds.all Event.preparatory = true →
      Runs env start i (event (g found) :: (finds ++ t)) (k (.ok (g found))))
    (hfault : ∀ (finds : List Event) fault, finds.all Event.preparatory = true →
      Runs env start i (finds ++ t) (k (.error fault))) :
    RunsTx env start i t event k seen id
      (eraseRows args email phone >>= fun found => pure (g found)) := by
  unfold eraseRows eraseRequests
  dsimp only
  simp only [Tx.bind_assoc]
  refine runsTx_ask (fun _ => rfl) (fun _ _ => rfl) (fun _ _ => ?_) (fun _ => trivial) ?_
  · exact ⟨fun _ => rfl, fun heq => absurd heq (by decide), fun heq => absurd heq (by decide),
      fun heq => absurd heq (by decide), fun heq => absurd heq (by decide)⟩
  intro artifacts
  refine runsTx_bind (lockOnly_write _) ?_ fun fault => hfault [_] fault rfl
  intro _ seen₁ pending₁ h₁
  refine runsTx_ask (fun _ => rfl) (fun _ _ => rfl) (fun c hcurrent => ?_) (fun _ => trivial) ?_
  · refine ⟨fun heq => absurd heq (by decide), fun _ => ?_, fun heq => absurd heq (by decide),
      fun heq => absurd heq (by decide), fun heq => absurd heq (by decide)⟩
    have halone := (h₁ c.db hcurrent).2
    cases halone
    rfl
  intro exports
  refine runsTx_bind (Tx.lockOnly_each (lockOnly_cancelExport _) _) ?_ fun fault =>
    hfault [_, _] fault rfl
  intro _ seen₂ pending₂ h₂
  refine runsTx_ask (fun _ => rfl) (fun _ _ => rfl) (fun _ _ => found_other (by decide))
    (fun _ => trivial) ?_
  intro contactChanges
  refine runsTx_bind (Tx.lockOnly_each (lockOnly_deleteContactChange _) _) ?_ fun fault =>
    hfault [_, _, _] fault rfl
  intro _ seen₃ pending₃ h₃
  refine runsTx_ask (fun _ => rfl) (fun _ _ => rfl) (fun _ _ => found_other (by decide))
    (fun _ => trivial) ?_
  intro mailed
  refine runsTx_bind (Tx.lockOnly_each (lockOnly_deleteMailed _) _) ?_ fun fault =>
    hfault [_, _, _, _] fault rfl
  intro _ seen₄ pending₄ h₄
  rw [Tx.pure_bind]
  -- the statements so far touch neither factors nor identities nor families
  have hkept₄ : ∀ d, Protocol.Current (L := schema) seen₄ d →
      Db.credentialTables (pending₄ d) = Db.credentialTables d := by
    intro d hcurrent
    have e₄ := h₄ d hcurrent
    have e₃ := h₃ d e₄.1
    have e₂ := h₂ d e₃.1
    have halone := (h₁ d e₂.1).2
    calc Db.credentialTables (pending₄ d)
        = Db.credentialTables (pending₃ d) :=
          keeps_each e₄.2 (guarantees_deleteMailed fun _ _ _ _ => rfl)
      _ = Db.credentialTables (pending₂ d) :=
          keeps_each e₃.2 (guarantees_deleteContactChange fun _ _ => rfl)
      _ = Db.credentialTables (pending₁ d) :=
          keeps_each e₂.2 (guarantees_cancelExport fun _ _ _ _ => rfl)
      _ = Db.credentialTables d := by
          cases halone
          rfl
  refine runsTx_ask (fun _ => rfl) (fun _ _ => rfl) (fun c hcurrent => ?_) (fun _ => trivial) ?_
  · obtain ⟨hfactors, _⟩ := Prod.mk.inj (hkept₄ c.db hcurrent)
    obtain ⟨hdevices, hcredentials⟩ := Prod.mk.inj hfactors
    change factorsOf _ (pending₄ c.db) = factorsOf _ c.db
    simp only [factorsOf, hdevices, hcredentials]
  intro factors
  refine runsTx_bind (Tx.lockOnly_each (lockOnly_deleteFactor _) _) ?_ fun fault =>
    hfault [_, _, _, _, _] fault rfl
  intro _ seen₅ pending₅ h₅
  refine runsTx_ask (fun _ => rfl) (fun _ _ => rfl) (fun _ _ => found_other (by decide))
    (fun _ => trivial) ?_
  intro devices
  refine runsTx_bind (Tx.lockOnly_each (lockOnly_deleteDevice _) _) ?_ fun fault =>
    hfault [_, _, _, _, _, _] fault rfl
  intro _ seen₆ pending₆ h₆
  refine runsTx_bind (lockOnly_write _) ?_ fun fault => hfault [_, _, _, _, _, _] fault rfl
  intro _ seen₇ pending₇ h₇
  refine runsTx_ask (fun _ => rfl) (fun _ _ => rfl) (fun _ _ => found_other (by decide))
    (fun _ => trivial) ?_
  intro bindings
  refine runsTx_bind (Tx.lockOnly_each (lockOnly_deleteBinding _) _) ?_ fun fault =>
    hfault [_, _, _, _, _, _, _] fault rfl
  intro _ seen₈ pending₈ h₈
  have hkept₈ : ∀ d, Protocol.Current (L := schema) seen₈ d →
      (pending₈ d).accessTables = d.accessTables := by
    intro d hcurrent
    have e₈ := h₈ d hcurrent
    have e₇ := h₇ d e₈.1
    have e₆ := h₆ d e₇.1
    have e₅ := h₅ d e₆.1
    have hstaff := e₇.2
    calc (pending₈ d).accessTables
        = (pending₇ d).accessTables :=
          keeps_each e₈.2 (guarantees_deleteBinding fun _ _ _ _ => rfl)
      _ = (pending₆ d).accessTables := by
          cases hstaff
          rfl
      _ = (pending₅ d).accessTables :=
          keeps_each e₆.2 (guarantees_deleteDevice fun _ _ _ _ => rfl)
      _ = (pending₄ d).accessTables :=
          keeps_each e₅.2 (guarantees_deleteFactor fun _ _ _ => rfl)
      _ = d.accessTables := congrArg Prod.snd (hkept₄ d e₅.1)
  have hheld₈ : ∀ d, Protocol.Current (L := schema) seen₈ d →
      Protocol.Current (L := schema) seen d := by
    intro d hcurrent
    have e₆ := h₆ d (h₇ d (h₈ d hcurrent).1).1
    have e₃ := h₃ d (h₄ d (h₅ d e₆.1).1).1
    exact (h₁ d (h₂ d e₃.1).1).1
  refine runsTx_ask (fun _ => rfl) (fun _ _ => rfl) (fun c hcurrent => ?_) (fun _ => trivial) ?_
  · refine ⟨fun heq => absurd heq (by decide), fun heq => absurd heq (by decide), fun _ => ?_,
      fun heq => absurd heq (by decide), fun _ => hpresent c.db (hheld₈ c.db hcurrent)⟩
    exact congrArg (fun tables => (tables.1.select fun _ row => row.userId == args.userId).map
      Prod.fst) (hkept₈ c.db hcurrent)
  intro identities
  refine runsTx_bind (Tx.lockOnly_each (lockOnly_deleteIdentity _) _) ?_ fun fault =>
    hfault [_, _, _, _, _, _, _, _] fault rfl
  intro _ seen₉ pending₉ h₉
  refine runsTx_ask (fun _ => rfl) (fun _ _ => rfl) (fun c hcurrent => ?_) (fun _ => trivial) ?_
  · refine ⟨fun heq => absurd heq (by decide), fun heq => absurd heq (by decide),
      fun heq => absurd heq (by decide), fun _ => ?_, fun heq => absurd heq (by decide)⟩
    have e₉ := h₉ c.db hcurrent
    have hfamilies : (pending₉ c.db).families = (pending₈ c.db).families :=
      keeps_each e₉.2 (guarantees_deleteIdentity fun _ _ _ _ => rfl)
    rw [hfamilies, show (pending₈ c.db).families = c.db.families from
      congrArg Prod.snd (hkept₈ c.db e₉.1)]
  intro families
  refine runsTx_bind (Tx.lockOnly_each (lockOnly_deleteFamily _) _) ?_ fun fault =>
    hfault [_, _, _, _, _, _, _, _, _] fault rfl
  intro _ seen₁₀ pending₁₀ h₁₀
  refine runsTx_bind (lockOnly_eraseReferrals _ _) ?_ fun fault =>
    hfault [_, _, _, _, _, _, _, _, _] fault rfl
  intro _ seen₁₁ pending₁₁ h₁₁
  refine runsTx_ask (fun _ => rfl) (fun _ _ => rfl) (fun _ _ => found_other (by decide))
    (fun _ => trivial) ?_
  intro invitations
  refine runsTx_bind (Tx.lockOnly_each (lockOnly_withdrawInvitation _ _) _) ?_ fun fault =>
    hfault [_, _, _, _, _, _, _, _, _, _] fault rfl
  intro _ seen₁₂ pending₁₂ h₁₂
  refine runsTx_ask (fun _ => rfl) (fun _ _ => rfl) (fun _ _ => found_other (by decide))
    (fun _ => trivial) ?_
  intro organizations
  refine runsTx_bind (Tx.lockOnly_each (lockOnly_closePersonal _ _) _) ?_ fun fault =>
    hfault [_, _, _, _, _, _, _, _, _, _, _] fault rfl
  intro _ seen₁₃ pending₁₃ h₁₃
  refine runsTx_lockOnly trivial ?_ ?_ fun fault =>
    hfault [_, _, _, _, _, _, _, _, _, _, _] fault rfl
  · intro c htrace hcurrent b change halone
    cases halone
    have e₁₃ := h₁₃ c.db hcurrent
    have e₁₂ := h₁₂ c.db e₁₃.1
    have e₁₁ := h₁₁ c.db e₁₂.1
    have e₁₀ := h₁₀ c.db e₁₁.1
    have e₉ := h₉ c.db e₁₀.1
    have e₈ := h₈ c.db e₉.1
    have e₇ := h₇ c.db e₈.1
    have e₆ := h₆ c.db e₇.1
    have e₅ := h₅ c.db e₆.1
    have e₄ := h₄ c.db e₅.1
    have e₃ := h₃ c.db e₄.1
    have e₂ := h₂ c.db e₃.1
    have e₁ := h₁ c.db e₂.1
    refine hcommit ⟨factors, devices, bindings, identities, families, invitations,
      organizations, artifacts, exports, contactChanges, mailed, phone⟩ c _ htrace rfl e₁.1 ?_
    unfold eraseWrites eraseRequestWrites
    simp only [Tx.bind_assoc]
    rw [Tx.alone_bind_ok e₁.2, Tx.alone_bind_ok e₂.2, Tx.alone_bind_ok e₃.2,
      Tx.alone_bind_ok e₄.2, Tx.alone_bind_ok e₅.2, Tx.alone_bind_ok e₆.2,
      Tx.alone_bind_ok e₇.2, Tx.alone_bind_ok e₈.2, Tx.alone_bind_ok e₉.2,
      Tx.alone_bind_ok e₁₀.2, Tx.alone_bind_ok e₁₁.2, Tx.alone_bind_ok e₁₂.2,
      Tx.alone_bind_ok e₁₃.2]
    rfl
  · rintro b ⟨d, change, _, halone⟩
    cases halone
    exact hok [_, _, _, _, _, _, _, _, _, _, _] _ rfl

/-- A transaction whose failure the service handles. -/
def attempted {α β : Type} (answer : α → β) : Except (Fault AuthError) α →
    Proc (Except (Fault AuthError) β)
  | .ok result => .done (.ok (answer result))
  | .error fault => .done (.error fault)

theorem runs_executeErasure {args : ErasureArgs}
    {k : Except (Fault AuthError) (Option PrivacyRequestRecord) → Proc Result}
    (hid : args.requestId = .drawn i 0) (ht : t.all Event.preparatory = true)
    (h : ∀ (t : List Event) result, t.all Event.plain = true →
      Runs env start i t (k result)) :
    Runs env start i t (executeErasure args >>= k) := by
  have hquit : ∀ (seen : List ((row : Row) × row.View)) result,
      RunsTx env start i t (fun result => .account (.erased args result.1 result.2))
        (fun result => attempted Prod.snd result >>= k)
        seen id (pure (.nothing, result)) := by
    intro seen result
    have hplain := plain_of_preparatory ht
    refine runsTx_return ?_ (h _ (.ok result) (plain_append [_] rfl hplain)) fun fault =>
      h t (.error fault) hplain
    intro c htrace _
    exact records_of_tells htrace rfl rfl trivial trivial
  refine runs_txn ?_
  refine runsTx_lock (fun request => ?_) (h t _ (plain_of_preparatory ht))
  refine runsTx_lock (fun view => ?_) (h t _ (plain_of_preparatory ht))
  cases request with
  | none => exact hquit _ none
  | some request =>
      cases huser : UserView.row view with
      | none =>
          dsimp only
          exact hquit _ none
      | some user =>
          dsimp only
          split
          · exact hquit _ none
          · split
            · exact hquit _ (some _)
            · refine runsTx_hasSoleOwnedOrganization (fun pre hpre => ?_)
                fun others owned hcalm hcounted => ?_
              · have hbase := plain_of_preparatory (preparatory_append _ hpre ht)
                refine runsTx_lockOnly trivial ?_ (fun result _ => ?_) fun fault =>
                  h _ (.error fault) hbase
                · intro c htrace _ b change halone
                  cases halone
                  exact records_of_commit htrace rfl rfl trivial trivial rfl
                · exact h _ (.ok result.2) (plain_append [_] rfl hbase)
              · have hbase := preparatory_append _ hcalm
                  (preparatory_append [.account (.ownedOrganizations args.userId owned)] rfl ht)
                have hlocked : ∀ d, Protocol.Current (L := schema) [⟨.user args.userId, view⟩,
                    ⟨.request args.requestId, some request⟩] d →
                    d.users.get args.userId = some user := by
                  intro d hcurrent
                  have hview : d.userView args.userId = view :=
                    hcurrent ⟨.user args.userId, view⟩ (by simp)
                  exact (congrArg UserView.row hview).trans huser
                refine runsTx_eraseRows (fun d hcurrent => ?_) ?_ ?_ fun finds fault hfinds =>
                  h _ (.error fault) (plain_of_preparatory (preparatory_append _ hfinds hbase))
                · simp [hlocked d hcurrent]
                · intro found c change htrace hphone hcurrent hrun
                  refine records_of_commit htrace rfl rfl ?_
                    ⟨.intro hcounted, .of_preparatory hid (preparatory_append _ rfl hbase)⟩ hrun
                  exact ⟨user, hlocked c.db hcurrent, rfl, hphone.symm⟩
                · intro finds found hfinds
                  exact h _ (.ok _) (plain_append [_] rfl
                    (plain_of_preparatory (preparatory_append _ hfinds hbase)))

theorem lockOnly_failRequest (id user : Uuid) (code : String) :
    (failRequest id user code).LockOnly := by
  refine (lockOnly_lockRow _).bind fun row => ?_
  split
  · trivial
  · split <;> trivial

theorem runs_failExport {id user : Uuid} {code : String} {k : Unit → Proc Result}
    (hok : Runs env start i (.account (.requestFailed id user code) :: t) (k ()))
    (hfault : Runs env start i t (.raise .unhandled)) :
    Runs env start i t (failExport id user code >>= k) := by
  refine runs_transact (lockOnly_failRequest _ _ _) (fun _ => rfl) (fun _ _ => rfl) ?_ ?_
    (fun _ => hok) hfault
  · exact fun _ _ => trivial
  · exact fun _ => trivial

theorem runs_requestErasure (claims : AccessClaims) (key : String) :
    Runs env start i [.called (.requestErasure claims key)]
      (GDPRControl.requestErasure env i claims key) := by
  unfold GDPRControl.requestErasure
  split
  · exact runs_fail rfl
  · refine runs_getOrCreateErasure rfl rfl fun t result ht hdrawn => ?_
    have hplain := plain_of_preparatory ht
    obtain ⟨request, created⟩ := result
    cases request with
    | none => exact runs_fail hplain
    | some request =>
        dsimp only
        split
        · exact runs_done hplain trivial
        · rename_i hcreated
          refine runs_revokeUserAccess (fun now found results => ?_) fun now found =>
            runs_fail hplain
          refine runs_clock fun now => runs_executeErasure ?_ ?_ fun t outcome ht => ?_
          · exact hdrawn request (by simpa using hcreated)
          · exact preparatory_append [_] rfl
              (preparatory_revocations (preparatory_append [_, _, _, _] rfl ht))
          · cases outcome with
            | error fault => exact runs_failExport (runs_fail ht) (runs_fail ht)
            | ok result =>
                cases result with
                | none => exact runs_fail ht
                | some completed => exact runs_done ht trivial

end AuthCore
