/-
The methods of a second check.  An identity that has been verified is one the
user can be reached by, so whoever may log in has at least one method.
-/
import Mathlib.Data.List.Dedup
import AuthCore.Accounts.StateMachine
import AuthCore.Accounts.TwoRuns
import AuthCore.Codes.UsableMethods
import AuthCore.Erasure.Credentials

namespace AuthCore

open Interleave Relational

/-- The contact that codes go to for the sake of an identity. -/
def IdentityProvider.reaches : IdentityProvider → ContactType
  | .phone => .phone
  | _ => .email

/-- The row is anonymized or has the contact. -/
def User.Reached (contactType : ContactType) (row : User) : Prop :=
  row.state ≠ .anonymized → (DbChange.contactOf row contactType).isSome = true

/-- A row without its date of anonymization is not in the anonymized state, and an
identity comes with a contact. -/
structure Contactable (d : Db) : Prop where
  live : ∀ u row, d.users.get u = some row → row.state ≠ .anonymized → row.anonymizedAt = none
  reached : ∀ id x, d.identities.get id = some x →
    ∃ row, d.users.get x.userId = some row ∧ row.Reached x.provider.reaches

theorem reaches_of_oidc {provider : IdentityProvider} (h : LoginControl.isOidc provider = true) :
    provider.reaches = .email := by
  cases provider with
  | phone => cases h
  | _ => rfl

theorem contactable_of_empty {d : Db} (husers : d.users = ∅) (hidentities : d.identities = ∅) :
    Contactable d where
  live u row hrow := by
    rw [husers] at hrow
    cases hrow
  reached id x hx := by
    rw [hidentities] at hx
    cases hx

section Steps

variable {u : Uuid} {a a' : Account} {e : Event}

theorem contactOf_withContact {row : User} {contactType other : ContactType} {value : String}
    (h : (DbChange.contactOf row other).isSome = true) :
    (DbChange.contactOf (DbChange.withContact row contactType value) other).isSome = true := by
  cases contactType with
  | email =>
      cases other with
      | email => rfl
      | phone => exact h
  | phone =>
      cases other with
      | email => exact h
      | phone => rfl

/-- A row keeps its contacts until it is anonymized. -/
theorem AccountStep.reached (h : AccountStep u a e a') {row : User} (hrow : a.row = some row) :
    ∃ row', a'.row = some row' ∧ (∀ contactType, row.Reached contactType →
      row'.Reached contactType) ∧ ((row.state ≠ .anonymized → row.anonymizedAt = none) →
        row'.state ≠ .anonymized → row'.anonymizedAt = none) := by
  cases h with
  | same => exact ⟨row, hrow, fun _ h => h, fun h => h⟩
  | created _ hnone _ _ _ =>
      rw [hnone] at hrow
      cases hrow
  | rehashed => exact ⟨row, hrow, fun _ h => h, fun h => h⟩
  | verified _ hrow' hverifiable hnew _ =>
      obtain rfl := Option.some.inj (hrow.symm.trans hrow')
      have hstate : row.state ≠ .anonymized := by
        rintro hstate
        simp [RegistrationRepository.verifiable, hstate] at hverifiable
      exact ⟨_, hnew, fun _ h _ => h hstate, fun h _ => h hstate⟩
  | reset hrow' hresettable _ _ =>
      obtain rfl := Option.some.inj (hrow.symm.trans hrow')
      have hstate : row.state ≠ .anonymized := by
        rintro hstate
        simp [RecoveryRepository.resettable, hstate] at hresettable
      exact ⟨_, rfl, fun _ h _ => h hstate, fun h _ => h hstate⟩
  | contact _ hrow' hactive hnew _ =>
      obtain rfl := Option.some.inj (hrow.symm.trans hrow')
      have hstate : row.state ≠ .anonymized := by
        rw [hactive]
        decide
      refine ⟨_, hnew, fun other h _ => contactOf_withContact (h hstate), fun h _ => ?_⟩
      have hsame := h hstate
      unfold moved DbChange.withContact
      split
      · exact hsame
      · exact hsame
  | unlocked hrow' hopen =>
      obtain rfl := Option.some.inj (hrow.symm.trans hrow')
      have hstate : row.state ≠ .anonymized := by
        rcases hopen with h | h
        · rw [h]
          decide
        · rw [h]
          decide
      exact ⟨_, rfl, fun _ h _ => h hstate, fun h _ => h hstate⟩
  | suspended hrow' _ hstate =>
      obtain rfl := Option.some.inj (hrow.symm.trans hrow')
      exact ⟨_, rfl, fun _ h _ => h hstate, fun h _ => h hstate⟩
  | executed _ hrow' =>
      obtain rfl := Option.some.inj (hrow.symm.trans hrow')
      exact ⟨_, rfl, fun _ h => h, fun h => h⟩
  | erased _ _ hnew _ =>
      exact ⟨_, hnew, fun _ _ hstate => absurd rfl hstate, fun _ hstate => absurd rfl hstate⟩

theorem AccountStep.live (h : AccountStep u a e a')
    (hbefore : ∀ row, a.row = some row → row.state ≠ .anonymized → row.anonymizedAt = none)
    {row : User} (hrow : a'.row = some row) (hstate : row.state ≠ .anonymized) :
    row.anonymizedAt = none := by
  cases hold : a.row with
  | some before =>
      obtain ⟨row', hrow', _, hlive⟩ := h.reached hold
      obtain rfl := Option.some.inj (hrow.symm.trans hrow')
      exact hlive (hbefore before hold) hstate
  | none =>
      cases h with
      | same => exact hbefore row hrow hstate
      | created _ _ hrow' hnew _ =>
          obtain rfl := Option.some.inj (hrow.symm.trans hrow')
          exact hnew
      | rehashed => exact hbefore row hrow hstate
      | verified _ hrow' => exact absurd (hold.symm.trans hrow') (by simp)
      | reset hrow' => exact absurd (hold.symm.trans hrow') (by simp)
      | contact _ hrow' => exact absurd (hold.symm.trans hrow') (by simp)
      | unlocked hrow' => exact absurd (hold.symm.trans hrow') (by simp)
      | suspended hrow' => exact absurd (hold.symm.trans hrow') (by simp)
      | executed _ hrow' => exact absurd (hold.symm.trans hrow') (by simp)
      | erased _ hrow' => exact absurd (hold.symm.trans hrow') (by simp)

/-- A registration gives its user the contact of the new identity. -/
theorem reached_of_created (h : AccountStep u a e a') (hcreates : e.creates = true)
    (hbefore : ∀ id x, a.login id = some x → ∃ row, a.row = some row ∧
      row.Reached x.provider.reaches) {id : Uuid} {x : Identity} (hlogin : a'.login id = some x)
    (hlocal : ∃ contactType, x.provider = RecoveryRepository.contactProvider contactType) :
    ∃ row, a'.row = some row ∧ row.Reached x.provider.reaches := by
  cases h with
  | same => exact hbefore id x hlogin
  | created _ hnone hrow _ hlogins =>
      rcases hlogins id x hlogin with hold | ⟨_, hstep⟩
      · obtain ⟨row, hrow', _⟩ := hbefore id x hold
        rw [hnone] at hrow'
        cases hrow'
      · obtain ⟨contactType, hprovider⟩ := hlocal
        refine ⟨_, hrow, fun _ => ?_⟩
        have hcontact := hstep contactType hprovider
        have hreaches : x.provider.reaches = contactType := by
          rw [hprovider]
          cases contactType with
          | email => rfl
          | phone => rfl
        rw [hreaches, hcontact]
        rfl
  | verified hverifies =>
      unfold Event.creates at hcreates
      split at hcreates
      · cases hverifies
      · cases hverifies
      · cases hverifies
      · cases hcreates
  | _ => cases hcreates

/-- A social provider vouches for an address. -/
theorem row_of_provisioned {m : Core Db World} {args : ProvisionArgs} {result : LoginIdentity}
    (h : (Event.login (.provisioned args result)).Agrees m) :
    ∃ row, ((Event.login (.provisioned args result)).change m.db).users.get args.userId =
      some row ∧ row.email = some args.email := by
  obtain ⟨change, halone, hchange⟩ := h.commits rfl
  rw [hchange]
  obtain ⟨_, p₁, hnew, h₁⟩ := Tx.alone_bind_eq_ok halone
  obtain ⟨hnone, heq⟩ := alone_newUser hnew
  cases heq
  obtain ⟨_, p₂, hemail, h₂⟩ := Tx.alone_bind_eq_ok h₁
  cases (alone_reserve hemail).2
  obtain ⟨_, p₃, huser, h₃⟩ := Tx.alone_bind_eq_ok h₂
  cases huser
  obtain ⟨_, p₄, hworkspace, h₄⟩ := Tx.alone_bind_eq_ok h₃
  cases hworkspace
  obtain ⟨_, p₅, hsubject, h₅⟩ := Tx.alone_bind_eq_ok h₄
  cases (alone_reserve hsubject).2
  cases h₅
  refine ⟨⟨some args.email, args.profile.givenName, args.profile.familyName, none, .active, 1,
    none⟩, ?_, rfl⟩
  change (m.db.users.add _ _).get args.userId = _
  rw [Table.get_add_of_new hnone, if_pos rfl]

end Steps

section Runs

variable {env : Env} {c m : Core Db World} {u : Uuid}

/-- The user exists and has the contact, unless anonymized. -/
def ReachedUser (contactType : ContactType) (u : Uuid) (d : Db) : Prop :=
  ∃ row, d.users.get u = some row ∧ row.Reached contactType

theorem ReachedUser.change {contactType : ContactType} (h : ReachedUser contactType u m.db)
    (hinit : Initial c) (hm : History env c m) {i : Nat} {e : Event}
    (hfollows : e.Follows env i (trace i m.store.log)) (hagrees : e.Agrees m) :
    ReachedUser contactType u (e.change m.db) := by
  obtain ⟨row, hrow, hreached⟩ := h
  obtain ⟨row', hrow', hkeeps, _⟩ :=
    (account_change hinit hm hfollows hagrees u).reached hrow
  exact ⟨row', hrow', hkeeps _ hreached⟩

/-- The collision that a workflow is about was one with the address of its user. -/
def Collided (log : List (Nat × Event)) (workflow : Workflow) : Prop :=
  workflow.decision = .collisionProofRequired → ∃ j email row,
    (j, .login (.activeUserByEmail email (some row))) ∈ log ∧ row.userId = workflow.userId

theorem Primary.collided {i : Nat} {workflow : Workflow}
    (h : Primary env i (trace i m.store.log) workflow) : Collided m.store.log workflow := by
  intro hdecision
  generalize htrace : trace i m.store.log = t at h
  cases h with
  | decided =>
      unfold LoginControl.decisionFor at hdecision
      split at hdecision
      · cases hdecision
      · cases hdecision
  | @collision email row =>
      refine ⟨i, email, row, mem_trace_iff.mp ?_, rfl⟩
      rw [htrace]
      simp

theorem reached_of_activeUserByEmail {d : Db} {email : String} {row : LoginIdentity}
    (h : some row = LoginRepository.activeUserByEmail email d) :
    ReachedUser .email row.userId d := by
  obtain ⟨entry, hentry, rfl⟩ := List.mem_map.mp (List.mem_of_head? h.symm)
  obtain ⟨hget, hmatch⟩ := Table.mem_select.mp hentry
  simp only [Bool.and_eq_true, beq_iff_eq] at hmatch
  refine ⟨entry.2, hget, fun _ => ?_⟩
  change entry.2.email.isSome = true
  rw [hmatch.1]
  rfl

/-- Whose account is linked had an address when the collision was found. -/
theorem reached_of_linked (hinit : Initial c) (hm : History env c m) {i : Nat}
    {owner : Uuid} {provider : IdentityProvider} {subject : String} {id : Uuid}
    (hfollows : (Event.mfa (.linked owner provider subject id)).Follows env i
      (trace i m.store.log)) : ReachedUser .email owner m.db := by
  obtain ⟨workflow, method, hchecked, hdecision, _⟩ := hfollows
  have huser := user_of_checked hm hinit.log hinit.cache hchecked
  rcases hchecked.carries with ⟨key, value, e, he, hreads, hcarried⟩ | rfl
  · obtain ⟨j, ttl, hput⟩ := hm.put_of_read hinit.log hinit.cache
      (CacheKey.isPlain_of_carried hcarried) he hreads
    have hcollided : Collided m.store.log workflow := by
      refine carried_of_put (Q := Collided) hm hinit.log hinit.cache ?_ ?_ ?_ hput hcarried
      · intro log entry workflow' hcollided hdecision'
        obtain ⟨j, email, row, hmem, hrow⟩ := hcollided hdecision'
        exact ⟨j, email, row, List.mem_cons_of_mem _ hmem, hrow⟩
      · exact fun _ _ _ _ hprimary => hprimary.collided
      · intro _ _ _ hdecision'
        cases hdecision'
    obtain ⟨j, email, row, hmem, hrow⟩ := hcollided hdecision
    obtain ⟨later, earlier, hsplit⟩ := List.append_of_mem hmem
    obtain ⟨m₀, hm₀, rfl, _, hagrees, _⟩ := hm.around hinit.log hsplit
    have hfound : some row = LoginRepository.activeUserByEmail email m₀.db := hagrees.tells
    rw [hm.db_eq hinit.log, hsplit]
    refine hm.through hinit.log (show m.store.log = [] ++ (later ++ _) from hsplit) ?_ ?_
    · rw [replay_cons, Event.change_of_none rfl, ← hm₀.db_eq hinit.log, ← huser, ← hrow]
      exact reached_of_activeUserByEmail hfound
    · intro m' k e' _ hm' hfollows' hagrees' hreached
      exact hreached.change hinit hm' hfollows' hagrees'
  · cases hdecision

/-- A new identity comes with a contact of its user. -/
theorem reached_of_introduces (h : Contactable m.db) (hinit : Initial c) (hm : History env c m)
    {i : Nat} {e : Event} (hfollows : e.Follows env i (trace i m.store.log))
    (hagrees : e.Agrees m) {id : Uuid} {x : Identity}
    (hx : (e.change m.db).identities.get id = some x)
    (hnew : e.introduces x.userId x.provider = true) :
    ReachedUser x.provider.reaches x.userId (e.change m.db) := by
  have hcreated : e.creates = true → (∃ contactType,
      x.provider = RecoveryRepository.contactProvider contactType) →
      ReachedUser x.provider.reaches x.userId (e.change m.db) := by
    rintro hcreates ⟨contactType, hprovider⟩
    refine reached_of_created (account_change hinit hm hfollows hagrees x.userId) hcreates ?_
      (show (((e.change m.db).account x.userId).login id) = some x from ?_)
      ⟨contactType, hprovider⟩
    · intro k y hy
      obtain ⟨hy, hmine⟩ := Option.filter_eq_some_iff.mp hy
      simp only [Bool.and_eq_true, beq_iff_eq] at hmine
      exact hmine.1 ▸ h.reached k y hy
    · change ((e.change m.db).identities.get id).filter _ = some x
      rw [hx, Option.filter_some, if_pos]
      cases contactType with
      | email => simp [Identity.isLocal, hprovider, RecoveryRepository.contactProvider]
      | phone => simp [Identity.isLocal, hprovider, RecoveryRepository.contactProvider]
  unfold Event.introduces at hnew
  split at hnew
  · rename_i owner provider subject new
    simp only [Bool.and_eq_true, beq_iff_eq] at hnew
    obtain ⟨rfl, rfl⟩ := hnew
    rw [reaches_of_oidc (linked_social hm hinit.log hinit.cache hfollows)]
    exact (reached_of_linked hinit hm hfollows).change hinit hm hfollows hagrees
  · rename_i args result
    simp only [Bool.and_eq_true, beq_iff_eq] at hnew
    obtain ⟨row, hrow, hemail⟩ := row_of_provisioned hagrees
    rw [← hnew.1, ← hnew.2, reaches_of_oidc hfollows]
    refine ⟨row, hrow, fun _ => ?_⟩
    change row.email.isSome = true
    rw [hemail]
    rfl
  · simp only [Bool.and_eq_true, beq_iff_eq] at hnew
    exact hcreated rfl ⟨.email, hnew.2⟩
  · simp only [Bool.and_eq_true, beq_iff_eq] at hnew
    exact hcreated rfl ⟨.phone, hnew.2⟩
  · cases hnew

/-- Every event keeps users within reach. -/
theorem Contactable.change (h : Contactable m.db) (hinit : Initial c) (hm : History env c m)
    {i : Nat} {e : Event} (hfollows : e.Follows env i (trace i m.store.log))
    (hagrees : e.Agrees m) : Contactable (e.change m.db) := by
  constructor
  case live =>
    intro u row hrow hstate
    exact (account_change hinit hm hfollows hagrees u).live (fun before => h.live u before)
      hrow hstate
  case reached =>
    intro id x hx
    rcases (credential_change hagrees).identity id x hx rfl with
      ⟨old, hold, huser, hprovider⟩ | hnew
    · have hbefore : ReachedUser x.provider.reaches x.userId m.db := by
        rw [← huser, ← hprovider]
        exact h.reached id old hold
      exact hbefore.change hinit hm hfollows hagrees
    · exact reached_of_introduces h hinit hm hfollows hagrees hx hnew

theorem contactable_of_history (hinit : Initial c) (hstart : Contactable c.db)
    (h : History env c m) : Contactable m.db := by
  rw [h.db_eq hinit.log]
  have hwhole := h.through (P := Contactable) hinit.log
    (show m.store.log = [] ++ (m.store.log ++ []) by simp) hstart
    fun m' i e _ hm' hfollows hagrees hP => hP.change hinit hm' hfollows hagrees
  rwa [List.append_nil] at hwhole

end Runs

/-- The profile of a user with these verified identities. -/
def profileOf (u : Uuid) (row : User) (identities : List (Uuid × Identity)) : MFAUserProfile :=
  ⟨u, row.state,
    if identities.any fun entry => MFARepository.isEmailProvider entry.2.provider then row.email
      else none,
    if identities.any fun entry => entry.2.provider == .phone then row.phoneE164 else none⟩

/-- What `user_profile` reads, if both queries see the same database. -/
def profileAt (u : Uuid) (d : Db) : Option MFAUserProfile :=
  match d.users.get u with
  | none => none
  | some row =>
      if row.anonymizedAt.isSome then none
      else some (profileOf u row (LoginRepository.verifiedIdentities u d))

/-- A contact that goes with a verified identity is a method. -/
theorem methods_profileOf {u : Uuid} {row : User} {identities : List (Uuid × Identity)}
    {factors : List (Uuid × MFADevice)} {entry : Uuid × Identity} (hentry : entry ∈ identities)
    (hcontact : (DbChange.contactOf row entry.2.provider.reaches).isSome = true) :
    MFAControl.methods (profileOf u row identities) factors ≠ [] := by
  by_cases hphone : entry.2.provider = .phone
  · have hany : (identities.any fun entry => entry.2.provider == .phone) = true :=
      List.any_eq_true.mpr ⟨entry, hentry, by simp [hphone]⟩
    rw [hphone] at hcontact
    have hsms : (profileOf u row identities).phoneE164.isSome = true := by
      simp only [profileOf, hany, if_true]
      exact hcontact
    simp [MFAControl.methods, hsms]
  · have hprovider : entry.2.provider.reaches = .email ∧
        MFARepository.isEmailProvider entry.2.provider = true := by
      cases h : entry.2.provider with
      | phone => exact absurd h hphone
      | _ => exact ⟨rfl, rfl⟩
    have hany : (identities.any fun entry =>
        MFARepository.isEmailProvider entry.2.provider) = true :=
      List.any_eq_true.mpr ⟨entry, hentry, hprovider.2⟩
    rw [hprovider.1] at hcontact
    have hemail : (profileOf u row identities).email.isSome = true := by
      simp only [profileOf, hany, if_true]
      exact hcontact
    simp [MFAControl.methods, hemail]

/-- A verified identity of an active user makes for a method. -/
theorem methods_of_contactable {d : Db} (h : Contactable d) {u : Uuid} {row : User}
    (hrow : d.users.get u = some row) (hactive : row.state = .active)
    (hverified : LoginRepository.verifiedIdentities u d ≠ []) :
    ∃ profile, profileAt u d = some profile ∧ profile.state = .active ∧
      ∀ factors, MFAControl.methods profile factors ≠ [] := by
  have hstate : row.state ≠ .anonymized := by
    rw [hactive]
    decide
  have hlive := h.live u row hrow hstate
  obtain ⟨⟨id, x⟩, hmem⟩ := List.exists_mem_of_ne_nil _ hverified
  obtain ⟨hx, hmatch⟩ := Table.mem_select.mp hmem
  simp only [Bool.and_eq_true, beq_iff_eq] at hmatch
  obtain ⟨row', hrow', hreached⟩ := h.reached id x hx
  rw [hmatch.1] at hrow'
  obtain rfl := Option.some.inj (hrow.symm.trans hrow')
  refine ⟨profileOf u row (LoginRepository.verifiedIdentities u d), ?_, hactive, fun factors => ?_⟩
  · simp [profileAt, hrow, hlive]
  · exact methods_profileOf hmem (hreached hstate)

section Calls

variable {env : Env} {c : Core Db World} {u : Uuid} {token : Token}

variable {α : Type} {providers : Providers} {i : Nat}

/-- The two queries of a profile on one database. -/
theorem activeProfileOf_eq {profile : MFAUserProfile} (h : profileAt u c.db = some profile)
    (hactive : profile.state = .active) : MFAControl.activeProfileOf u c.db = some profile := by
  have hprofile : MFARepository.profileOf u c.db = some profile := h
  rw [MFAControl.activeProfileOf, hprofile]
  exact if_pos hactive

/-- What `available_methods` answers to a live workflow when no other call is on its
way. -/
theorem solo_availableMethods {workflow : Workflow}
    {profile : MFAUserProfile}
    (hworkflow : c.store.cache.get c.store.now (.loginWorkflow token) = some workflow)
    (hprofile : profileAt workflow.userId c.db = some profile) (hactive : profile.state = .active) :
    ∃ c', (application env).solo providers.allow i (.availableMethods token) c =
      some (.ok (.methods (((MFAControl.methods profile
        (LoginRepository.activeFactors workflow.userId c.db)).dedup.map
          (·.value)).insertionSort (· ≤ ·))), c') := by
  suffices hprog : ∃ c', (MFAControl.availableMethods token).solo i providers.allow
      ⟨c.db, c.store.record i (.called (.availableMethods token))⟩ =
        some (.ok (.methods (((MFAControl.methods profile
          (LoginRepository.activeFactors workflow.userId c.db)).dedup.map
            (·.value)).insertionSort (· ≤ ·))), c') by
    obtain ⟨c', hc'⟩ := hprog
    exact ⟨_, congrArg (Option.map _) hc'⟩
  obtain ⟨w, hsolo⟩ := @MFAControl.solo_availableMethods i providers token
    ⟨c.db, c.store.record i (.called (.availableMethods token))⟩ workflow hworkflow
  rw [activeProfileOf_eq hprofile hactive] at hsolo
  exact ⟨_, hsolo⟩

/-- An active user with a verified identity has a method, and `available_methods` offers
it to every live workflow of that user. -/
theorem method_offered (hinit : Initial c) (hstart : Contactable c.db)
    {s : Config schema World AuthError Result} (h : (application env).Reachable c s)
    {row : User} (hrow : s.core.db.users.get u = some row) (hactive : row.state = .active)
    (hverified : LoginRepository.verifiedIdentities u s.core.db ≠ []) :
    (∃ profile, profileAt u s.core.db = some profile ∧
      MFAControl.methods profile (LoginRepository.activeFactors u s.core.db) ≠ []) ∧
    ∀ (providers : Providers) i token workflow,
      s.core.store.cache.get s.core.store.now (.loginWorkflow token) = some workflow →
      workflow.userId = u →
      ∃ offered c', (application env).solo providers.allow i (.availableMethods token) s.core =
        some (.ok (.methods offered), c') ∧ offered ≠ [] := by
  obtain ⟨profile, hprofile, hstate, hmethods⟩ := methods_of_contactable
    (contactable_of_history hinit hstart (history_of_reachable hinit.log h)) hrow hactive hverified
  constructor
  · exact ⟨profile, hprofile, hmethods _⟩
  · intro providers i token workflow hworkflow huser
    subst huser
    obtain ⟨c', hsolo⟩ :=
      solo_availableMethods (i := i) hworkflow hprofile hstate
    refine ⟨_, c', hsolo, ?_⟩
    rw [Ne, ← List.length_eq_zero_iff, List.length_insertionSort, List.length_map,
      List.length_eq_zero_iff, List.dedup_eq_nil]
    exact hmethods _

/-- Ann registers and follows the link. -/
def verifiedMoves : List SampleMove :=
  perform 0 (.registerEmail "ann" "pw" "Ann" "Lee") 20 ++ perform 1 (.verifyEmail (.drawn 0 5)) 12

theorem method_offered_verified :
    ∃ s, (application sampleEnv).Reachable (sampleStart (sampleDb [])) s ∧
      ∃ profile, profileAt (.drawn 0 0) s.core.db = some profile ∧
        MFAControl.methods profile (LoginRepository.activeFactors (.drawn 0 0) s.core.db) ≠ [] := by
  obtain ⟨s, hreach, hrun⟩ := Service.reachable_of_run
    (show ((application sampleEnv).run (Service.start (sampleStart (sampleDb [])))
      verifiedMoves).map (fun s : Config schema World AuthError Result =>
        (s.core.db.users.get (.drawn 0 0)).any (fun row => row.state == .active) &&
          !(LoginRepository.verifiedIdentities (.drawn 0 0) s.core.db).isEmpty) = some true by
      decide +kernel)
  simp only [Bool.and_eq_true, Bool.not_eq_true', List.isEmpty_eq_false_iff] at hrun
  obtain ⟨row, hrow, hactive⟩ := (Option.any_eq_true _ _).mp hrun.1
  exact ⟨s, hreach, (method_offered ⟨rfl, rfl, rfl, rfl, rfl, rfl, fun _ => rfl, rfl, rfl⟩
    (contactable_of_empty rfl rfl) hreach hrow (beq_iff_eq.mp hactive) hrun.2).1⟩

end Calls

end AuthCore
