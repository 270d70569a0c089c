/-
Credentials and erasures of one account.  An erasure deletes the identities,
factors and families that its statements find; what a call commits for the same
user behind those statements stays.
-/
import AuthCore.Erasure.Exports

namespace AuthCore

open Interleave Relational PrivacyRepository

def Event.addsIdentity (u : Uuid) : Event → Bool
  | .mfa (.linked owner _ _ _) => owner == u
  | .login (.provisioned args _) => args.userId == u
  | .recovery (.emailRegistered args) => Uuid.drawn args.call 0 == u
  | .recovery (.phoneRegistered args) => Uuid.drawn args.call 0 == u
  | _ => false

/-- The identity that an event adds is one of this provider. -/
def Event.introduces (u : Uuid) (provider : IdentityProvider) : Event → Bool
  | .mfa (.linked owner other _ _) => owner == u && other == provider
  | .login (.provisioned args _) => args.userId == u && args.profile.provider == provider
  | .recovery (.emailRegistered args) => Uuid.drawn args.call 0 == u && provider == .password
  | .recovery (.phoneRegistered args) => Uuid.drawn args.call 0 == u && provider == .phone
  | _ => false

theorem Event.addsIdentity_of_introduces {u : Uuid} {provider : IdentityProvider} {e : Event}
    (h : e.introduces u provider = true) : e.addsIdentity u = true := by
  unfold Event.introduces at h
  split at h
  · exact (Bool.and_eq_true_iff.mp h).1
  · exact (Bool.and_eq_true_iff.mp h).1
  · exact (Bool.and_eq_true_iff.mp h).1
  · exact (Bool.and_eq_true_iff.mp h).1
  · cases h

def Event.addsFactor (u : Uuid) : Event → Bool
  | .mfa (.pendingTotpCreated owner ..) => owner == u
  | .mfa (.backupStored owner ..) => owner == u
  | .mfa (.passkeyCreated owner ..) => owner == u
  | _ => false

def Event.addsSession (u : Uuid) : Event → Bool
  | .session (.created args _ _) => args.userId == u
  | _ => false

/-- What an event does to the identities, factors and families of `u`. -/
structure CredentialStep (u : Uuid) (e : Event) (d d' : Db) : Prop where
  identity : ∀ id x, d'.identities.get id = some x → x.userId = u →
    (∃ old, d.identities.get id = some old ∧ old.userId = u ∧ old.provider = x.provider) ∨
      e.introduces u x.provider = true
  factor : ∀ id x, d'.mfaDevices.get id = some x → x.userId = u →
    (∃ old, d.mfaDevices.get id = some old ∧ old.userId = u) ∨ e.addsFactor u = true
  family : ∀ id x, d'.families.get id = some x → x.userId = u →
    (∃ old, d.families.get id = some old ∧ old.userId = u) ∨ e.addsSession u = true

/-- Identities, factors and families are deleted and nothing else. -/
structure Shrinks (d d' : Db) : Prop where
  identity : ∀ id x, d'.identities.get id = some x → d.identities.get id = some x
  factor : ∀ id x, d'.mfaDevices.get id = some x → d.mfaDevices.get id = some x
  family : ∀ id x, d'.families.get id = some x → d.families.get id = some x

section Steps

variable {u : Uuid} {e : Event} {d d' : Db}

theorem Shrinks.of_eq (h : (d'.mfaDevices, d'.accessTables) = (d.mfaDevices, d.accessTables)) :
    Shrinks d d' := by
  obtain ⟨hdevices, haccess⟩ := Prod.mk.inj h
  obtain ⟨hidentities, hfamilies⟩ := Prod.mk.inj haccess
  exact ⟨fun _ _ hget => hidentities ▸ hget, fun _ _ hget => hdevices ▸ hget,
    fun _ _ hget => hfamilies ▸ hget⟩

theorem shrinks_of_steps (h : Relation.ReflTransGen Shrinks d d') : Shrinks d d' := by
  induction h with
  | refl => exact .of_eq rfl
  | tail _ hstep ih =>
      exact ⟨fun id x hget => ih.identity id x (hstep.identity id x hget),
        fun id x hget => ih.factor id x (hstep.factor id x hget),
        fun id x hget => ih.family id x (hstep.family id x hget)⟩

theorem Shrinks.credentialStep (h : Shrinks d d') : CredentialStep u e d d' :=
  ⟨fun id x hget huser => Or.inl ⟨x, h.identity id x hget, huser, rfl⟩,
    fun id x hget huser => Or.inl ⟨x, h.factor id x hget, huser⟩,
    fun id x hget huser => Or.inl ⟨x, h.family id x hget, huser⟩⟩

theorem CredentialStep.of_eq
    (h : (d'.mfaDevices, d'.accessTables) = (d.mfaDevices, d.accessTables)) :
    CredentialStep u e d d' :=
  (Shrinks.of_eq h).credentialStep

theorem CredentialStep.trans {d'' : Db} (h : CredentialStep u e d d')
    (h' : CredentialStep u e d' d'') : CredentialStep u e d d'' := by
  constructor
  · intro id x hget huser
    rcases h'.identity id x hget huser with ⟨y, hy, hy_user, hprovider⟩ | hadds
    · rw [← hprovider]
      exact h.identity id y hy hy_user
    · exact Or.inr hadds
  · intro id x hget huser
    rcases h'.factor id x hget huser with ⟨y, hy, hy_user⟩ | hadds
    · exact h.factor id y hy hy_user
    · exact Or.inr hadds
  · intro id x hget huser
    rcases h'.family id x hget huser with ⟨y, hy, hy_user⟩ | hadds
    · exact h.family id y hy hy_user
    · exact Or.inr hadds

theorem credentialStep_of_steps (h : Relation.ReflTransGen (CredentialStep u e) d d') :
    CredentialStep u e d d' := by
  induction h with
  | refl => exact .of_eq rfl
  | tail _ hstep ih => exact ih.trans hstep

theorem erasing_shrinks (user : Uuid) : Erasing Shrinks user where
  artifacts _ _ := .of_eq rfl
  «export» _ _ _ _ := .of_eq rfl
  contactChange _ _ := .of_eq rfl
  mailed _ _ _ _ := .of_eq rfl
  factor _ _ _ := ⟨fun _ _ hget => hget, fun _ _ hget => (Table.get_delete_eq_some.mp hget).1,
    fun _ _ hget => hget⟩
  device _ _ _ _ := .of_eq rfl
  staff _ := .of_eq rfl
  binding _ _ _ _ := .of_eq rfl
  identity _ _ _ _ := ⟨fun _ _ hget => (Table.get_delete_eq_some.mp hget).1,
    fun _ _ hget => hget, fun _ _ hget => hget⟩
  family _ _ _ := ⟨fun _ _ hget => hget, fun _ _ hget => hget,
    fun _ _ hget => (Table.get_delete_eq_some.mp hget).1⟩
  referrals _ := .of_eq rfl
  referred _ _ := .of_eq rfl
  invitation _ _ _ := .of_eq rfl
  organization _ _ _ := .of_eq rfl
  user _ _ _ _ := .of_eq rfl
  request _ _ _ _ _ := .of_eq rfl
  audit _ _ := .of_eq rfl

theorem credentialStep_addIdentity {id : Uuid} {x : Identity}
    (h : x.userId = u → e.introduces u x.provider = true) :
    CredentialStep u e d ((DbChange.addIdentity id x).apply d) := by
  refine ⟨fun k y hget huser => ?_, fun _ y hget huser => Or.inl ⟨y, hget, huser⟩,
    fun _ y hget huser => Or.inl ⟨y, hget, huser⟩⟩
  rcases Table.get_add_eq_some hget with hold | ⟨_, rfl⟩
  · exact Or.inl ⟨y, hold, huser, rfl⟩
  · exact Or.inr (h huser)

theorem credentialStep_addFactor {id : Uuid} {x : MFADevice}
    (h : x.userId = u → e.addsFactor u = true) :
    CredentialStep u e d ((DbChange.addFactor id x).apply d) := by
  refine ⟨fun _ y hget huser => Or.inl ⟨y, hget, huser, rfl⟩, fun k y hget huser => ?_,
    fun _ y hget huser => Or.inl ⟨y, hget, huser⟩⟩
  rcases Table.get_add_eq_some hget with hold | ⟨_, rfl⟩
  · exact Or.inl ⟨y, hold, huser⟩
  · exact Or.inr (h huser)

theorem credentialStep_setIdentity {p : Uuid → Identity → Bool} {g : Identity → Identity}
    (hg : ∀ x, (g x).userId = x.userId ∧ (g x).provider = x.provider) :
    CredentialStep u e d { d with identities := d.identities.update p g } := by
  refine ⟨fun k y hget huser => ?_, fun _ y hget huser => Or.inl ⟨y, hget, huser⟩,
    fun _ y hget huser => Or.inl ⟨y, hget, huser⟩⟩
  obtain ⟨x, hold, rfl⟩ := Table.get_update_eq_some.mp hget
  refine Or.inl ⟨x, hold, ?_⟩
  split
  · rename_i hp
    rw [if_pos hp] at huser
    exact ⟨(hg x).1.symm.trans huser, (hg x).2.symm⟩
  · rename_i hp
    rw [if_neg hp] at huser
    exact ⟨huser, rfl⟩

theorem credentialStep_setFactor {id : Uuid} {g : MFADevice → MFADevice}
    (hg : ∀ x, (g x).userId = x.userId) :
    CredentialStep u e d ((DbChange.setFactor id g).apply d) := by
  refine ⟨fun _ y hget huser => Or.inl ⟨y, hget, huser, rfl⟩, fun k y hget huser => ?_,
    fun _ y hget huser => Or.inl ⟨y, hget, huser⟩⟩
  obtain ⟨x, hold, rfl⟩ := Table.get_update_eq_some.mp hget
  refine Or.inl ⟨x, hold, ?_⟩
  split at huser
  · exact (hg x).symm.trans huser
  · exact huser

variable {m : Core Db World}

theorem upkeep_families {T T' : SessionTables}
    (h : Relation.ReflTransGen SessionTables.Upkeep T T') :
    ∀ id x, T'.families.get id = some x →
      ∃ old, T.families.get id = some old ∧ old.userId = x.userId := by
  induction h with
  | refl => exact fun _ x hget => ⟨x, hget, rfl⟩
  | tail _ hstep ih =>
      intro id x hget
      cases hstep with
      | revoke _ _ =>
          obtain ⟨y, hy, rfl⟩ := Table.get_update_eq_some.mp hget
          obtain ⟨old, hold, huser⟩ := ih id y hy
          refine ⟨old, hold, huser.trans ?_⟩
          split <;> rfl
      | scope => exact ih id x hget
      | delete => exact ih id x (Table.get_delete_eq_some.mp hget).1

/-- A family of a user has been one before or is the one that is created. -/
theorem families_change (h : e.Agrees m) {id : Uuid} {x : RefreshTokenFamily}
    (hget : (e.change m.db).families.get id = some x) :
    (∃ old, m.db.families.get id = some old ∧ old.userId = x.userId) ∨
      e.addsSession x.userId = true := by
  have heffect := effect_change h
  change (e.change m.db).sessionTables.families.get id = some x at hget
  generalize (e.change m.db).sessionTables = T' at heffect hget
  cases heffect with
  | upkeep hsteps => exact Or.inl (upkeep_families hsteps id x hget)
  | created hsteps _ =>
      rcases Table.get_add_eq_some hget with hold | ⟨_, rfl⟩
      · exact Or.inl (upkeep_families hsteps id x hold)
      · exact Or.inr (by simp [Event.addsSession, SessionRepository.newFamily])
  | rotated _ _ _ => exact Or.inl ⟨x, hget, rfl⟩

theorem step_sessionCredentials {event : SessionEvent} (h : (Event.session event).Agrees m) :
    CredentialStep u (.session event) m.db ((Event.session event).change m.db) := by
  have hsame := Event.keeps_part (e := .session event)
    (π := fun d : Db => (d.identities, d.mfaDevices))
    (fun commit hcommit => event.keeps hcommit) (fun _ => rfl) m.db
  obtain ⟨hidentities, hfactors⟩ := Prod.mk.inj hsame
  refine ⟨fun id x hget huser => ?_, fun id x hget huser => ?_, fun id x hget huser => ?_⟩
  · exact Or.inl ⟨x, hidentities ▸ hget, huser, rfl⟩
  · exact Or.inl ⟨x, hfactors ▸ hget, huser⟩
  · subst huser
    exact families_change h hget

theorem step_accountCredentials (event : AccountEvent) (d : Db) :
    CredentialStep u (.account event) d ((Event.account event).change d) := by
  by_cases hstays : ∀ args email found result, event ≠ .erased args (.erased email found) result
  · exact .of_eq (Event.keeps_part (e := .account event)
      (π := fun d : Db => (d.mfaDevices, d.accessTables))
      (fun commit hcommit => event.keeps hcommit hstays) (fun _ => rfl) d)
  · simp only [not_forall, ne_eq, not_not] at hstays
    obtain ⟨args, email, found, result, rfl⟩ := hstays
    refine (shrinks_of_steps (Event.steps_change (fun commit hcommit => ?_) d)).credentialStep
    cases hcommit
    exact guarantees_eraseWrites (erasing_shrinks _) _ _

theorem step_loginCredentials (event : LoginEvent) (d : Db) :
    CredentialStep u (.login event) d ((Event.login event).change d) := by
  refine credentialStep_of_steps (Event.steps_change (fun commit hcommit => ?_) d)
  cases event with
  | signalled args found result =>
      cases hcommit
      exact guarantees_noteDevice (fun _ _ _ => .of_eq rfl) (fun _ _ => .of_eq rfl) _
  | passwordUpdated user hash found =>
      cases hcommit
      exact guarantees_storePasswordHash
        (fun _ _ => credentialStep_setIdentity fun _ => ⟨rfl, rfl⟩) user found
  | provisioned args result =>
      cases hcommit
      refine (guarantees_newUser _ _).bind fun _ => (guarantees_reserve _ _ _).bind fun _ => ?_
      refine ⟨fun _ => .of_eq rfl, fun _ => .of_eq rfl,
        (guarantees_reserve _ _ _).bind fun _ => ?_⟩
      refine ⟨fun d => credentialStep_addIdentity fun huser => ?_, fun _ => .of_eq rfl, trivial⟩
      simpa [Event.introduces] using huser
  | _ => cases hcommit

theorem step_mfaCredentials (event : MFAEvent) (d : Db) :
    CredentialStep u (.mfa event) d ((Event.mfa event).change d) := by
  refine credentialStep_of_steps
    (Event.steps_change (e := .mfa event) (fun commit hcommit => ?_) d)
  refine event.guarantees ⟨fun _ _ row hrow => credentialStep_addFactor fun huser => ?_,
    fun _ _ _ hkeeps => credentialStep_setFactor hkeeps, fun _ _ _ => .of_eq rfl,
    fun _ _ _ => .of_eq rfl⟩ ?_ hcommit
  · cases event with
    | pendingTotpCreated => simpa [Event.addsFactor] using Eq.trans hrow huser
    | backupStored => simpa [Event.addsFactor] using Eq.trans hrow huser
    | passkeyCreated => simpa [Event.addsFactor] using Eq.trans hrow huser
    | _ => exact hrow.elim
  · rintro owner provider subject id rfl d
    exact credentialStep_addIdentity fun huser => by simpa [Event.introduces] using huser

theorem step_recoveryCredentials (event : RecoveryEvent) (d : Db) :
    CredentialStep u (.recovery event) d ((Event.recovery event).change d) := by
  refine credentialStep_of_steps
    (Event.steps_change (e := .recovery event) (fun commit hcommit => ?_) d)
  refine event.guarantees ?_ (fun _ => ?_) (fun _ => ?_)
    (fun _ _ _ _ => credentialStep_setFactor fun _ => rfl) hcommit
  · refine ⟨fun _ _ _ => .of_eq rfl, fun _ _ _ => .of_eq rfl,
      fun _ _ row hrow => credentialStep_addIdentity fun huser => ?_, fun _ _ _ => .of_eq rfl,
      fun _ _ _ => .of_eq rfl, fun _ _ _ _ => .of_eq rfl, fun _ _ _ => .of_eq rfl,
      fun _ _ _ => .of_eq rfl, fun _ _ _ => credentialStep_setIdentity fun _ => ⟨rfl, rfl⟩,
      fun _ _ => credentialStep_setIdentity fun _ => ⟨rfl, rfl⟩, fun _ _ => .of_eq rfl⟩
    cases event with
    | emailRegistered => simpa [Event.introduces, hrow.2] using hrow.1.symm.trans huser
    | phoneRegistered => simpa [Event.introduces, hrow.2] using hrow.1.symm.trans huser
    | _ => exact hrow.elim
  · exact ⟨fun _ _ _ => .of_eq rfl, fun _ _ _ _ => .of_eq rfl, fun _ _ _ _ _ => .of_eq rfl,
      fun _ _ _ _ _ => .of_eq rfl, fun _ _ _ _ => credentialStep_setIdentity fun _ => ⟨rfl, rfl⟩⟩
  · exact ⟨fun _ _ _ => .of_eq rfl, fun _ _ _ => .of_eq rfl⟩

theorem credential_change (h : e.Agrees m) : CredentialStep u e m.db (e.change m.db) := by
  cases e with
  | session event => exact step_sessionCredentials h
  | workspace event =>
      exact .of_eq (Event.keeps_workspace (π := fun d : Db => (d.mfaDevices, d.accessTables))
        event (fun _ => rfl) (fun _ => rfl) m.db)
  | account event => exact step_accountCredentials event m.db
  | login event => exact step_loginCredentials event m.db
  | mfa event => exact step_mfaCredentials event m.db
  | recovery event => exact step_recoveryCredentials event m.db
  | _ => exact .of_eq rfl

end Steps

section Erasing

variable {args : ErasureArgs} {email : Option String} {found : ErasureFound} {d : Db}
  {change : Db → Db}

end Erasing

variable {env : Env} {c : Core Db World}

/-- No credential of `u` is added behind the erasure that call `i` made: none of
a kind after the erasure has asked for those of this kind. -/
structure QuietCredentials (log : List (Nat × Event)) (i : Nat) (u : Uuid) : Prop where
  identity : ∀ after k e between found before,
    log = after ++ (k, e) ::
      (between ++ (i, .account (.found u "identities" found)) :: before) →
    e.addsIdentity u = false
  factor : ∀ after k e between found before,
    log = after ++ (k, e) ::
      (between ++ (i, .account (.factorsFound u found)) :: before) →
    e.addsFactor u = false
  session : ∀ after k e between found before,
    log = after ++ (k, e) ::
      (between ++ (i, .account (.found u "refresh_token_families" found)) :: before) →
    e.addsSession u = false

section Found

variable {m : Core Db World} {i : Nat} {args : ErasureArgs} {found : ErasureFound}
  {entry : Nat × Event} {later : List (Nat × Event)}

end Found

/-- No event after the erasure adds a credential. -/
theorem QuietCredentials.later {before after : List (Nat × Event)} {i : Nat} {args : ErasureArgs}
    {found : ErasureFound} {entry : Nat × Event}
    (h : QuietCredentials (after ++ entry :: before) i args.userId)
    (herases : Erases args found (trace i before)) {k : Nat} {e : Event} (hmem : (k, e) ∈ after) :
    e.addsIdentity args.userId = false ∧ e.addsFactor args.userId = false ∧
      e.addsSession args.userId = false := by
  obtain ⟨l₁, l₂, rfl⟩ := List.append_of_mem hmem
  refine ⟨?_, ?_, ?_⟩
  · obtain ⟨l₃, l₄, rfl⟩ := List.append_of_mem (asked_of_erases herases
      (e := .account (.found args.userId "identities" found.identities)) (by simp [eraseFinds]))
    exact h.identity l₁ k e (l₂ ++ entry :: l₃) found.identities l₄ (by simp)
  · obtain ⟨l₃, l₄, rfl⟩ := List.append_of_mem (asked_of_erases herases
      (e := .account (.factorsFound args.userId found.factors)) (by simp [eraseFinds]))
    exact h.factor l₁ k e (l₂ ++ entry :: l₃) found.factors l₄ (by simp)
  · obtain ⟨l₃, l₄, rfl⟩ := List.append_of_mem (asked_of_erases herases
      (e := .account (.found args.userId "refresh_token_families" found.families))
      (by simp [eraseFinds]))
    exact h.session l₁ k e (l₂ ++ entry :: l₃) found.families l₄ (by simp)

/-- No identity, factor or family of `u`. -/
def TablesGone (u : Uuid) (d : Db) : Prop :=
  (∀ id x, d.identities.get id = some x → x.userId ≠ u) ∧
    (∀ id x, d.mfaDevices.get id = some x → x.userId ≠ u) ∧
    ∀ id x, d.families.get id = some x → x.userId ≠ u

theorem TablesGone.step {u : Uuid} {e : Event} {d d' : Db} (h : TablesGone u d)
    (hstep : CredentialStep u e d d') (hidentity : e.addsIdentity u = false)
    (hfactor : e.addsFactor u = false) (hsession : e.addsSession u = false) :
    TablesGone u d' := by
  refine ⟨fun id x hget huser => ?_, fun id x hget huser => ?_, fun id x hget huser => ?_⟩
  · rcases hstep.identity id x hget huser with ⟨old, hold, howner, _⟩ | htrue
    · exact h.1 id old hold howner
    · rw [Event.addsIdentity_of_introduces htrue] at hidentity
      cases hidentity
  · rcases hstep.factor id x hget huser with ⟨old, hold, howner⟩ | htrue
    · exact h.2.1 id old hold howner
    · rw [hfactor] at htrue
      cases htrue
  · rcases hstep.family id x hget huser with ⟨old, hold, howner⟩ | htrue
    · exact h.2.2 id old hold howner
    · rw [hsession] at htrue
      cases htrue

end AuthCore
