/-
Two lists of methods.  A login names the methods that the identities and factors
of a user stand for, the control of second checks offers those that it can
deliver; when the two lists agree.
-/
import Mathlib.Data.List.Dedup
import AuthCore.Codes.ChallengeRequests

namespace AuthCore

open Interleave Relational

variable {u : Uuid} {row : User} {d : Db} {method : MFAMethod}

def HasIdentity (u : Uuid) (provider : IdentityProvider) (d : Db) : Prop :=
  ∃ entry ∈ LoginRepository.verifiedIdentities u d, entry.2.provider = provider

def HasFactor (u : Uuid) (factorType : FactorType) (d : Db) : Prop :=
  ∃ entry ∈ LoginRepository.activeFactors u d, entry.2.factorType = factorType

namespace MFAMethod

/-- The factor that stands for a method at a login. -/
def factor : MFAMethod → FactorType
  | totp => .totp
  | emailOtp => .email
  | smsOtp => .sms
  | passkey => .passkey
  | backupCode => .backupCodes

/-- The identity that stands for a method at a login. -/
def identity : MFAMethod → Option IdentityProvider
  | emailOtp => some .password
  | smsOtp => some .phone
  | _ => none

theorem value_injective : Function.Injective value := by
  intro method other
  cases method <;> cases other <;> decide

end MFAMethod

namespace LoginRepository

/-- What `fallback_methods` answers over one state. -/
def fallbackOf (u : Uuid) (d : Db) : List String :=
  ((verifiedIdentities u d).flatMap (fun entry => identityMethods entry.2) ++
    (activeFactors u d).map fun entry => factorMethod entry.2).dedup.insertionSort (· ≤ ·)

theorem factorMethod_eq {factor : MFADevice} :
    factorMethod factor = method.value ↔ factor.factorType = method.factor := by
  unfold factorMethod
  cases factor.factorType <;> cases method <;> decide

theorem mem_identityMethods {identity : Identity} :
    method.value ∈ identityMethods identity ↔ method.identity = some identity.provider := by
  unfold identityMethods
  cases identity.provider <;> cases method <;> decide

/-- A login names a method for the sake of a factor or of an identity. -/
theorem mem_fallbackOf : method.value ∈ fallbackOf u d ↔
    HasFactor u method.factor d ∨ ∃ provider, method.identity = some provider ∧
      HasIdentity u provider d := by
  have hmem : method.value ∈ fallbackOf u d ↔
      (∃ entry ∈ verifiedIdentities u d, method.value ∈ identityMethods entry.2) ∨
        ∃ entry ∈ activeFactors u d, factorMethod entry.2 = method.value := by
    rw [fallbackOf, List.mem_insertionSort, List.mem_dedup, List.mem_append, List.mem_flatMap,
      List.mem_map]
  rw [hmem, or_comm]
  refine or_congr ?_ ?_
  · simp only [factorMethod_eq, HasFactor]
  · simp only [mem_identityMethods]
    constructor
    · rintro ⟨entry, hentry, hprovider⟩
      exact ⟨_, hprovider, entry, hentry, rfl⟩
    · rintro ⟨_, hprovider, entry, hentry, rfl⟩
      exact ⟨entry, hentry, hprovider⟩

end LoginRepository

section Solo

variable {i : Nat} {providers : Providers} {token : Token} {c : Core Db World}

theorem LoginRepository.solo_fallbackMethods : ∃ w,
    (fallbackMethods u).solo i providers.allow c = some (.ok (fallbackOf u c.db), ⟨c.db, w⟩) := by
  unfold fallbackMethods
  rw [Prog.solo_bind_ok (MFAControl.solo_look fun _ _ => rfl),
    Prog.solo_bind_ok (MFAControl.solo_look fun _ _ => rfl)]
  exact ⟨_, rfl⟩

namespace MFAControl

/-- What `available_methods` answers over one state. -/
def availableOf (profile : MFAUserProfile) (factors : List (Uuid × MFADevice)) : List String :=
  ((methods profile factors).dedup.map (·.value)).insertionSort (· ≤ ·)

theorem solo_availableMethods {workflow : Workflow}
    (hworkflow : (show Option Workflow from
      c.store.cache.get c.store.now (.loginWorkflow token)) = some workflow) :
    ∃ w, (availableMethods token).solo i providers.allow c =
      some ((activeProfileOf workflow.userId c.db).elim (.error workflowInvalid) fun profile =>
        .ok (.methods (availableOf profile (LoginRepository.activeFactors workflow.userId c.db))),
          ⟨c.db, w⟩) := by
  obtain ⟨w, hsolo, _⟩ := @solo_getWorkflow i providers token c
  rw [hworkflow] at hsolo
  unfold availableMethods
  rw [Prog.solo_bind_ok hsolo]
  obtain ⟨w', hsolo', _⟩ := @solo_activeProfile i providers ⟨c.db, w⟩ workflow.userId
  dsimp only at hsolo' ⊢
  cases hprofile : activeProfileOf workflow.userId c.db with
  | none =>
      rw [hprofile] at hsolo'
      exact ⟨w', Prog.solo_bind_error hsolo'⟩
  | some profile =>
      rw [hprofile] at hsolo'
      rw [Prog.solo_bind_ok hsolo', MFARepository.activeFactors,
        Prog.solo_bind_ok (solo_look fun _ _ => rfl)]
      exact ⟨_, rfl⟩

/-- No factor is offered for the sake of a contact. -/
theorem mem_factorMethods {factor : MFADevice} : method ∈ factorMethods factor ↔
    method.identity = none ∧ factor.factorType = method.factor := by
  unfold factorMethods
  cases factor.factorType <;> cases method <;> decide

/-- The second check offers a method for the sake of a factor or of a contact. -/
theorem mem_availableOf {profile : MFAUserProfile} :
    method.value ∈ availableOf profile (LoginRepository.activeFactors u d) ↔
      (method.identity = none ∧ HasFactor u method.factor d) ∨
      (method = .emailOtp ∧ profile.email.isSome = true) ∨
      (method = .smsOtp ∧ profile.phoneE164.isSome = true) := by
  have hmethods : method ∈ methods profile (LoginRepository.activeFactors u d) ↔
      (method = .emailOtp ∧ profile.email.isSome = true) ∨
        (method = .smsOtp ∧ profile.phoneE164.isSome = true) ∨
        ∃ entry ∈ LoginRepository.activeFactors u d, method ∈ factorMethods entry.2 := by
    unfold methods
    simp only [List.mem_append, List.mem_flatMap, List.mem_ite_nil_right, List.mem_singleton,
      and_comm, or_assoc]
  have hfactors : (∃ entry ∈ LoginRepository.activeFactors u d, method ∈ factorMethods entry.2) ↔
      method.identity = none ∧ HasFactor u method.factor d := by
    simp only [mem_factorMethods, HasFactor]
    constructor
    · rintro ⟨entry, hentry, hnone, htype⟩
      exact ⟨hnone, entry, hentry, htype⟩
    · rintro ⟨hnone, entry, hentry, htype⟩
      exact ⟨entry, hentry, hnone, htype⟩
  rw [availableOf, List.mem_insertionSort, List.mem_map_of_injective MFAMethod.value_injective,
    List.mem_dedup, hmethods, hfactors, ← or_assoc, or_comm]

end MFAControl

/-- Both lists name the same methods of a second check. -/
def SameMethods (fallback available : List String) : Prop :=
  ∀ method : MFAMethod, method.value ∈ fallback ↔ method.value ∈ available

/-- A password or an e-mail factor goes with an address that some provider has
verified, and a phone identity or a text message factor with a phone number. -/
structure Agreeing (u : Uuid) (row : User) (d : Db) : Prop where
  live : row.anonymizedAt = none
  email : HasFactor u .email d ∨ HasIdentity u .password d ↔ row.email.isSome = true ∧
    ∃ provider, MFARepository.isEmailProvider provider = true ∧ HasIdentity u provider d
  phone : HasFactor u .sms d ∨ HasIdentity u .phone d ↔ row.phoneE164.isSome = true ∧
    HasIdentity u .phone d

/-- The methods differ at most in the codes that go to a contact. -/
theorem sameMethods_iff {profile : MFAUserProfile} :
    SameMethods (LoginRepository.fallbackOf u d)
        (MFAControl.availableOf profile (LoginRepository.activeFactors u d)) ↔
      (HasFactor u .email d ∨ HasIdentity u .password d ↔ profile.email.isSome = true) ∧
        (HasFactor u .sms d ∨ HasIdentity u .phone d ↔ profile.phoneE164.isSome = true) := by
  constructor
  · intro h
    have hemail := h .emailOtp
    have hsms := h .smsOtp
    rw [LoginRepository.mem_fallbackOf, MFAControl.mem_availableOf] at hemail hsms
    simp only [MFAMethod.factor, MFAMethod.identity, Option.some.injEq, exists_eq_left',
      reduceCtorEq, false_and, true_and, false_or, or_false] at hemail hsms
    exact ⟨hemail, hsms⟩
  · rintro ⟨hemail, hsms⟩ method
    rw [LoginRepository.mem_fallbackOf, MFAControl.mem_availableOf]
    cases method <;> simp only [MFAMethod.factor, MFAMethod.identity, Option.some.injEq,
      exists_eq_left', reduceCtorEq, false_and, true_and, false_or, or_false, exists_false,
      hemail, hsms]

/-- A contact counts once an identity of the right kind has been verified. -/
theorem isSome_contact (p : IdentityProvider → Bool) {contact : Option String} :
    (if (LoginRepository.verifiedIdentities u d).any (fun entry => p entry.2.provider) then contact
      else none).isSome = true ↔
      contact.isSome = true ∧ ∃ provider, p provider = true ∧ HasIdentity u provider d := by
  have hany : (LoginRepository.verifiedIdentities u d).any (fun entry => p entry.2.provider) =
      true ↔ ∃ provider, p provider = true ∧ HasIdentity u provider d := by
    rw [List.any_eq_true]
    constructor
    · rintro ⟨entry, hentry, hp⟩
      exact ⟨_, hp, entry, hentry, rfl⟩
    · rintro ⟨_, hp, entry, hentry, rfl⟩
      exact ⟨entry, hentry, hp⟩
  by_cases hsome : ∃ provider, p provider = true ∧ HasIdentity u provider d
  · rw [if_pos (hany.mpr hsome)]
    simp only [hsome, and_true]
  · rw [if_neg (hany.not.mpr hsome)]
    simp only [hsome, and_false, Option.isSome_none, reduceCtorEq]

/-- What a login names and what a second check offers agree on the methods, for an
active user, exactly when the contacts go with the identities and factors. -/
theorem usable_methods {workflow : Workflow}
    (hworkflow : (show Option Workflow from
      c.store.cache.get c.store.now (.loginWorkflow token)) = some workflow)
    (hrow : c.db.users.get workflow.userId = some row) (hactive : row.state = .active) :
    ∃ fallback answer w w',
      (LoginRepository.fallbackMethods workflow.userId).solo i providers.allow c =
        some (.ok fallback, ⟨c.db, w⟩) ∧
      (MFAControl.availableMethods token).solo i providers.allow c = some (answer, ⟨c.db, w'⟩) ∧
      ((∃ available, answer = .ok (.methods available) ∧ SameMethods fallback available) ↔
        Agreeing workflow.userId row c.db) := by
  obtain ⟨w, hfallback⟩ := @LoginRepository.solo_fallbackMethods workflow.userId i providers c
  obtain ⟨w', havailable⟩ := @MFAControl.solo_availableMethods i providers token c _ hworkflow
  refine ⟨_, _, w, w', hfallback, havailable, ?_⟩
  by_cases hlive : row.anonymizedAt = none
  · have hprofile : MFAControl.activeProfileOf workflow.userId c.db = some
        ⟨workflow.userId, row.state,
          if (LoginRepository.verifiedIdentities workflow.userId c.db).any fun entry =>
            MFARepository.isEmailProvider entry.2.provider then row.email else none,
          if (LoginRepository.verifiedIdentities workflow.userId c.db).any fun entry =>
            entry.2.provider == .phone then row.phoneE164 else none⟩ := by
      simp [MFAControl.activeProfileOf, MFARepository.profileOf, hrow, hlive, hactive]
    rw [hprofile]
    simp only [Option.elim_some, Except.ok.injEq, Result.methods.injEq, exists_eq_left']
    rw [sameMethods_iff]
    rw [isSome_contact MFARepository.isEmailProvider, isSome_contact (· == .phone)]
    simp only [beq_iff_eq, exists_eq_left]
    constructor
    · rintro ⟨hemail, hphone⟩
      exact ⟨hlive, hemail, hphone⟩
    · rintro ⟨_, hemail, hphone⟩
      exact ⟨hemail, hphone⟩
  · have hprofile : MFAControl.activeProfileOf workflow.userId c.db = none := by
      simp [MFAControl.activeProfileOf, MFARepository.profileOf, hrow, Option.isSome_iff_ne_none,
        hlive]
    rw [hprofile]
    constructor
    · rintro ⟨_, heq, _⟩
      cases heq
    · intro h
      exact absurd h.live hlive

end Solo

/-- Zoe comes with a Google account that nobody knows yet. -/
def googleMoves : List SampleMove :=
  perform 0 (.startOidc .google) 2 ++
    perform 1 (.loginOidc .google (.drawn 0 0) "zoe" "phone" none) 25

/-- Her login names no second check, though a code could be mailed to her. -/
theorem methods_of_google_differ : ∃ s row w w', (application sampleEnv).Reachable sampleCore s ∧
    s.core.db.users.get (.drawn 1 3) = some row ∧ row.state = .active ∧
    (show Option Workflow from s.core.store.cache.get s.core.store.now
      (.loginWorkflow (.drawn 1 0))).map (·.userId) = some (.drawn 1 3) ∧
    (LoginRepository.fallbackMethods (.drawn 1 3)).solo 2 (fun _ => true) s.core =
      some (.ok ["google"], w) ∧
    (MFAControl.availableMethods (.drawn 1 0)).solo 2 (fun _ => true) s.core =
      some (.ok (.methods ["email_otp"]), w') ∧
    ¬SameMethods ["google"] ["email_otp"] := by
  obtain ⟨row, hrow, hactive⟩ := Option.map_eq_some_iff.mp
    (show ((reached googleMoves).core.db.users.get (.drawn 1 3)).map (·.state) = some .active by
      decide +kernel)
  obtain ⟨⟨_, w⟩, hfallback, rfl⟩ := Option.map_eq_some_iff.mp
    (show ((LoginRepository.fallbackMethods (.drawn 1 3)).solo 2 (fun _ => true)
      (reached googleMoves).core).map Prod.fst = some (.ok ["google"]) by decide +kernel)
  obtain ⟨⟨_, w'⟩, havailable, rfl⟩ := Option.map_eq_some_iff.mp
    (show ((MFAControl.availableMethods (.drawn 1 0)).solo 2 (fun _ => true)
      (reached googleMoves).core).map Prod.fst = some (.ok (.methods ["email_otp"])) by
        decide +kernel)
  refine ⟨_, row, w, w', reachable_reached googleMoves (by decide +kernel), hrow, hactive,
    by decide +kernel, hfallback, havailable, fun hsame => ?_⟩
  exact absurd ((hsame .emailOtp).mpr (by decide)) (by decide)

def annCore : Core Db World :=
  (reached (perform 0 (.loginPassword "ann" "pw" "phone" none) 16)).core

/-- Ann has a verified password and the address that goes with it. -/
theorem usable_methods_of_ann : ∃ row : User,
    annCore.db.users.get (.given 1) = some row ∧ Agreeing (.given 1) row annCore.db := by
  obtain ⟨row, hrow, hactive⟩ := Option.map_eq_some_iff.mp
    (show (annCore.db.users.get (.given 1)).map (·.state) = some .active by decide +kernel)
  obtain ⟨workflow, hworkflow, huser⟩ := Option.map_eq_some_iff.mp
    (show (show Option Workflow from annCore.store.cache.get annCore.store.now
      (.loginWorkflow (.drawn 0 0))).map (·.userId) = some (.given 1) by decide +kernel)
  have hfallback : ((LoginRepository.fallbackMethods (.given 1)).solo 1
      (Providers.allow ⟨none, none, true⟩) annCore).map Prod.fst =
        some (.ok ["email_otp", "password"]) := by decide +kernel
  have havailable : ((MFAControl.availableMethods (.drawn 0 0)).solo 1
      (Providers.allow ⟨none, none, true⟩) annCore).map Prod.fst =
        some (.ok (.methods ["email_otp"])) := by decide +kernel
  rw [← huser] at hrow hfallback ⊢
  obtain ⟨fallback, answer, w, w', hfirst, hsecond, hiff⟩ :=
    usable_methods (i := 1) hworkflow hrow hactive
  rw [hfirst, Option.map_some] at hfallback
  rw [hsecond, Option.map_some] at havailable
  cases hfallback
  cases havailable
  refine ⟨row, hrow, hiff.mp ⟨_, rfl, fun method => ?_⟩⟩
  cases method <;> decide

end AuthCore
