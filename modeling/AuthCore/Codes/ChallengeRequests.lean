/-
Requests for a challenge.  The token of the workflow is spent before the code is delivered;
what that means when the delivery does not come about.
-/
import AuthCore.Accounts.InTurn
import AuthCore.Accounts.TwoRuns
import AuthCore.Model.Sample

namespace AuthCore

open Interleave Relational

namespace MFARepository

/-- The answer of `user_profile` over one state. -/
def profileOf (user : Uuid) (d : Db) : Option MFAUserProfile :=
  match d.users.get user with
  | none => none
  | some row =>
      if row.anonymizedAt.isSome then
        none
      else
        let identities := LoginRepository.verifiedIdentities user d
        some ⟨user, row.state,
          if identities.any fun entry => isEmailProvider entry.2.provider then row.email else none,
          if identities.any fun entry => entry.2.provider == .phone then row.phoneE164 else none⟩

end MFARepository

namespace MFAControl

/-- The profile of an active user. -/
def activeProfileOf (user : Uuid) (d : Db) : Option MFAUserProfile :=
  match MFARepository.profileOf user d with
  | none => none
  | some profile => if profile.state = .active then some profile else none

/-- What a request for a challenge finds when it can go on: the workflow and the profile. -/
def requested (token : Token) (method : MFAMethod) (c : Core Db World) :
    Option (Workflow × MFAUserProfile) :=
  match (show Option Workflow from c.store.cache.get c.store.now (.loginWorkflow token)) with
  | none => none
  | some workflow =>
      match activeProfileOf workflow.userId c.db with
      | none => none
      | some profile =>
          if ¬(methods profile (LoginRepository.activeFactors workflow.userId c.db)).contains
              method || method = .passkey then none
          else some (workflow, profile)

/-- Where the code of a challenge goes. -/
def recipient (profile : MFAUserProfile) : MFAMethod → Option String
  | .emailOtp => profile.email
  | .smsOtp => profile.phoneE164
  | _ => none

section Solo

variable {env : Env} {me i : Nat} {providers : Providers} {token : Token} {method : MFAMethod}
  {c : Core Db World} {α : Type}

theorem solo_act {β : Type} {f : Db → World → β × World} {event : β → Event}
    (hpass : ∀ (b : β) (w : World), providers.allow (w.record i (event b)) = true) :
    (step f event).solo i providers.allow c = some (.ok (f c.db c.store).1,
      ⟨c.db, (f c.db c.store).2.record i (event (f c.db c.store).1)⟩) :=
  solo_step (k := fun b => (pure b : Proc β)) hpass

theorem solo_look {β : Type} {query : Db → β} {event : β → Event}
    (hpass : ∀ (b : β) (w : World), providers.allow (w.record i (event b)) = true) :
    (look query event).solo i providers.allow c =
      some (.ok (query c.db), ⟨c.db, c.store.record i (event (query c.db))⟩) :=
  solo_act hpass

theorem solo_getLoginWorkflow : (Redis.getLoginWorkflow token).solo i providers.allow c =
    some (.ok (show Option Workflow from c.store.cache.get c.store.now (.loginWorkflow token)),
      ⟨c.db, c.store.record i (.got (.loginWorkflow token)
        (c.store.cache.get c.store.now (.loginWorkflow token)))⟩) :=
  solo_act fun _ _ => rfl

theorem solo_getdel (key : CacheKey) : (Redis.getdel key).solo i providers.allow c =
    some (.ok (c.store.cache.get c.store.now key),
      ⟨c.db, World.record { c.store with cache := c.store.cache.remove key } i
        (.taken key (c.store.cache.get c.store.now key))⟩) :=
  solo_act fun _ _ => rfl

theorem solo_userProfile {user : Uuid} : ∃ w,
    (MFARepository.userProfile user).solo i providers.allow c =
      some (.ok (MFARepository.profileOf user c.db), ⟨c.db, w⟩) ∧
    w.cache = c.store.cache ∧ w.now = c.store.now := by
  unfold MFARepository.userProfile MFARepository.profileOf
  rw [Prog.solo_bind_ok (solo_look fun _ _ => rfl)]
  cases c.db.users.get user with
  | none => exact ⟨_, rfl, rfl, rfl⟩
  | some row =>
      dsimp only
      split
      · exact ⟨_, rfl, rfl, rfl⟩
      · rw [Prog.solo_bind_ok (solo_look fun _ _ => rfl)]
        exact ⟨_, rfl, rfl, rfl⟩

theorem solo_getWorkflow : ∃ w, (getWorkflow token).solo i providers.allow c =
      some ((show Option Workflow from
        c.store.cache.get c.store.now (.loginWorkflow token)).elim (.error workflowInvalid) .ok,
          ⟨c.db, w⟩) ∧
    w.cache = c.store.cache ∧ w.now = c.store.now := by
  unfold getWorkflow
  rw [Prog.solo_bind_ok solo_getLoginWorkflow]
  cases c.store.cache.get c.store.now (.loginWorkflow token) with
  | none => exact ⟨_, rfl, rfl, rfl⟩
  | some workflow => exact ⟨_, rfl, rfl, rfl⟩

theorem solo_activeProfile {user : Uuid} : ∃ w, (activeProfile user).solo i providers.allow c =
      some ((activeProfileOf user c.db).elim (.error workflowInvalid) .ok, ⟨c.db, w⟩) ∧
    w.cache = c.store.cache ∧ w.now = c.store.now := by
  obtain ⟨w, hsolo, hcache, hnow⟩ := @solo_userProfile i providers c user
  refine ⟨w, ?_, hcache, hnow⟩
  unfold activeProfile activeProfileOf
  rw [Prog.solo_bind_ok hsolo]
  cases MFARepository.profileOf user c.db with
  | none => rfl
  | some profile =>
      dsimp only
      by_cases hactive : profile.state = .active
      · rw [if_neg (not_not.mpr hactive), if_pos hactive]
        rfl
      · rw [if_pos hactive, if_neg hactive]
        rfl

end Solo

end MFAControl

open MFAControl

end AuthCore
