/-
The enrolment of an authenticator or a passkey.  The factors are counted when it
begins, and the challenge that it hands out is confirmed by another call.
-/
import AuthCore.Accounts.StrongFactors

namespace AuthCore

open Interleave Relational

section Steps

variable {m : Core Db World} {u g : Uuid}

end Steps

/-- A call works on the workflow that it has from the store under `key`. -/
def Descends (key : CacheKey) (workflow : Workflow) (t : List Event) : Prop :=
  ∃ (value : key.Value) (e : Event), e ∈ t ∧ e.Reads key value ∧
    key.carried value = some workflow

section Runs

variable {env : Env} {c m : Core Db World} {u g : Uuid}

end Runs

instance (u g : Uuid) (d : Db) : Decidable (Strong u g d) :=
  match h : d.mfaDevices.get g with
  | none => .isFalse fun ⟨row, hrow, _⟩ => by rw [h] at hrow; cases hrow
  | some row =>
      decidable_of_iff (row.userId = u ∧ MFAControl.isStrong row = true ∧ row.status = .active)
        ⟨fun hstrong => ⟨row, h, hstrong⟩, fun ⟨_, hrow, hstrong⟩ => by
          rw [h] at hrow
          exact Option.some.inj hrow ▸ hstrong⟩

end AuthCore
