/-
The assurance that an access token has from a second security check.  The name
of the method goes from the check into the stored workflow, from there into the
token, and two gates look for it in their own lists of names.
-/
import AuthCore.Accounts.Rehashes
import AuthCore.Accounts.Workflows
import AuthCore.Audit.Search
import AuthCore.Codes.Authenticators

namespace AuthCore

open Interleave

variable {env : Env} {c : Core Db World} {m : Core Db World} {log : List (Nat × Event)}
  {i j : Nat} {key : Token} {workflow : Workflow} {method : MFAMethod} {claims : AccessClaims}

/-- Call `j` checks a code or a passkey and stores what it makes of the workflow
under `key`. -/
inductive CompletesBy (log : List (Nat × Event)) (j : Nat) (key : Token) (workflow : Workflow) :
    MFAMethod → Prop
  | challenge {later earlier : List (Nat × Event)} {ttl : Nat} {token : Token} {code : String}
      {payload : Challenge} :
      log = later ++ (j, .put (.loginWorkflow key) workflow ttl) :: earlier →
      (j, .called (.verifyChallenge token code)) ∈ earlier →
      (j, .got (.mfaChallenge token) (some payload)) ∈ earlier →
      CompletesBy log j key workflow payload.method
  | passkey {later earlier : List (Nat × Event)} {ttl : Nat} {token : Token}
      {credential : String} :
      log = later ++ (j, .put (.loginWorkflow key) workflow ttl) :: earlier →
      (j, .called (.verifyPasskey token credential)) ∈ earlier →
      CompletesBy log j key workflow .passkey

theorem CompletesBy.put (h : CompletesBy log j key workflow method) :
    ∃ ttl, (j, .put (.loginWorkflow key) workflow ttl) ∈ log := by
  cases h with
  | @challenge _ _ ttl _ _ _ hlog => exact ⟨ttl, by simp [hlog]⟩
  | @passkey _ _ ttl _ _ hlog => exact ⟨ttl, by simp [hlog]⟩

end AuthCore
