/-
One live access token per session.  When no call is in flight every replaced
token has been revoked in the store, and the revocation outlives the token, so
an accepted token is the one that its session names.
-/
import AuthCore.Sessions.Access

namespace AuthCore

open Interleave

variable {env : Env} {c m : Core Db World} {i : Nat} {claims : AccessClaims}

/-- The look for a revocation of the token, with what came before it. -/
theorem Passed.unrevoked {base t : List Event} (h : Passed claims base t) :
    ∃ after now, t = after ++ .got (.accessRevocation claims.jti) none ::
      .verified claims true :: .clock now :: base := by
  cases h with
  | @intro now revokedAt cutoff hcutoff =>
      exact ⟨.session (.sessionIsActive claims.sessionId now true) ::
        (cutoffRead claims cutoff ++ [.got (.userRevocation claims.userId) revokedAt,
          .got (.familyRevocation claims.familyId) none]), now, by simp⟩

/-- A session that is active is stored, unrevoked and within its lifetime. -/
theorem stored_of_sessionIsActive {session : Uuid} {now : Time} {d : Db}
    (h : SessionRepository.sessionIsActive session now d = true) :
    ∃ s family, d.sessions.get session = some s ∧ d.families.get s.familyId = some family ∧
      SessionRepository.live now s family = true := by
  simp only [SessionRepository.sessionIsActive, Bool.not_eq_true',
    List.isEmpty_eq_false_iff_exists_mem] at h
  obtain ⟨⟨k, s⟩, hmem⟩ := h
  obtain ⟨hget, hcondition⟩ := Relational.Table.mem_select.mp hmem
  split at hcondition
  · cases hcondition
  · rename_i family hfamily
    simp only [Bool.and_eq_true, beq_iff_eq] at hcondition
    obtain ⟨rfl, hlive⟩ := hcondition
    exact ⟨s, family, hget, hfamily, hlive⟩

theorem suffix_trace {log log' : List (Nat × Event)} (h : log <:+ log') (i : Nat) :
    trace i log <:+ trace i log' := by
  obtain ⟨between, rfl⟩ := h
  rw [trace_append]
  exact List.suffix_append _ _

/-- A login and a refresh that replaces its access token. -/
def renewedSession : List SampleMove :=
  signIn 0 "ann" ++ perform 2 (.refresh (.drawn 1 0) .web "phone") 16

end AuthCore
