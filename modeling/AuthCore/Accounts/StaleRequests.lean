/-
A governed request whose target has changed.  The decision that finds the
change cancels the request and raises in one transaction, and the exception
takes the cancellation back: no request is ever stored as cancelled.
-/
import AuthCore.Accounts.GovernedReset

namespace AuthCore

open Interleave Relational RecoveryRepository

def AuthError.isTargetChanged : AuthError → Bool
  | .recovery .targetChanged _ _ => true
  | _ => false

/-- The calls that decide on a request. -/
inductive Decides (request : Uuid) : Call → Prop
  | approve {claims : AccessClaims} : Decides request (.approveMfaReset claims request)
  | execute {claims : AccessClaims} : Decides request (.executeMfaReset claims request)

/-- Some decision on the request has raised that its target has changed. -/
def FoundChanged (log : List (Nat × Event)) (request : Uuid) : Prop :=
  ∃ i call error, Decides request call ∧ (i, .called call) ∈ log ∧
    (i, .returned (.error error)) ∈ log ∧ error.isTargetChanged = true

/-- The answers of the repository to a decision on the request: whether there
is one. -/
inductive Answers (request : Uuid) : Event → Bool → Prop
  | approval {args : GovernedArgs} {result : Option GovernedResetRecord} :
      args.requestId = request → Answers request (.recovery (.resetApproved args result))
        result.isSome
  | execution {args : GovernedArgs} {found : List Uuid}
      {result : Option (GovernedResetRecord × RecoveryUser)} :
      args.requestId = request → Answers request (.recovery (.resetExecuted args found result))
        result.isSome

/-- What a decision on an open request raises. -/
def decisionErrors : List AuthError :=
  [fourEyesRequired, governedTooEarly, changedAfterStart, changedAfterApproval]

def CancelledIn (d : Db) (request : Uuid) : Prop :=
  ∃ row, d.governed.get request = some row ∧ row.state = .cancelled

/-- From the first decision on that finds the target changed, the request is
cancelled, decisions on it have no answer and change nothing, and none that is
made later raises. -/
structure CancelsStale (d : Db) (log : List (Nat × Event)) (request : Uuid) : Prop where
  stored : ∀ later earlier, log = later ++ earlier → FoundChanged earlier request →
    CancelledIn (replay d earlier) request
  refused : ∀ later i e earlier answered, log = later ++ (i, e) :: earlier →
    FoundChanged earlier request → Answers request e answered →
    answered = false ∧ replay d ((i, e) :: earlier) = replay d earlier
  silent : ∀ later i call earlier error, log = later ++ (i, .called call) :: earlier →
    FoundChanged earlier request → Decides request call →
    (i, .returned (.error error)) ∈ later → error ∉ decisionErrors

theorem FoundChanged.mono {log log' : List (Nat × Event)} {request : Uuid}
    (h : FoundChanged log request) (hsub : ∀ entry ∈ log, entry ∈ log') :
    FoundChanged log' request := by
  obtain ⟨i, call, error, hdecides, hcalled, hreturned, herror⟩ := h
  exact ⟨i, call, error, hdecides, hsub _ hcalled, hsub _ hreturned, herror⟩

/-- No stored request is cancelled. -/
def NoneCancelled (d : Db) : Prop :=
  ∀ id row, d.governed.get id = some row → row.state ≠ .cancelled

theorem NoneCancelled.not_cancelled {d : Db} (h : NoneCancelled d) (request : Uuid) :
    ¬CancelledIn d request := by
  rintro ⟨row, hget, hcancelled⟩
  exact h request row hget hcancelled

/-- A write to one request leaves the others and stores a row of its own. -/
theorem NoneCancelled.update {d d' : Db} (h : NoneCancelled d) {request : Uuid}
    {f : GovernedRequest → GovernedRequest} (hstate : ∀ row, (f row).state ≠ .cancelled)
    (hwrite : d'.governed = d.governed.update (fun k _ => k == request) f) : NoneCancelled d' := by
  intro id row hget
  rw [hwrite, Table.get_update, Option.map_eq_some_iff] at hget
  obtain ⟨old, hold, hnew⟩ := hget
  split at hnew
  · rw [← hnew]
    exact hstate old
  · rw [← hnew]
    exact h id old hold

/-- No event of a run stores a cancelled request. -/
theorem GovernedStep.noneCancelled {d d' : Db} {e : Event} (hstep : GovernedStep d d' e)
    (h : NoneCancelled d) : NoneCancelled d' := by
  cases hstep with
  | same heq =>
      intro id row hget
      rw [heq] at hget
      exact h id row hget
  | @initiated args user result hnone heq =>
      intro id row hget
      rw [heq, Table.get_add_of_new hnone] at hget
      split at hget
      · cases hget
        exact nofun
      · exact h id row hget
  | approved _ _ _ heq =>
      refine h.update (fun row hcancelled => ?_) heq
      cases hcancelled
  | executed _ _ _ _ _ _ heq =>
      refine h.update (fun row hcancelled => ?_) heq
      cases hcancelled

theorem noneCancelled_of_history {env : Env} {c m : Core Db World} (hinit : Initial c)
    (h : History env c m) : NoneCancelled m.db := by
  refine Ledger.Leads.preserves (P := fun m : Core Db World => NoneCancelled m.db) h ?_ ?_ ?_
  · intro id row hget
    rw [hinit.governed, Table.get_empty] at hget
    cases hget
  · intro m i e _ hm _ henabled
    exact (governed_change henabled.2).noneCancelled hm
  · intro m n _ hm
    exact hm

/-- Stale requests are cancelled in the runs in which none is found, and in no
other. -/
theorem stale_requests {env : Env} {c : Core Db World} (hinit : Initial c)
    {s : Config schema World AuthError Result} (h : (application env).Reachable c s)
    (request : Uuid) :
    CancelsStale c.db s.core.store.log request ↔ ¬FoundChanged s.core.store.log request := by
  have hhistory := history_of_reachable hinit.log h
  constructor
  · intro hcancels hfound
    have hstored := hcancels.stored [] s.core.store.log rfl hfound
    rw [← hhistory.db_eq hinit.log] at hstored
    exact (noneCancelled_of_history hinit hhistory).not_cancelled request hstored
  · intro hnone
    have hearlier : ∀ later earlier, s.core.store.log = later ++ earlier →
        ¬FoundChanged earlier request := by
      intro later earlier hlog hfound
      refine hnone (hfound.mono fun entry hentry => ?_)
      rw [hlog]
      exact List.mem_append_right later hentry
    constructor
    case stored =>
      intro later earlier hlog hfound
      exact absurd hfound (hearlier later earlier hlog)
    case refused =>
      intro later i e earlier answered hlog hfound
      exact absurd hfound (hearlier (later ++ [(i, e)]) earlier (by simp [hlog]))
    case silent =>
      intro later i call earlier error hlog hfound
      exact absurd hfound (hearlier (later ++ [(i, .called call)]) earlier (by simp [hlog]))

/-- Bob asks for a reset of Ann's factors, Ann changes her password and Eve
finds the account changed. -/
def staleMoves : List SampleMove :=
  perform 0 (.initiateMfaReset (strongClaims (.given 2)) (.given 1) "ticket") 10 ++
    mailLink 1 "ann" ++ useLink 2 (.drawn 1 0) "new" ++
    perform 3 (.approveMfaReset (strongClaims (.given 3)) (.drawn 0 0)) 8

def staleState : Config schema World AuthError Result :=
  ((application sampleEnv).run (Service.start staffedCore) staleMoves).getD
    (Service.start staffedCore)

theorem staleState_reachable : (application sampleEnv).Reachable staffedCore staleState := by
  have hsome : ((application sampleEnv).run (Service.start staffedCore) staleMoves).isSome =
      true := by decide +kernel
  obtain ⟨s, hs⟩ := Option.isSome_iff_exists.mp hsome
  exact ⟨staleMoves, by simp [staleState, hs]⟩

theorem staleState_found : FoundChanged staleState.core.store.log (.drawn 0 0) :=
  ⟨3, _, changedAfterStart, .approve, List.mem_of_getElem? (i := 4) rfl,
    List.mem_of_getElem? (i := 0) rfl, rfl⟩

/-- Eve's refusal leaves the request as it was, open to the next decision. -/
theorem stale_request_pending : (application sampleEnv).Reachable staffedCore staleState ∧
    FoundChanged staleState.core.store.log (.drawn 0 0) ∧
    (staleState.core.db.governed.get (.drawn 0 0)).map (·.state) = some .pending ∧
    ¬CancelsStale staffedCore.db staleState.core.store.log (.drawn 0 0) := by
  have hpending : (staleState.core.db.governed.get (.drawn 0 0)).map (·.state) =
      some .pending := by decide +kernel
  refine ⟨staleState_reachable, staleState_found, hpending, fun hcancels => ?_⟩
  have hstored := hcancels.stored [] staleState.core.store.log rfl staleState_found
  have hhistory := history_of_reachable staffedCore_initial.log staleState_reachable
  rw [← hhistory.db_eq staffedCore_initial.log] at hstored
  obtain ⟨row, hget, hcancelled⟩ := hstored
  rw [hget, Option.map_some, hcancelled] at hpending
  cases hpending

theorem stale_requests_of_ann : FoundChanged staleState.core.store.log (.drawn 0 0) ∧
    ¬CancelsStale staffedCore.db staleState.core.store.log (.drawn 0 0) := by
  refine ⟨staleState_found, fun hcancels => ?_⟩
  exact (stale_requests staffedCore_initial staleState_reachable (.drawn 0 0)).mp hcancels
    staleState_found

end AuthCore
