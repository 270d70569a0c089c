/-
What the commits of accounts and of workspaces guarantee, from what each of their writes does.
-/
import AuthCore.History.Erasure
import AuthCore.History.Frames

namespace AuthCore

open Interleave Relational PrivacyRepository

/-- The writes of account events, apart from an erasure and the artifact of an export. -/
structure AccountWrites (R : Db → Db → Prop) : Prop where
  setUserState : ∀ d id state, R d ((DbChange.setUserState id state).apply d)
  addRequest : ∀ d id row, R d ((DbChange.addRequest id row).apply d)
  setRequest : ∀ d id g huser hkey, R d ((DbChange.setRequest id g huser hkey).apply d)
  addExport : ∀ d id row, R d ((DbChange.addExport id row).apply d)
  setExport : ∀ d id g huser hkey, R d ((DbChange.setExport id g huser hkey).apply d)
  audit : ∀ d entry, R d ((DbChange.addAudit entry).apply d)

section Accounts

variable {R : Db → Db → Prop} (h : AccountWrites R)
include h

theorem guarantees_suspend (target actor : Uuid) :
    (RecoveryRepository.suspend target actor).Guarantees R := by
  refine (guarantees_lockRow _ _).bind fun row => ?_
  split
  · trivial
  · split
    · trivial
    · exact ⟨fun d => h.setUserState d _ _, fun d => h.audit d _, trivial⟩

theorem guarantees_insertRequest (id user : Uuid) (keyHash : Digest) :
    (insertRequest id user keyHash).Guarantees R :=
  (guarantees_reserve _ _ _).bind fun _ =>
    ⟨fun d => h.addRequest d _ _, fun d => h.audit d _, trivial⟩

theorem guarantees_failRequest (id user : Uuid) (code : String) :
    (failRequest id user code).Guarantees R := by
  refine (guarantees_lockRow _ _).bind fun row => ?_
  split
  · trivial
  · split
    · exact ⟨fun d => h.setRequest d _ _ _ _, trivial⟩
    · trivial

theorem guarantees_insertExport (id user : Uuid) (keyHash : Digest) (expiresAt : Time) :
    (insertExport id user keyHash expiresAt).Guarantees R :=
  (guarantees_reserve _ _ _).bind fun _ =>
    ⟨fun d => h.addExport d _ _, fun d => h.audit d _, trivial⟩

theorem guarantees_storeExport {args : CompleteArgs}
    (hadd : ∀ d, R d ((DbChange.addArtifact args.artifactId ⟨args.requestId, args.userId,
      args.encryptedContent, args.contentDigest, args.artifactExpiresAt⟩).apply d)) :
    (storeExport args).Guarantees R := by
  refine (guarantees_lockRow _ _).bind fun row => ?_
  split
  · trivial
  · split
    · exact (guarantees_reserve _ _ _).bind fun _ =>
        ⟨hadd, fun d => h.setExport d _ _ _ _, fun d => h.audit d _, trivial⟩
    · trivial

theorem guarantees_failExportRequest (id user : Uuid) (code : String) :
    (failExportRequest id user code).Guarantees R := by
  refine (guarantees_lockRow _ _).bind fun row => ?_
  split
  · trivial
  · split
    · exact ⟨fun d => h.setExport d _ _ _ _, trivial⟩
    · trivial

/-- The rule for accounts, up to the two commits that write more. -/
theorem AccountEvent.guarantees (event : AccountEvent) {commit : Commit}
    (herased : ∀ args email found result, event = .erased args (.erased email found) result →
      (eraseWrites args email found).Guarantees R)
    (hcompleted : ∀ args result, event = .exportCompleted args result →
      (storeExport args).Guarantees R)
    (hcommit : event.commit = some commit) : commit.body.Guarantees R := by
  unfold AccountEvent.commit at hcommit
  split at hcommit
  · cases hcommit
    exact guarantees_suspend h _ _
  · cases hcommit
    exact guarantees_insertRequest h _ _ _
  · cases hcommit
    exact ⟨fun d => h.setRequest d _ _ _ _, trivial⟩
  · cases hcommit
    exact herased _ _ _ _ rfl
  · cases hcommit
    exact guarantees_failRequest h _ _ _
  · cases hcommit
    exact guarantees_insertExport h _ _ _ _
  · cases hcommit
    exact hcompleted _ _ rfl
  · cases hcommit
    exact guarantees_failExportRequest h _ _ _
  · cases hcommit

end Accounts

/-- The rule for workspaces: departures write bindings and sessions, the rest writes workspaces. -/
theorem WorkspaceEvent.guarantees {R : Db → Db → Prop} (event : WorkspaceEvent) {commit : Commit}
    (hworkspaces : ∀ d d', Tx.Keeps Db.outsideWorkspaces d d' → R d d')
    (hoffboarding : ∀ d d', Tx.Keeps (fun d => { d with bindings := ∅, sessions := ∅, audit := [] })
      d d' → R d d')
    (hcommit : event.commit = some commit) : commit.body.Guarantees R := by
  by_cases hstays : ∀ args departure result, event ≠ .offboarded args departure result
  · exact (event.keeps hcommit hstays).mono hworkspaces
  · simp only [not_forall, ne_eq, not_not] at hstays
    obtain ⟨args, departure, result, rfl⟩ := hstays
    cases departure with
    | none => cases hcommit
    | some departure =>
        cases result with
        | none => cases hcommit
        | some result =>
            cases hcommit
            exact (keeps_offboardWrites args departure).mono hoffboarding

end AuthCore
