/-
Every run of the application is a history of its ledger: the state is the one
its log describes, and a call that is over has recorded its return.
-/
import AuthCore.History.Factors
import AuthCore.History.Recoveries

namespace AuthCore

open Interleave

variable {env : Env} {start : Core Db World}

theorem runs_program (i : Nat) (call : Call) :
    Runs env start i [.called call] (program env i call) := by
  cases call with
  | createSession token client fingerprint ip =>
      exact runs_createSession token client fingerprint ip
  | refresh token client fingerprint => exact runs_refresh token client fingerprint
  | authenticate token => exact runs_authenticateCall token
  | logout claims => exact runs_logout claims
  | logoutAll claims => exact runs_logoutAll claims
  | sessions claims => exact runs_sessions claims
  | revokeSelected claims session => exact runs_revokeSelected claims session
  | createOrganization user name => exact runs_createOrganization user name
  | inviteOrganizationMember actor workspace email role =>
      exact runs_inviteOrganizationMember actor workspace email role
  | acceptOrganizationInvitation user token => exact runs_acceptOrganizationInvitation user token
  | replaceMemberRole actor workspace member role =>
      exact runs_replaceMemberRole actor workspace member role
  | offboardMember actor workspace member => exact runs_offboardMember actor workspace member
  | switchWorkspace token workspace => exact runs_switchWorkspace token workspace
  | suspend claims target => exact runs_suspend claims target
  | requestErasure claims key => exact runs_requestErasure claims key
  | loginPassword email password fingerprint ip =>
      exact runs_loginPassword email password fingerprint ip
  | requestPhoneOtp phone => exact runs_requestPhoneOtp phone
  | loginPhone phone code fingerprint ip => exact runs_loginPhone phone code fingerprint ip
  | startOidc provider => exact runs_startOidc provider
  | loginOidc provider state code fingerprint ip =>
      exact runs_loginOidc provider state code fingerprint ip
  | fallbackOptions token => exact runs_fallbackOptions token
  | availableMethods token => exact runs_availableMethods token
  | listFactors token => exact runs_listFactors token
  | revokeFactor token factor => exact runs_revokeFactor token factor
  | issueChallenge token method => exact runs_issueChallenge token method
  | resendChallenge token => exact runs_resendChallenge token
  | verifyChallenge token code => exact runs_verifyChallenge token code
  | setupTotp token label => exact runs_setupTotp token label
  | confirmTotp token code => exact runs_confirmTotp token code
  | passkeyRegistrationOptions token label => exact runs_passkeyRegistrationOptions token label
  | confirmPasskeyRegistration token credential =>
      exact runs_confirmPasskeyRegistration token credential
  | passkeyAuthenticationOptions token => exact runs_passkeyAuthenticationOptions token
  | verifyPasskey token credential => exact runs_verifyPasskey token credential
  | proveCollisionPassword token password => exact runs_proveCollisionPassword token password
  | registerEmail email password givenName familyName =>
      exact runs_registerEmail email password givenName familyName
  | requestEmailVerification email => exact runs_requestEmailVerification email
  | verifyEmail token => exact runs_verifyEmail token
  | registerPhone phone givenName familyName => exact runs_registerPhone phone givenName familyName
  | requestPhoneVerification phone => exact runs_requestPhoneVerification phone
  | verifyPhone phone code => exact runs_verifyPhone phone code
  | requestPasswordReset email => exact runs_requestPasswordReset email
  | resetPassword token password => exact runs_resetPassword token password
  | startContactChange claims contactType newValue =>
      exact runs_startContactChange claims contactType newValue
  | verifyContactChange claims request proof code =>
      exact runs_verifyContactChange claims request proof code
  | unlock claims target => exact runs_unlock claims target
  | supportRecovery claims target => exact runs_supportRecovery claims target
  | initiateMfaReset claims target ticket => exact runs_initiateMfaReset claims target ticket
  | approveMfaReset claims request => exact runs_approveMfaReset claims request
  | executeMfaReset claims request => exact runs_executeMfaReset claims request
  | getMfaReset claims request => exact runs_getMfaReset claims request
  | requestExport claims key => exact runs_requestExport claims key

/-- The states the log of a run can describe. -/
def History (env : Env) (c c' : Core Db World) : Prop :=
  (ledger env).History c c'

theorem application_kept (env : Env) (start : Core Db World) :
    ((ledger env).protocol start).Kept (application env) where
  call i call c hc hidle := by
    have hrecords : (ledger env).Records i (.called call) c
        ⟨c.db, c.store.record i (.called call)⟩ := by
      refine records_of_tells hidle rfl rfl trivial ?_
      rfl
    obtain ⟨henabled, happly⟩ := hrecords
    change ((ledger env).protocol start).Allows i c ⟨c.db, c.store.record i (.called call)⟩ ∧
      ((ledger env).protocol start).wpCall (application env) i (program env i call)
        ⟨c.db, c.store.record i (.called call)⟩
    rw [happly]
    refine ⟨(ledger env).allows_apply hc henabled, runs_program i call _ ?_ ?_⟩
    · exact Ledger.Leads.event hc trivial henabled
    · rw [Ledger.trace_apply]
      exact congrArg _ hidle
  tick n c hc := ⟨Ledger.Leads.pass n hc, fun i => Ledger.Leads.pass n Ledger.Leads.refl⟩

/-- The application refines its ledger. -/
theorem history_of_reachable {c : Core Db World} (hlog : c.store.log = [])
    {s : Config schema World AuthError Result} (h : (application env).Reachable c s) :
    History env c s.core :=
  (application_kept env c).inv_of_reachable Ledger.Leads.refl
    (fun i => by change trace i c.store.log = []; rw [hlog]; rfl) h

end AuthCore
