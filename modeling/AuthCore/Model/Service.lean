/-
The application: every call of every control over the shared database and
store.
-/
import AuthCore.Interleave.Machine
import AuthCore.Model.Account
import AuthCore.Model.LoginControl
import AuthCore.Model.MFAControl
import AuthCore.Model.RecoveryControl

namespace AuthCore

open Interleave

def program (env : Env) (me : Nat) : Call → Proc Result
  | .createSession token client fingerprint ip =>
      SessionControl.createSession env me token client fingerprint ip
  | .refresh token client fingerprint => SessionControl.refresh env me token client fingerprint
  | .authenticate token => do return .claims (← SessionControl.authenticate token)
  | .logout claims => SessionControl.logout claims
  | .logoutAll claims => SessionControl.logoutAll claims
  | .sessions claims => SessionControl.sessions claims
  | .revokeSelected claims session => SessionControl.revokeSelected claims session
  | .createOrganization user name => WorkspaceControl.createOrganization env me user name
  | .inviteOrganizationMember actor workspace email role =>
      WorkspaceControl.inviteOrganizationMember env me actor workspace email role
  | .acceptOrganizationInvitation user token =>
      WorkspaceControl.acceptOrganizationInvitation env me user token
  | .replaceMemberRole actor workspace member role =>
      WorkspaceControl.replaceMemberRole me actor workspace member role
  | .offboardMember actor workspace member =>
      WorkspaceControl.offboardMember me actor workspace member
  | .switchWorkspace token workspace => WorkspaceControl.switchWorkspace me token workspace
  | .suspend claims target => SupportAdminControl.suspend claims target
  | .requestErasure claims key => GDPRControl.requestErasure env me claims key
  | .loginPassword email password fingerprint ip =>
      LoginControl.loginPassword env me email password fingerprint ip
  | .requestPhoneOtp phone => LoginControl.requestPhoneOtp env me phone
  | .loginPhone phone code fingerprint ip =>
      LoginControl.loginPhone env me phone code fingerprint ip
  | .startOidc provider => LoginControl.startOidc me provider
  | .loginOidc provider state code fingerprint ip =>
      LoginControl.loginOidc env me provider state code fingerprint ip
  | .fallbackOptions token => LoginControl.fallbackOptions token
  | .availableMethods token => MFAControl.availableMethods token
  | .listFactors token => MFAControl.listFactors token
  | .revokeFactor token factor => MFAControl.revokeFactor me token factor
  | .issueChallenge token method => MFAControl.issueChallenge env me token method
  | .resendChallenge token => MFAControl.resendChallenge env me token
  | .verifyChallenge token code => MFAControl.verifyChallenge env me token code
  | .setupTotp token label => MFAControl.setupTotp env me token label
  | .confirmTotp token code => MFAControl.confirmTotp env me token code
  | .passkeyRegistrationOptions token label =>
      MFAControl.passkeyRegistrationOptions me token label
  | .confirmPasskeyRegistration token credential =>
      MFAControl.confirmPasskeyRegistration env me token credential
  | .passkeyAuthenticationOptions token => MFAControl.passkeyAuthenticationOptions me token
  | .verifyPasskey token credential => MFAControl.verifyPasskey env me token credential
  | .proveCollisionPassword token password =>
      MFAControl.proveCollisionPassword env me token password
  | .registerEmail email password givenName familyName =>
      RegistrationControl.registerEmail env me email password givenName familyName
  | .requestEmailVerification email => RegistrationControl.requestEmailVerification env me email
  | .verifyEmail token => RegistrationControl.verifyEmail env token
  | .registerPhone phone givenName familyName =>
      RegistrationControl.registerPhone env me phone givenName familyName
  | .requestPhoneVerification phone => RegistrationControl.requestPhoneVerification env me phone
  | .verifyPhone phone code => RegistrationControl.verifyPhone env phone code
  | .requestPasswordReset email => RecoveryControl.requestPasswordReset env me email
  | .resetPassword token password => RecoveryControl.resetPassword env me token password
  | .startContactChange claims contactType newValue =>
      RecoveryControl.startContactChange env me claims contactType newValue
  | .verifyContactChange claims request proof code =>
      RecoveryControl.verifyContactChange env claims request proof code
  | .unlock claims target => SupportAdminControl.unlock claims target
  | .supportRecovery claims target => SupportAdminControl.supportRecovery env me claims target
  | .initiateMfaReset claims target ticketReference =>
      SupportAdminControl.initiateMfaReset me claims target ticketReference
  | .approveMfaReset claims request => SupportAdminControl.approveMfaReset claims request
  | .executeMfaReset claims request => SupportAdminControl.executeMfaReset claims request
  | .getMfaReset claims request => SupportAdminControl.getMfaReset claims request
  | .requestExport claims key => GDPRControl.requestExport env me claims key

def application (env : Env) : Service schema World AuthError Result where
  Call := Call
  prog := program env
  onCall i call w := w.record i (.called call)
  onReturn i result w := w.record i (.returned result)
  tick n w := { w with now := w.now + n }

/-- A database before the first session: accounts, factors, devices, catalog
and staff as they may be, but no session, no organization with members, no
contact change and no governed request. -/
structure Initial (c : Core Db World) : Prop where
  families : c.db.families = ∅
  tokens : c.db.tokens = ∅
  sessions : c.db.sessions = ∅
  bindings : c.db.bindings = ∅
  contactChanges : c.db.contactChanges = ∅
  governed : c.db.governed = ∅
  cache : ∀ key, c.store.cache key = none
  issued : c.store.issued = []
  log : c.store.log = []

end AuthCore
