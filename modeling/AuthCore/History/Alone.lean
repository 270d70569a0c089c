/-
What the statements on a single row come to when their transaction runs alone:
the locked row is the stored one.
-/
import AuthCore.Model.Service

namespace AuthCore

open Interleave RecoveryRepository

variable {d : Db} {p : Db → Db} {k : Uuid}

section Factors

theorem changeFactor_alone {condition : MFADevice → Bool} {f : MFADevice → MFADevice} :
    (MFARepository.changeFactor k condition f).alone d p =
      Tx.alone d p (match d.mfaDevices.get k with
        | none => return false
        | some row => if condition row then do
            write (DbChange.setFactor k f)
            return true
          else return false) :=
  rfl

theorem dropPending_alone {user : Uuid} {now : Time} :
    (MFARepository.dropPending user now k).alone d p =
      Tx.alone d p (match d.mfaDevices.get k with
        | none => return ()
        | some row =>
            if row.userId == user && row.factorType == .totp && row.status == .pending then
              write (DbChange.setFactor k fun row =>
                { row with status := .revoked, revokedAt := some now })
            else return ()) :=
  rfl

theorem deleteFactor_alone {user : Uuid} {found : Uuid × List String} :
    (PrivacyRepository.deleteFactor user found).alone d p =
      Tx.alone d p (match d.mfaDevices.get found.1 with
        | none => return ()
        | some row => if row.userId == user then write (DbChange.deleteFactor found.1 found.2)
            else return ()) :=
  rfl

end Factors

section Identities

theorem storePasswordHash_alone {user : Uuid} {hash : String} :
    (LoginRepository.storePasswordHash user hash (some k)).alone d p =
      Tx.alone d p (match d.identities.get k with
        | none => return ()
        | some row => if row.userId == user && row.provider == .password then
            write (DbChange.setPasswordHash k hash) else return ()) :=
  rfl

theorem markVerified_alone {user : Uuid} {provider : IdentityProvider} :
    (RegistrationRepository.markVerified user provider k).alone d p =
      Tx.alone d p (match d.identities.get k with
        | none => return ()
        | some row => if row.userId == user && row.provider == provider then
            write (DbChange.setVerified k)
          else return ()) :=
  rfl

theorem activatePhone_alone {user : Uuid} :
    (RegistrationRepository.activatePhone user).alone d p =
      Tx.alone d p (if (d.users.get user).any RegistrationRepository.verifiable then do
        write (DbChange.setUserState user .active)
        match (d.userView user).phones with
        | [] => return false
        | id :: _ => do
            RegistrationRepository.markVerified user .phone id
            write (DbChange.addAudit ⟨none, some user, none, "PHONE_VERIFIED", "success"⟩)
            return true
      else return false) :=
  rfl

theorem lockLogin_alone {user : Uuid} {contactType : ContactType} :
    (RecoveryRepository.lockLogin user contactType k).alone d p =
      Tx.alone d p (match d.identities.get k with
        | none => return none
        | some row => if row.userId == user && row.provider == contactProvider contactType then
            return some (k, row) else return none : Trans (Option (Uuid × Identity))) :=
  rfl

theorem deleteIdentity_alone {user : Uuid} :
    (PrivacyRepository.deleteIdentity user k).alone d p =
      Tx.alone d p (match d.identities.get k with
        | none => return ()
        | some row => if row.userId == user then write (DbChange.deleteIdentity k row)
            else return ()) :=
  rfl

end Identities

theorem noteDevice_alone {args : SignalArgs} :
    (LoginRepository.noteDevice args (some k)).alone d p =
      Tx.alone d p (match d.devices.get k with
        | some row =>
            if row.userId == args.userId && row.fingerprintHash == args.fingerprintHash then do
              write (DbChange.touchDevice k args.ip args.now)
              return ⟨true, row.trustState == .trusted,
                args.ip.isSome && row.lastIpAddress.isSome && row.lastIpAddress != args.ip⟩
            else
              LoginRepository.noteDevice.unknown args
        | none => LoginRepository.noteDevice.unknown args) :=
  rfl

section Users

theorem unlock_alone {actor : Uuid} :
    (RecoveryRepository.unlock k actor).alone d p =
      Tx.alone d p (match (d.users.get k).filter
          (fun row => row.state == .active || row.state == .locked) with
        | none => return none
        | some row => do
            write (DbChange.setUserState k .active)
            write (DbChange.addAudit ⟨some actor, some k, none, "ACCOUNT_UNLOCKED", "success"⟩)
            return some
              (recoveryUser k { row with state := .active, version := row.version + 1 })) :=
  rfl

theorem suspend_alone {actor : Uuid} :
    (RecoveryRepository.suspend k actor).alone d p =
      Tx.alone d p (match d.users.get k with
        | none => return false
        | some row =>
            if row.state == .disabled || row.state == .anonymized then return false
            else do
              write (DbChange.setUserState k .suspended)
              write (DbChange.addAudit
                ⟨some actor, some k, none, "ACCOUNT_SUSPENDED", "success"⟩)
              return true) :=
  rfl

end Users

section Contacts

theorem deleteContactChange_alone {user : Uuid} :
    (PrivacyRepository.deleteContactChange user k).alone d p =
      Tx.alone d p (match d.contactChanges.get k with
        | none => return ()
        | some row => if row.userId == user then write (DbChange.deleteContactChange user k)
            else return ()) :=
  rfl

theorem proveContactChange_alone {args : ProofArgs} :
    (proveContactChange args).alone d p =
      Tx.alone d p (match d.contactChanges.get args.requestId with
        | none => return none
        | some row =>
            if row.userId ≠ args.userId || row.state ≠ .pending || row.expiresAt ≤ args.now then
              return none
            else if expectedHash row args.proof ≠ args.codeHash then
              return none
            else do
              write (DbChange.proveContact args.requestId args.proof args.now)
              if (proved row args.proof args.now).oldVerifiedAt.isSome &&
                  (proved row args.proof args.now).newVerifiedAt.isSome then do
                let view ← lockRow (.user args.userId)
                match (UserView.row view).filter (·.state == .active) with
                | none => return none
                | some user => do
                    applyContactChange args row user view
                    return some (contactRecord args.requestId
                      { proved row args.proof args.now with
                        state := .applied, appliedAt := some args.now })
              else
                return some (contactRecord args.requestId (proved row args.proof args.now))) :=
  rfl

/-- The end of it, for a request that both of its codes have been presented for. -/
theorem applyProved_alone {args : ProofArgs} {row : ContactChangeRequest}
    {record : ContactChangeRecord} :
    Tx.alone d p (do
        let view ← lockRow (.user args.userId)
        match (UserView.row view).filter (·.state == .active) with
        | none => return none
        | some user => do
            applyContactChange args row user view
            return some record) =
      Tx.alone d p (match (d.users.get args.userId).filter (·.state == .active) with
        | none => return none
        | some user => do
            applyContactChange args row user (d.userView args.userId)
            return some record) :=
  rfl

theorem withdrawInvitation_alone {email pseudonym : String} :
    (PrivacyRepository.withdrawInvitation email pseudonym k).alone d p =
      Tx.alone d p (match d.invitations.get k with
        | none => return ()
        | some row => if row.inviteeEmail == email then
              write (DbChange.setInvitation k fun row =>
                { row with
                  inviteeEmail := "erased-" ++ pseudonym ++ "@invalid.local", state := .revoked })
            else return ()) :=
  rfl

end Contacts

section Mailed

theorem useUp_alone {args : MailArgs} :
    (RegistrationRepository.useUp args k).alone d p =
      Tx.alone d p (match d.ephemeral.get k with
        | none => pure ()
        | some row => if row.userId == args.userId && args.purposes.contains row.purpose &&
            row.consumedAt.isNone then write (DbChange.useMailed k args.now) else pure ()) :=
  rfl

theorem lockMailed_alone {hash : Digest} {purposes : List TokenPurpose} {now : Time} :
    (RegistrationRepository.lockMailed hash purposes now (some k)).alone d p =
      Tx.alone d p (match d.ephemeral.get k with
        | none => pure none
        | some row => if row.tokenHash == hash && purposes.contains row.purpose &&
            row.consumedAt.isNone && now < row.expiresAt then pure (some (k, row))
          else pure none : Trans (Option (Uuid × EphemeralToken))) :=
  rfl

theorem resetAccount_alone {known : String → Bool} {args : ResetArgs} {tokenId userId : Uuid} :
    (resetAccount known args tokenId userId).alone d p =
      Tx.alone d p (match (d.userView userId).row, (d.userView userId).passwords with
        | some user, identityId :: _ => do
            let identity ← lockRow (.identity identityId)
            resetIdentity known args tokenId userId user identityId (IdentityView.history identity)
        | _, _ => return (.invalid, none)) :=
  rfl

end Mailed

section Sessions

theorem rotateMatch_alone {args : RotateArgs} {found : TokenMatch} :
    (SessionRepository.rotateMatch args (some found)).alone d p =
      Tx.alone d p (match (d.tokens.select fun _ t => t.familyId == found.familyId).find?
          (fun entry => entry.1 == found.tokenId), d.families.get found.familyId,
          d.sessions.get found.sessionId with
        | some (_, token), some family, some session =>
            if token.tokenHash == args.tokenHash && session.familyId == found.familyId then
              SessionRepository.rotateLocked args found.tokenId token
                ⟨found.sessionId, session, family⟩
            else
              return ⟨.invalid, none, none⟩
        | _, _, _ => return ⟨.invalid, none, none⟩) :=
  rfl

theorem cancelExport_alone {user : Uuid} :
    (PrivacyRepository.cancelExport user k).alone d p =
      Tx.alone d p (match d.exports.get k with
        | none => return ()
        | some row => if row.userId == user then write (DbChange.setExport k (fun row =>
              { row with
                state := .cancelled, artifactReference := none, artifactExpiresAt := none })
              (fun _ => rfl) fun _ => rfl)
            else return ()) :=
  rfl

end Sessions

end AuthCore
