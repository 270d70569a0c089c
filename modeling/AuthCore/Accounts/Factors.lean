/-
What an event does to one factor.  Everything said about authenticators and
recovery codes over a run comes from this one step.
-/
import AuthCore.Accounts.Standing

namespace AuthCore

open Interleave Relational

/-- What an event does to the factor `g`, which was `f`. -/
inductive FactorStep (g : Uuid) (f : Option MFADevice) : Event → Option MFADevice → Prop
  | same {e : Event} : FactorStep g f e f
  | pending {owner : Uuid} {secret label : String} {now : Time} {found : List Uuid} :
      f = none →
      FactorStep g f (.mfa (.pendingTotpCreated owner secret label g now found))
        (some ⟨owner, .totp, some (.sealed secret), .pending, some label, none, none, none, none⟩)
  | dropped {owner id : Uuid} {secret label : String} {now : Time} {found : List Uuid}
      {row : MFADevice} :
      f = some row → row.userId = owner → row.factorType = .totp → row.status = .pending →
      FactorStep g f (.mfa (.pendingTotpCreated owner secret label id now found))
        (some (RecoveryRepository.revokedFactor now row))
  | activated {owner : Uuid} {step : Nat} {now : Time} {row : MFADevice} :
      f = some row → row.userId = owner → row.factorType = .totp → row.status = .pending →
      FactorStep g f (.mfa (.totpActivated owner g step now true))
        (some { row with
          status := .active, verifiedAt := some now, lastUsedAt := some now,
          lastTotpStep := some step })
  | advanced {previous : Option Nat} {step : Nat} {now : Time} {row : MFADevice} :
      f = some row → row.status = .active → row.lastTotpStep = previous →
      FactorStep g f (.mfa (.totpAdvanced g previous step now true))
        (some { row with lastTotpStep := some step, lastUsedAt := some now })
  | codes {owner : Uuid} {hashes : List Digest} {now : Time} {found : Option Uuid} :
      f = none →
      FactorStep g f (.mfa (.backupStored owner hashes g now found))
        (some ⟨owner, .backupCodes, some (.codes hashes), .active, some "Recovery codes", some now,
          none, none, none⟩)
  | recoded {owner id : Uuid} {hashes : List Digest} {now : Time} {row : MFADevice} :
      f = some row → MFARepository.isBackup owner row = true →
      FactorStep g f (.mfa (.backupStored owner hashes id now (some g)))
        (some { row with encryptedSecret := some (.codes hashes), lastUsedAt := none })
  | used {owner : Uuid} {candidate : Digest} {now : Time} {row : MFADevice} :
      f = some row → MFARepository.isBackup owner row = true →
      MFARepository.hasCode candidate row = true →
      FactorStep g f (.mfa (.backupConsumed owner candidate now (some g) true))
        (some (MFARepository.useCode candidate now row))
  | passkey {owner : Uuid} {label credential key : String} {count : Nat} {now : Time} :
      f = none →
      FactorStep g f (.mfa (.passkeyCreated owner label credential key count g now))
        (some ⟨owner, .passkey, none, .active, some label, some now, none, none, none⟩)
  | removed {owner : Uuid} {now : Time} {row : MFADevice} :
      f = some row → row.userId = owner → row.status = .active →
      FactorStep g f (.mfa (.factorRevoked owner g now true))
        (some (RecoveryRepository.revokedFactor now row))
  | reset {args : GovernedArgs} {found : List Uuid} {record : GovernedResetRecord}
      {user : RecoveryUser} {row : MFADevice} :
      f = some row → row.userId = user.userId →
      FactorStep g f (.recovery (.resetExecuted args found (some (record, user))))
        (some (RecoveryRepository.revokedFactor args.now row))
  | erased {args : ErasureArgs} {email : Option String} {found : ErasureFound}
      {result : Option PrivacyRequestRecord} {row : MFADevice} :
      f = some row → row.userId = args.userId →
      FactorStep g f (.account (.erased args (.erased email found) result)) none

section Steps

variable {m : Core Db World} {g k : Uuid} {d : Db} {e : Event} {p q : Db → Db}

theorem FactorStep.of_eq {f f' : Option MFADevice} (h : f' = f) : FactorStep g f e f' :=
  h ▸ .same

theorem get_addFactor {new : MFADevice} : ((DbChange.addFactor k new).apply d).mfaDevices.get g =
    (d.mfaDevices.get g).or (if g = k then some new else none) :=
  Table.get_add k new d.mfaDevices g

theorem get_setFactor {h : MFADevice → MFADevice} :
    ((DbChange.setFactor k h).apply d).mfaDevices.get g =
      (d.mfaDevices.get g).map fun row => if g = k then h row else row := by
  change (d.mfaDevices.update _ _).get g = _
  rw [Table.get_update]
  simp

theorem alone_changeFactor {condition : MFADevice → Bool} {f : MFADevice → MFADevice}
    {result : Bool × (Db → Db)}
    (h : (MFARepository.changeFactor k condition f).alone d p = .ok result) :
    result = (false, p) ∨ ∃ x, d.mfaDevices.get k = some x ∧ condition x = true ∧
      result = (true, (DbChange.setFactor k f).apply ∘ p) := by
  rw [changeFactor_alone] at h
  cases hget : d.mfaDevices.get k with
  | none =>
      rw [hget] at h
      cases h
      exact Or.inl rfl
  | some x =>
      rw [hget] at h
      dsimp only at h
      split at h
      · rename_i hcondition
        cases h
        exact Or.inr ⟨x, rfl, hcondition, rfl⟩
      · cases h
        exact Or.inl rfl

/-- The step of an event whose whole commit is one change under a condition. -/
theorem step_of_change {condition : MFADevice → Bool} {h : MFADevice → MFADevice} {result : Bool}
    (halone : (MFARepository.changeFactor k condition h).alone m.db id = .ok (result, q))
    (hstep : ∀ row, result = true → g = k → m.db.mfaDevices.get g = some row →
      condition row = true → FactorStep g (m.db.mfaDevices.get g) e (some (h row))) :
    FactorStep g (m.db.mfaDevices.get g) e ((q m.db).mfaDevices.get g) := by
  rcases alone_changeFactor halone with heq | ⟨row, hrow, hcondition, heq⟩
  · cases heq
    exact .same
  · cases heq
    change FactorStep g _ e (((DbChange.setFactor k h).apply m.db).mfaDevices.get g)
    rw [get_setFactor]
    by_cases hg : g = k
    · subst hg
      rw [hrow, Option.map_some, if_pos rfl, ← hrow]
      exact hstep row rfl rfl hrow hcondition
    · refine .of_eq ?_
      simp [hg]

/-- An insertion, when the rest of the commit has left the factors alone. -/
theorem step_of_add {new : MFADevice} {d' : Db}
    (hkept : d'.mfaDevices.get g = m.db.mfaDevices.get g)
    (hnew : k = g → m.db.mfaDevices.get g = none →
      FactorStep g (m.db.mfaDevices.get g) e (some new)) :
    FactorStep g (m.db.mfaDevices.get g) e
      (((DbChange.addFactor k new).apply d').mfaDevices.get g) := by
  rw [get_addFactor, hkept]
  cases hget : m.db.mfaDevices.get g with
  | some row => exact .same
  | none =>
      by_cases hg : g = k
      · rw [if_pos hg, Option.none_or, ← hget]
        exact hnew hg.symm hget
      · rw [if_neg hg]
        exact .same

/-- Writes to other tables. -/
theorem step_of_keeps
    (h : ∀ commit, e.commit = some commit → commit.body.Guarantees (Tx.Keeps Db.mfaDevices)) :
    FactorStep g (m.db.mfaDevices.get g) e ((e.change m.db).mfaDevices.get g) :=
  .of_eq (congrArg (Table.get · g) (Event.keeps_change h m.db))

/-- One statement leaves the factor as it is, or drops it. -/
theorem get_dropPending {user : Uuid} {now : Time}
    (h : (MFARepository.dropPending user now k).alone d p = .ok ((), q)) :
    (q d).mfaDevices.get g = (p d).mfaDevices.get g ∨
      ∃ row, d.mfaDevices.get g = some row ∧ row.userId = user ∧ row.factorType = .totp ∧
        row.status = .pending ∧ (q d).mfaDevices.get g =
          ((p d).mfaDevices.get g).map (RecoveryRepository.revokedFactor now) := by
  rw [dropPending_alone] at h
  cases hget : d.mfaDevices.get k with
  | none =>
      rw [hget] at h
      cases h
      exact Or.inl rfl
  | some x =>
      rw [hget] at h
      dsimp only at h
      split at h
      · rename_i hpending
        cases h
        simp only [Bool.and_eq_true, beq_iff_eq] at hpending
        change ((DbChange.setFactor k _).apply (p d)).mfaDevices.get g = _ ∨ ∃ row, _ ∧ _ ∧ _ ∧ _ ∧
          ((DbChange.setFactor k _).apply (p d)).mfaDevices.get g = _
        rw [get_setFactor]
        by_cases hg : g = k
        · subst hg
          refine Or.inr ⟨x, hget, hpending.1.1, hpending.1.2, hpending.2, ?_⟩
          simp only [if_true]
          rfl
        · exact Or.inl (by simp [hg])
      · cases h
        exact Or.inl rfl

/-- One statement of a governed reset. -/
theorem get_revokeFactor {user : Uuid} {now : Time}
    (h : (RecoveryRepository.revokeFactor user now k).alone d p = .ok ((), q)) :
    (q d).mfaDevices.get g = (p d).mfaDevices.get g ∨
      ∃ row, d.mfaDevices.get g = some row ∧ row.userId = user ∧ (q d).mfaDevices.get g =
        ((p d).mfaDevices.get g).map (RecoveryRepository.revokedFactor now) := by
  obtain ⟨_, p', hchange, hrest⟩ := Tx.alone_bind_eq_ok h
  cases hrest
  rcases alone_changeFactor hchange with heq | ⟨row, hrow, hcondition, heq⟩
  · cases heq
    exact Or.inl rfl
  · cases heq
    simp only [Bool.and_eq_true, beq_iff_eq] at hcondition
    change ((DbChange.setFactor k _).apply (p d)).mfaDevices.get g = _ ∨ ∃ row, _ ∧ _ ∧
      ((DbChange.setFactor k _).apply (p d)).mfaDevices.get g = _
    rw [get_setFactor]
    by_cases hg : g = k
    · subst hg
      exact Or.inr ⟨row, hrow, hcondition.1, by simp⟩
    · exact Or.inl (by simp [hg])

/-- One statement of an erasure. -/
theorem get_deleteFactor {user : Uuid} {found : Uuid × List String}
    (h : (PrivacyRepository.deleteFactor user found).alone d p = .ok ((), q)) :
    (q d).mfaDevices.get g = (p d).mfaDevices.get g ∨
      ∃ row, d.mfaDevices.get g = some row ∧ row.userId = user ∧
        (q d).mfaDevices.get g = none := by
  rw [deleteFactor_alone] at h
  cases hget : d.mfaDevices.get found.1 with
  | none =>
      rw [hget] at h
      cases h
      exact Or.inl rfl
  | some row =>
      rw [hget] at h
      dsimp only at h
      split at h
      · rename_i howner
        cases h
        change ((p d).mfaDevices.delete _).get g = _ ∨ ∃ row, _ ∧ _ ∧
          ((p d).mfaDevices.delete _).get g = _
        by_cases hg : g = found.1
        · subst hg
          exact Or.inr ⟨row, hget, by simpa using howner, by simp [Table.get_delete]⟩
        · exact Or.inl (by rw [Table.get_delete_of_out (fun _ => by simp [hg])])
      · cases h
        exact Or.inl rfl

/-- Statements each of which leaves the factor as it is or writes the same over it. -/
theorem get_sequence {bodies : List (Trans Unit)} {h : Option MFADevice → Option MFADevice}
    {C : MFADevice → Prop} (hidem : ∀ f, h (h f) = h f) (hseq : Tx.Sequence d bodies p q)
    (heach : ∀ body ∈ bodies, ∀ p' q' : Db → Db, body.alone d p' = .ok ((), q') →
      (q' d).mfaDevices.get g = (p' d).mfaDevices.get g ∨
        ∃ row, d.mfaDevices.get g = some row ∧ C row ∧
          (q' d).mfaDevices.get g = h ((p' d).mfaDevices.get g))
    (hstart : (p d).mfaDevices.get g = d.mfaDevices.get g) :
    (q d).mfaDevices.get g = d.mfaDevices.get g ∨
      ∃ row, d.mfaDevices.get g = some row ∧ C row ∧
        (q d).mfaDevices.get g = h (d.mfaDevices.get g) := by
  refine hseq.holds (P := fun p => (p d).mfaDevices.get g = d.mfaDevices.get g ∨
    ∃ row, d.mfaDevices.get g = some row ∧ C row ∧
      (p d).mfaDevices.get g = h (d.mfaDevices.get g)) ?_ (Or.inl hstart)
  intro body hbody p' q' hfirst hp
  rcases heach body hbody p' q' hfirst with hsame | ⟨row, hrow, hC, hwritten⟩
  · rwa [hsame]
  · refine Or.inr ⟨row, hrow, hC, ?_⟩
    rcases hp with hold | ⟨_, _, _, hbefore⟩
    · rw [hwritten, hold]
    · rw [hwritten, hbefore, hidem]

/-- Of the pieces of an erasure only the deletions of factors touch factors. -/
theorem eraseParts_factors {args : ErasureArgs} {email : Option String} {found : ErasureFound}
    {part : Trans Unit} (hpart : part ∈ eraseParts args email found) :
    (∃ factor, part = PrivacyRepository.deleteFactor args.userId factor) ∨
      part.Guarantees (Tx.Keeps Db.mfaDevices) := by
  simp only [eraseParts, List.mem_append, List.mem_map, List.mem_singleton] at hpart
  rcases hpart with rfl | ⟨_, _, rfl⟩ | ⟨_, _, rfl⟩ | ⟨_, _, rfl⟩ | ⟨factor, _, rfl⟩ | ⟨_, _, rfl⟩ |
    rfl | ⟨_, _, rfl⟩ | ⟨_, _, rfl⟩ | ⟨_, _, rfl⟩ | rfl | ⟨_, _, rfl⟩ | ⟨_, _, rfl⟩ | rfl
  · exact Or.inr (guarantees_write fun _ => rfl)
  · exact Or.inr (guarantees_cancelExport (fun _ _ _ _ => rfl) _)
  · exact Or.inr (guarantees_deleteContactChange (fun _ _ => rfl) _)
  · exact Or.inr (guarantees_deleteMailed (fun _ _ _ _ => rfl) _)
  · exact Or.inl ⟨factor, rfl⟩
  · exact Or.inr (guarantees_deleteDevice (fun _ _ _ _ => rfl) _)
  · exact Or.inr (guarantees_write fun _ => rfl)
  · exact Or.inr (guarantees_deleteBinding (fun _ _ _ _ => rfl) _)
  · exact Or.inr (guarantees_deleteIdentity (fun _ _ _ _ => rfl) _)
  · exact Or.inr (guarantees_deleteFamily (fun _ _ _ => rfl) _)
  · exact Or.inr ⟨fun _ => rfl, fun _ => rfl, trivial⟩
  · exact Or.inr (guarantees_withdrawInvitation (fun _ _ _ => rfl) _ _ _)
  · exact Or.inr (guarantees_closePersonal (fun _ _ _ => rfl) _ _)
  · exact Or.inr ⟨fun _ => rfl, fun _ => rfl, fun _ => rfl, trivial⟩

theorem useCode_factorType (candidate : Digest) (now : Time) (row : MFADevice) :
    (MFARepository.useCode candidate now row).factorType = row.factorType := by
  unfold MFARepository.useCode
  split
  · rfl
  · rfl

theorem revoked_idem (now : Time) (f : Option MFADevice) :
    (f.map (RecoveryRepository.revokedFactor now)).map (RecoveryRepository.revokedFactor now) =
      f.map (RecoveryRepository.revokedFactor now) := by
  cases f with
  | none => rfl
  | some row => rfl

theorem factorStep_mfa {event : MFAEvent} (h : (Event.mfa event).Agrees m) :
    FactorStep g (m.db.mfaDevices.get g) (.mfa event)
      (((Event.mfa event).change m.db).mfaDevices.get g) := by
  cases event with
  | pendingTotpCreated owner secret label new now found =>
      obtain ⟨change, halone, hchange⟩ := h.commits rfl
      rw [hchange]
      obtain ⟨_, pending, hdrops, hadd⟩ := Tx.alone_bind_eq_ok halone
      cases hadd
      have heach : ∀ body ∈ found.map (MFARepository.dropPending owner now), ∀ p' q' : Db → Db,
          body.alone m.db p' = .ok ((), q') →
          (q' m.db).mfaDevices.get g = (p' m.db).mfaDevices.get g ∨
            ∃ row, m.db.mfaDevices.get g = some row ∧ (row.userId = owner ∧
              row.factorType = .totp ∧ row.status = .pending) ∧ (q' m.db).mfaDevices.get g =
                ((p' m.db).mfaDevices.get g).map (RecoveryRepository.revokedFactor now) := by
        intro body hbody p' q' hfirst
        obtain ⟨k, _, rfl⟩ := List.mem_map.mp hbody
        rcases get_dropPending hfirst with hsame | ⟨row, hrow, huser, htype, hstatus, hwritten⟩
        · exact Or.inl hsame
        · exact Or.inr ⟨row, hrow, ⟨huser, htype, hstatus⟩, hwritten⟩
      rcases get_sequence (revoked_idem now) (Tx.Sequence.each hdrops) heach rfl with
        hkept | ⟨row, hrow, ⟨huser, htype, hstatus⟩, hdropped⟩
      · refine step_of_add hkept ?_
        rintro rfl hnone
        exact .pending hnone
      · change FactorStep g _ _
          (((DbChange.addFactor new _).apply (pending m.db)).mfaDevices.get g)
        rw [get_addFactor, hdropped, hrow]
        exact .dropped rfl huser htype hstatus
  | totpActivated owner id step now result =>
      obtain ⟨change, halone, hchange⟩ := h.commits rfl
      rw [hchange]
      refine step_of_change halone ?_
      rintro row rfl rfl hrow hcondition
      simp only [Bool.and_eq_true, beq_iff_eq] at hcondition
      exact .activated hrow hcondition.1.1 hcondition.1.2 hcondition.2
  | totpAdvanced id previous step now result =>
      obtain ⟨change, halone, hchange⟩ := h.commits rfl
      rw [hchange]
      refine step_of_change halone ?_
      rintro row rfl rfl hrow hcondition
      simp only [Bool.and_eq_true, beq_iff_eq] at hcondition
      exact .advanced hrow hcondition.1 hcondition.2
  | backupStored owner hashes id now found =>
      obtain ⟨change, halone, hchange⟩ := h.commits rfl
      rw [hchange]
      have hadded : ∀ {d' : Db}, d'.mfaDevices.get g = m.db.mfaDevices.get g →
          FactorStep g (m.db.mfaDevices.get g) (.mfa (.backupStored owner hashes id now found))
            (((DbChange.addFactor id ⟨owner, .backupCodes, some (.codes hashes), .active,
              some "Recovery codes", some now, none, none, none⟩).apply d').mfaDevices.get g) := by
        intro d' hkept
        refine step_of_add hkept ?_
        rintro rfl hnone
        exact .codes hnone
      cases found with
      | none =>
          cases halone
          exact hadded rfl
      | some factor =>
          obtain ⟨changed, pending, hset, hrest⟩ := Tx.alone_bind_eq_ok halone
          cases changed with
          | true =>
              cases hrest
              refine step_of_change hset ?_
              rintro row _ rfl hrow hcondition
              exact .recoded hrow hcondition
          | false =>
              cases hrest
              rcases alone_changeFactor hset with heq | ⟨_, _, _, heq⟩
              · cases heq
                exact hadded rfl
              · cases heq
  | backupConsumed owner candidate now found result =>
      obtain ⟨change, halone, hchange⟩ := h.commits rfl
      rw [hchange]
      cases found with
      | none =>
          cases halone
          exact .same
      | some factor =>
          refine step_of_change halone ?_
          rintro row rfl rfl hrow hcondition
          rw [Bool.and_eq_true] at hcondition
          exact .used hrow hcondition.1 hcondition.2
  | passkeyCreated owner label credential publicKey signCount id now =>
      obtain ⟨change, halone, hchange⟩ := h.commits rfl
      rw [hchange]
      change Tx.alone m.db _ (if (m.db.credentials.get credential).isSome then .raise .integrity
        else write (DbChange.addCredential credential ⟨id, publicKey, signCount, false⟩) :
          Trans Unit) = _ at halone
      split at halone
      · cases halone
      · cases halone
        refine step_of_add (show m.db.mfaDevices.get g = _ from rfl) ?_
        rintro rfl hnone
        exact .passkey hnone
  | factorRevoked owner id now result =>
      obtain ⟨change, halone, hchange⟩ := h.commits rfl
      rw [hchange]
      refine step_of_change halone ?_
      rintro row rfl rfl hrow hcondition
      simp only [Bool.and_eq_true, beq_iff_eq] at hcondition
      exact .removed hrow hcondition.1 hcondition.2
  | counterUpdated credential previous new backupState result =>
      refine step_of_keeps fun commit hcommit => ?_
      cases hcommit
      refine (guarantees_lockRow _ _).bind fun view => ?_
      split
      · trivial
      · split
        · exact ⟨fun _ => rfl, trivial⟩
        · trivial
  | linked owner provider subject id =>
      refine step_of_keeps fun commit hcommit => ?_
      cases hcommit
      exact (guarantees_reserve _ _ _).bind fun _ => guarantees_write fun _ => rfl
  | _ => exact .same

theorem factorStep_account {event : AccountEvent} (h : (Event.account event).Agrees m) :
    FactorStep g (m.db.mfaDevices.get g) (.account event)
      (((Event.account event).change m.db).mfaDevices.get g) := by
  by_cases hstays : ∀ args email found result, event ≠ .erased args (.erased email found) result
  · exact .of_eq (congrArg (Table.get · g) (Event.keeps_part (e := .account event)
      (fun commit hcommit => event.keeps hcommit hstays) (fun _ => rfl) m.db))
  · simp only [not_forall, ne_eq, not_not] at hstays
    obtain ⟨args, email, found, result, rfl⟩ := hstays
    obtain ⟨change, halone, hchange⟩ := h.commits rfl
    rw [hchange]
    have heach : ∀ body ∈ eraseParts args email found, ∀ p' q' : Db → Db,
        body.alone m.db p' = .ok ((), q') →
        (q' m.db).mfaDevices.get g = (p' m.db).mfaDevices.get g ∨
          ∃ row, m.db.mfaDevices.get g = some row ∧ row.userId = args.userId ∧
            (q' m.db).mfaDevices.get g = none := by
      intro body hbody p' q' hfirst
      rcases eraseParts_factors hbody with ⟨factor, rfl⟩ | hkeeps
      · exact get_deleteFactor hfirst
      · have hsame := Tx.keeps_of_reflTransGen (hkeeps.alone hfirst m.db)
        exact Or.inl (congrArg (Table.get · g) hsame)
    rcases get_sequence (h := fun _ => none) (fun _ => rfl) (sequence_eraseWrites halone) heach
      rfl with hkept | ⟨row, hrow, huser, hgone⟩
    · exact .of_eq hkept
    · rw [hgone, hrow]
      exact .erased rfl huser

theorem factorStep_recovery {event : RecoveryEvent} (h : (Event.recovery event).Agrees m) :
    FactorStep g (m.db.mfaDevices.get g) (.recovery event)
      (((Event.recovery event).change m.db).mfaDevices.get g) := by
  by_cases hexecution : event.isExecution = true
  · cases event with
    | resetExecuted args found result =>
        obtain ⟨change, halone, hchange⟩ := h.commits rfl
        rw [hchange]
        rcases alone_executeFound halone with ⟨_, rfl⟩ | ⟨request, user, _, _, _, _, _, _, hwrites⟩
        · exact .same
        · obtain ⟨hanswer, pending, hfactors, rfl⟩ := alone_executeWrites hwrites
          dsimp only at hanswer
          subst hanswer
          change FactorStep g _ _ ((pending m.db).mfaDevices.get g)
          have heach : ∀ body ∈ found.map (RecoveryRepository.revokeFactor request.targetUserId
              args.now), ∀ p' q' : Db → Db, body.alone m.db p' = .ok ((), q') →
              (q' m.db).mfaDevices.get g = (p' m.db).mfaDevices.get g ∨
                ∃ row, m.db.mfaDevices.get g = some row ∧ row.userId = request.targetUserId ∧
                  (q' m.db).mfaDevices.get g =
                    ((p' m.db).mfaDevices.get g).map (RecoveryRepository.revokedFactor args.now) := by
            intro body hbody p' q' hfirst
            obtain ⟨k, _, rfl⟩ := List.mem_map.mp hbody
            exact get_revokeFactor hfirst
          rcases get_sequence (revoked_idem args.now) (Tx.Sequence.each hfactors) heach rfl with
            hkept | ⟨row, hrow, huser, hrevoked⟩
          · exact .of_eq hkept
          · rw [hrevoked, hrow]
            exact .reset rfl huser
    | _ => cases hexecution
  · refine step_of_keeps fun commit hcommit => ?_
    refine event.guarantees ?_ (fun _ => ?_) (fun _ => ?_) (fun htrue => ?_) hcommit
    · exact ⟨fun _ _ _ => rfl, fun _ _ _ => rfl, fun _ _ _ _ => rfl, fun _ _ _ => rfl,
        fun _ _ _ => rfl, fun _ _ _ _ => rfl, fun _ _ _ => rfl, fun _ _ _ => rfl, fun _ _ _ => rfl,
        fun _ _ => rfl, fun _ _ => rfl⟩
    · exact ⟨fun _ _ _ => rfl, fun _ _ _ _ => rfl, fun _ _ _ _ _ => rfl,
        fun _ _ _ _ _ => rfl, fun _ _ _ _ => rfl⟩
    · exact ⟨fun _ _ _ => rfl, fun _ _ _ => rfl⟩
    · exact absurd htrue hexecution

/-- Every event takes the one step. -/
theorem factorStep_of_agrees (h : e.Agrees m) :
    FactorStep g (m.db.mfaDevices.get g) e ((e.change m.db).mfaDevices.get g) := by
  have hkept : ∀ {π : Db → Db}, (∀ commit, e.commit = some commit →
      commit.body.Guarantees (Tx.Keeps π)) → (∀ d, (π d).mfaDevices = d.mfaDevices) →
      FactorStep g (m.db.mfaDevices.get g) e ((e.change m.db).mfaDevices.get g) :=
    fun hkeeps hπ => .of_eq (congrArg (Table.get · g) (Event.keeps_part hkeeps hπ m.db))
  cases e with
  | session event => exact hkept (fun commit hcommit => event.keeps hcommit) fun _ => rfl
  | workspace event =>
      exact .of_eq (congrArg (Table.get · g)
        (Event.keeps_workspace event (fun _ => rfl) (fun _ => rfl) m.db))
  | account event => exact factorStep_account h
  | login event => exact hkept (fun commit hcommit => event.keeps hcommit) fun _ => rfl
  | mfa event => exact factorStep_mfa h
  | recovery event => exact factorStep_recovery h
  | audited entry => exact .same
  | _ => exact .same

end Steps

end AuthCore
