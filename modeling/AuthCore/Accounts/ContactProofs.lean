/-
Changes of contact.  A request notes which of its two codes have been presented,
so a contact that has changed was changed by a request of the user for which both
were, and the logins follow it.
-/
import AuthCore.Accounts.Rehashes

namespace AuthCore

open Interleave Relational RecoveryRepository RegistrationRepository

variable {env : Env} {c m : Core Db World} {i : Nat} {e : Event} {u : Uuid}

section Requests

/-- A call of the user has presented the code of a request before its end. -/
def CodeShown (env : Env) (log : List (Nat × Event)) (id : Uuid) (row : ContactChangeRequest)
    (proof : ContactProof) : Prop :=
  ∃ j claims code now, (j, .called (.verifyContactChange claims id proof code)) ∈ log ∧
    (j, .clock now) ∈ log ∧ claims.userId = row.userId ∧
    env.otpHash code = expectedHash row proof ∧ now < row.expiresAt

/-- What a request asks for, apart from how far it has come. -/
structure SameRequest (row row' : ContactChangeRequest) : Prop where
  userId : row'.userId = row.userId
  contactType : row'.contactType = row.contactType
  newValue : row'.newValue = row.newValue
  expectedHash : expectedHash row' = expectedHash row
  expiresAt : row'.expiresAt = row.expiresAt

theorem SameRequest.refl (row : ContactChangeRequest) : SameRequest row row :=
  ⟨rfl, rfl, rfl, rfl, rfl⟩

theorem SameRequest.trans {row row' row'' : ContactChangeRequest} (h : SameRequest row row')
    (h' : SameRequest row' row'') : SameRequest row row'' where
  userId := h'.userId.trans h.userId
  contactType := h'.contactType.trans h.contactType
  newValue := h'.newValue.trans h.newValue
  expectedHash := h'.expectedHash.trans h.expectedHash
  expiresAt := h'.expiresAt.trans h.expiresAt

theorem CodeShown.mono {log : List (Nat × Event)} {entry : Nat × Event} {id : Uuid}
    {row row' : ContactChangeRequest} {proof : ContactProof} (h : CodeShown env log id row proof)
    (hsame : SameRequest row row') : CodeShown env (entry :: log) id row' proof := by
  obtain ⟨j, claims, code, now, hcalled, hclock, huser, hcode, htime⟩ := h
  refine ⟨j, claims, code, now, List.mem_cons_of_mem _ hcalled, List.mem_cons_of_mem _ hclock,
    ?_, ?_, ?_⟩
  · rw [hsame.userId, huser]
  · rw [hsame.expectedHash, hcode]
  · rw [hsame.expiresAt]
    exact htime

/-- When the code of a contact was presented for a request. -/
def verifiedAt (row : ContactChangeRequest) : ContactProof → Option Time
  | .old => row.oldVerifiedAt
  | .new => row.newVerifiedAt

/-- No proof is noted: each request is one that was there, with the same proofs, or
a new one without any. -/
def NoProof (d d' : Db) : Prop :=
  ∀ id row', d'.contactChanges.get id = some row' → (∀ proof, verifiedAt row' proof = none) ∨
    ∃ row, d.contactChanges.get id = some row ∧ SameRequest row row' ∧
      verifiedAt row' = verifiedAt row

theorem NoProof.of_eq {d d' : Db} (h : d'.contactChanges = d.contactChanges) : NoProof d d' := by
  intro id row' hrow
  rw [h] at hrow
  exact Or.inr ⟨row', hrow, .refl _, rfl⟩

theorem NoProof.trans {d d' d'' : Db} (h : NoProof d d') (h' : NoProof d' d'') :
    NoProof d d'' := by
  intro id row'' hrow
  rcases h' id row'' hrow with hnone | ⟨row', hrow', hsame', hproofs'⟩
  · exact Or.inl hnone
  · rcases h id row' hrow' with hnone | ⟨row, hold, hsame, hproofs⟩
    · exact Or.inl fun proof => by rw [hproofs', hnone]
    · exact Or.inr ⟨row, hold, hsame.trans hsame', hproofs'.trans hproofs⟩

theorem noProof_of_steps {d d' : Db} (h : Relation.ReflTransGen NoProof d d') :
    NoProof d d' := by
  induction h with
  | refl => exact .of_eq rfl
  | tail _ hstep ih => exact ih.trans hstep

theorem noProof_add (d : Db) (id : Uuid) (args : ContactArgs) (old : String) :
    NoProof d ((DbChange.addContactChange id (newContactChange args old)).apply d) := by
  intro k row' hrow
  rcases Table.get_add_eq_some hrow with hold | ⟨_, rfl⟩
  · exact Or.inr ⟨row', hold, .refl _, rfl⟩
  · refine Or.inl fun proof => ?_
    cases proof with
    | old => rfl
    | new => rfl

theorem close_sound {d : Db} {user id k : Uuid} {state : ContactChangeState}
    {applied : Option Time} {row' : ContactChangeRequest}
    (hrow : ((DbChange.closeContactChange user id state applied).apply d).contactChanges.get k =
      some row') :
    ∃ row, d.contactChanges.get k = some row ∧ SameRequest row row' ∧
      verifiedAt row' = verifiedAt row := by
  obtain ⟨row, hold, rfl⟩ := Table.get_update_eq_some.mp hrow
  refine ⟨row, hold, ?_⟩
  split
  · exact ⟨⟨rfl, rfl, rfl, funext fun proof => by cases proof <;> rfl, rfl⟩,
      funext fun proof => by cases proof <;> rfl⟩
  · exact ⟨.refl _, rfl⟩

theorem noProof_close (d : Db) (user id : Uuid) (state : ContactChangeState)
    (applied : Option Time) :
    NoProof d ((DbChange.closeContactChange user id state applied).apply d) :=
  fun _ _ hrow => Or.inr (close_sound hrow)

theorem noProof_delete (d : Db) (user id : Uuid) :
    NoProof d ((DbChange.deleteContactChange user id).apply d) := by
  intro k row' hrow
  exact Or.inr ⟨row', (Table.get_delete_eq_some.mp hrow).1, .refl _, rfl⟩

theorem erasing_noProof (user : Uuid) : Erasing NoProof user where
  artifacts _ _ := .of_eq rfl
  «export» _ _ _ _ := .of_eq rfl
  contactChange d id := noProof_delete d user id
  mailed _ _ _ _ := .of_eq rfl
  factor _ _ _ := .of_eq rfl
  device _ _ _ _ := .of_eq rfl
  staff _ := .of_eq rfl
  binding _ _ _ _ := .of_eq rfl
  identity _ _ _ _ := .of_eq rfl
  family _ _ _ := .of_eq rfl
  referrals _ := .of_eq rfl
  referred _ _ := .of_eq rfl
  invitation _ _ _ := .of_eq rfl
  organization _ _ _ := .of_eq rfl
  user _ _ _ _ := .of_eq rfl
  request _ _ _ _ _ := .of_eq rfl
  audit _ _ := .of_eq rfl

theorem guarantees_started (args : ContactArgs) :
    (startContactChange (pure ()) args).Guarantees NoProof := by
  refine (guarantees_lockRow _ _).bind fun view => ?_
  unfold startLocked
  split
  · trivial
  · refine (Tx.guarantees_each (guarantees_cancelContactChange fun d _ _ =>
      noProof_close d _ _ _ _) _).bind fun _ => ?_
    exact ⟨fun d => noProof_add d _ _ _, fun _ => .of_eq rfl, trivial⟩

theorem noProof_recovery {event : RecoveryEvent}
    (he : ∀ args result, event ≠ .contactVerified args result) (d : Db) :
    NoProof d ((Event.recovery event).change d) := by
  by_cases hstarted : ∃ args result, event = .contactStarted args result
  · obtain ⟨args, result, rfl⟩ := hstarted
    refine noProof_of_steps (Event.steps_change (fun commit hcommit => ?_) d)
    cases hcommit
    exact guarantees_started args
  · refine .of_eq (Event.keeps_change (π := Db.contactChanges) (e := .recovery event)
      (fun commit hcommit => event.guarantees ?_ (fun hmoves => ?_) (fun _ => ?_)
        (fun _ _ _ _ => rfl) hcommit) d)
    · exact ⟨fun _ _ _ => rfl, fun _ _ _ => rfl, fun _ _ _ _ => rfl, fun _ _ _ => rfl,
        fun _ _ _ => rfl, fun _ _ _ _ => rfl, fun _ _ _ => rfl, fun _ _ _ => rfl,
        fun _ _ _ => rfl, fun _ _ => rfl, fun _ _ => rfl⟩
    · cases event with
      | contactStarted args result => exact absurd ⟨args, result, rfl⟩ hstarted
      | contactVerified args result => exact absurd rfl (he args result)
      | _ => cases hmoves
    · exact ⟨fun _ _ _ => rfl, fun _ _ _ => rfl⟩

/-- Only the presentation of a code notes a proof. -/
theorem noProof_change (he : ∀ args result, e ≠ .recovery (.contactVerified args result))
    (d : Db) : NoProof d (e.change d) := by
  by_cases herased : ∃ args email found result,
      e = .account (.erased args (.erased email found) result)
  · obtain ⟨args, email, found, result, rfl⟩ := herased
    refine noProof_of_steps (Event.steps_change (fun commit hcommit => ?_) d)
    cases hcommit
    exact guarantees_eraseWrites (erasing_noProof _) _ _
  · by_cases hrecovery : ∃ event, e = .recovery event
    · obtain ⟨event, rfl⟩ := hrecovery
      exact noProof_recovery (fun args result heq => he args result (congrArg _ heq)) d
    · have haside : Aside Db.contactChanges :=
        ⟨fun _ => rfl, fun _ => rfl, fun _ => rfl, fun _ => rfl, fun _ => rfl, fun _ _ => rfl⟩
      refine .of_eq (haside.change d (fun event heq => ?_)
        fun event heq => absurd ⟨event, heq⟩ hrecovery)
      subst heq
      refine Event.keeps_part (e := .account event) (π := Db.contactChanges)
        (fun commit hcommit => event.keeps hcommit ?_) (fun _ => rfl) d
      rintro args email found result rfl
      exact herased ⟨args, email, found, result, rfl⟩

/-- The noted proof is the one that is presented, and everything else about a
request stays. -/
theorem prove_sound {d : Db} {id : Uuid} {proof : ContactProof} {now : Time}
    {row' : ContactChangeRequest} {k : Uuid}
    (hrow : ((DbChange.proveContact id proof now).apply d).contactChanges.get k = some row') :
    ∃ row, d.contactChanges.get k = some row ∧ SameRequest row row' ∧
      ∀ other, verifiedAt row' other = verifiedAt row other ∨ k = id ∧ other = proof := by
  obtain ⟨row, hold, rfl⟩ := Table.get_update_eq_some.mp hrow
  refine ⟨row, hold, ?_⟩
  split
  · rename_i heq
    obtain rfl : k = id := by simpa using heq
    cases proof with
    | old =>
        refine ⟨⟨rfl, rfl, rfl, funext fun other => by cases other <;> rfl, rfl⟩, ?_⟩
        intro other
        cases other with
        | old => exact Or.inr ⟨rfl, rfl⟩
        | new => exact Or.inl rfl
    | new =>
        refine ⟨⟨rfl, rfl, rfl, funext fun other => by cases other <;> rfl, rfl⟩, ?_⟩
        intro other
        cases other with
        | old => exact Or.inl rfl
        | new => exact Or.inr ⟨rfl, rfl⟩
  · exact ⟨.refl _, fun _ => Or.inl rfl⟩

/-- What presenting a code does to the requests. -/
theorem proving_sound {d : Db} {args : ProofArgs} {result : Option ContactChangeRecord}
    {change : Db → Db} (h : Proving d args result change) {k : Uuid}
    {row' : ContactChangeRequest} (hrow : (change d).contactChanges.get k = some row') :
    ∃ row, d.contactChanges.get k = some row ∧ SameRequest row row' ∧
      ∀ proof, verifiedAt row' proof = verifiedAt row proof ∨
        k = args.requestId ∧ proof = args.proof ∧ Presents d args row := by
  have hnoted : ∀ {row' : ContactChangeRequest} {shown : ContactChangeRequest},
      Presents d args shown → ((DbChange.proveContact args.requestId args.proof
        args.now).apply d).contactChanges.get k = some row' →
      ∃ row, d.contactChanges.get k = some row ∧ SameRequest row row' ∧
        ∀ proof, verifiedAt row' proof = verifiedAt row proof ∨
          k = args.requestId ∧ proof = args.proof ∧ Presents d args row := by
    intro row' shown hpresents hrow
    obtain ⟨row, hold, hsame, hproofs⟩ := prove_sound hrow
    refine ⟨row, hold, hsame, fun proof => ?_⟩
    rcases hproofs proof with heq | ⟨rfl, rfl⟩
    · exact Or.inl heq
    · obtain rfl := Option.some.inj (hpresents.stored.symm.trans hold)
      exact Or.inr ⟨rfl, rfl, hpresents⟩
  cases h with
  | refused => exact ⟨row', hrow, .refl _, fun _ => Or.inl rfl⟩
  | noted hpresents _ _ => exact hnoted hpresents hrow
  | inactive hpresents => exact hnoted hpresents hrow
  | @applied row user _ hpresents _ _ _ _ happly =>
      obtain ⟨_, follow, hfollow, rfl⟩ := alone_applyContactChange happly
      have hbefore : ∀ d', (follow d').contactChanges = d'.contactChanges := by
        intro d'
        cases hfollow with
        | none _ => rfl
        | one _ _ => rfl
      obtain ⟨mid, hmid, hsame', hproofs'⟩ := close_sound hrow
      change (follow _).contactChanges.get k = some mid at hmid
      rw [hbefore] at hmid
      obtain ⟨old, hold, hsame, hproofs⟩ := hnoted hpresents hmid
      exact ⟨old, hold, hsame.trans hsame', fun proof => by rw [hproofs']; exact hproofs proof⟩

/-- A proof that is noted has been presented. -/
def Vouched (env : Env) (log : List (Nat × Event)) (d : Db) : Prop :=
  ∀ id row, d.contactChanges.get id = some row →
    ∀ proof, (verifiedAt row proof).isSome → CodeShown env log id row proof

theorem Vouched.of_noProof {log : List (Nat × Event)} {entry : Nat × Event} {d d' : Db}
    (h : Vouched env log d) (hstep : NoProof d d') : Vouched env (entry :: log) d' := by
  intro id row' hrow proof hsome
  rcases hstep id row' hrow with hnone | ⟨row, hold, hsame, hproofs⟩
  · rw [hnone proof] at hsome
    cases hsome
  · rw [hproofs] at hsome
    exact (h id row hold proof hsome).mono hsame

/-- A code that is accepted is presented by a call of the user. -/
theorem codeShown_of_presents {args : ProofArgs} {row : ContactChangeRequest}
    (hproves : Proves env (trace i m.store.log) args) (hpresents : Presents m.db args row) :
    CodeShown env m.store.log args.requestId row args.proof := by
  generalize htrace : trace i m.store.log = t at hproves
  cases hproves with
  | @intro claims request proof code now =>
      exact ⟨i, claims, code, now, mem_trace_iff.mp (by rw [htrace]; simp),
        mem_trace_iff.mp (by rw [htrace]; simp), hpresents.owner.symm, hpresents.code.symm,
        hpresents.open_⟩

theorem vouched_of_history (hinit : Initial c) (h : History env c m) :
    Vouched env m.store.log m.db := by
  refine Ledger.Leads.preserves (P := fun n => Vouched env n.store.log n.db) h ?_ ?_ ?_
  · intro id row hrow
    rw [hinit.contactChanges, Table.get_empty] at hrow
    cases hrow
  · intro n i e _ ih _ henabled
    change Vouched env (e.apply i n).store.log (e.change n.db)
    rw [Event.log_apply]
    by_cases hproof : ∃ args result, e = .recovery (.contactVerified args result)
    · obtain ⟨args, result, rfl⟩ := hproof
      obtain ⟨change, halone, hchange⟩ := henabled.2.commits rfl
      rw [hchange]
      dsimp only at halone
      intro id row' hrow proof hsome
      obtain ⟨row, hold, hsame, hproofs⟩ := proving_sound (proving_of_alone halone) hrow
      rcases hproofs proof with heq | ⟨rfl, rfl, hpresents⟩
      · rw [heq] at hsome
        exact (ih id row hold proof hsome).mono hsame
      · exact (codeShown_of_presents henabled.1 hpresents).mono hsame
    · exact ih.of_noProof (noProof_change (fun args result heq => hproof ⟨args, result, heq⟩) _)
  · intro n d _ ih
    exact ih

end Requests

section Moves

/-- The contact of a user is changed by the proof of a request only, or erased. -/
theorem AccountStep.contactOf {a a' : Account} (h : AccountStep u a e a') {row row' : User}
    (hrow : a.row = some row) (hrow' : a'.row = some row')
    (hproof : ∀ args result, e ≠ .recovery (.contactVerified args result))
    {contactType : ContactType} {value : String}
    (hvalue : DbChange.contactOf row' contactType = some value) :
    DbChange.contactOf row contactType = some value := by
  cases h with
  | same =>
      obtain rfl := Option.some.inj (hrow.symm.trans hrow')
      exact hvalue
  | created _ hnone =>
      rw [hnone] at hrow
      cases hrow
  | rehashed =>
      obtain rfl := Option.some.inj (hrow.symm.trans hrow')
      exact hvalue
  | contact => exact absurd rfl (hproof _ _)
  | verified _ hold _ hnew _ =>
      obtain rfl := Option.some.inj (hrow.symm.trans hold)
      obtain rfl := Option.some.inj (hnew.symm.trans hrow')
      cases contactType <;> exact hvalue
  | reset hold =>
      obtain rfl := Option.some.inj (hrow.symm.trans hold)
      obtain rfl := Option.some.inj hrow'
      cases contactType <;> exact hvalue
  | unlocked hold =>
      obtain rfl := Option.some.inj (hrow.symm.trans hold)
      obtain rfl := Option.some.inj hrow'
      cases contactType <;> exact hvalue
  | suspended hold =>
      obtain rfl := Option.some.inj (hrow.symm.trans hold)
      obtain rfl := Option.some.inj hrow'
      cases contactType <;> exact hvalue
  | executed _ hold =>
      obtain rfl := Option.some.inj (hrow.symm.trans hold)
      obtain rfl := Option.some.inj hrow'
      cases contactType <;> exact hvalue
  | erased _ hold hnew _ =>
      obtain rfl := Option.some.inj (hnew.symm.trans hrow')
      cases contactType <;> cases hvalue

theorem contactOf_moved (contactType other : ContactType) (value : String) (row : User) :
    DbChange.contactOf (moved contactType value row) other =
      if other = contactType then some value else DbChange.contactOf row other := by
  cases contactType <;> cases other <;> rfl

/-- A proof that a request has with the presented one, it had before or it is that one. -/
theorem verified_of_proved {request : ContactChangeRequest} {presented : ContactProof}
    {now : Time} {proof : ContactProof}
    (h : (verifiedAt (proved request presented now) proof).isSome = true) :
    (verifiedAt request proof).isSome = true ∨ proof = presented := by
  cases presented <;> cases proof
  · exact Or.inr rfl
  · exact Or.inl h
  · exact Or.inl h
  · exact Or.inr rfl

/-- What the proof of a request does to the contacts of the users. -/
theorem proving_contact {d : Db} {args : ProofArgs} {result : Option ContactChangeRecord}
    {change : Db → Db} (h : Proving d args result change) {row row' : User}
    (hrow : d.users.get u = some row) (hrow' : (change d).users.get u = some row')
    {contactType : ContactType} {value : String}
    (hvalue : DbChange.contactOf row' contactType = some value)
    (hold : DbChange.contactOf row contactType ≠ some value) :
    ∃ request, Presents d args request ∧ request.userId = u ∧
      request.contactType = contactType ∧ request.newValue = value ∧
      ∀ proof, (verifiedAt request proof).isSome = true ∨ proof = args.proof := by
  have hsame : row' = row → False := by
    rintro rfl
    exact hold hvalue
  cases h with
  | refused => exact absurd (Option.some.inj (hrow'.symm.trans hrow)) hsame
  | noted => exact absurd (Option.some.inj (hrow'.symm.trans hrow)) hsame
  | inactive => exact absurd (Option.some.inj (hrow'.symm.trans hrow)) hsame
  | @applied request user _ hpresents hboth hboth' huser _ happly =>
      obtain ⟨_, follow, hfollow, rfl⟩ := alone_applyContactChange happly
      change (follow _).users.get u = some row' at hrow'
      rw [hfollow.users] at hrow'
      obtain ⟨old, hget, hmap⟩ := Option.map_eq_some_iff.mp (get_setContact.symm.trans hrow')
      obtain rfl := Option.some.inj (hrow.symm.trans hget)
      split at hmap
      · rename_i hmine
        obtain ⟨rfl, _⟩ := hmine
        rw [← hmap, contactOf_moved] at hvalue
        split at hvalue
        · rename_i htype
          refine ⟨request, hpresents, hpresents.owner, htype.symm, Option.some.inj hvalue, ?_⟩
          intro proof
          cases proof with
          | old => exact verified_of_proved hboth
          | new => exact verified_of_proved hboth'
        · exact absurd hvalue hold
      · exact absurd hmap.symm hsame

/-- A contact changes to a value only when both codes of a pending request of the user for that
value have been presented, each by a call of the user and before the request ran out. -/
theorem contact_proved (hinit : Initial c) {s : Config schema World AuthError Result}
    (h : (application env).Reachable c s) {later earlier : List (Nat × Event)}
    (hlog : s.core.store.log = later ++ (i, e) :: earlier) {row row' : User}
    (hrow : (replay c.db earlier).users.get u = some row)
    (hrow' : (replay c.db ((i, e) :: earlier)).users.get u = some row')
    {contactType : ContactType} {value : String}
    (hvalue : DbChange.contactOf row' contactType = some value)
    (hold : DbChange.contactOf row contactType ≠ some value) :
    ∃ id request, (replay c.db earlier).contactChanges.get id = some request ∧
      request.userId = u ∧ request.contactType = contactType ∧ request.newValue = value ∧
      request.state = .pending ∧ ∀ proof, CodeShown env earlier id request proof := by
  have hhistory := history_of_reachable hinit.log h
  obtain ⟨m, hm, rfl, hfollows, hagrees, _⟩ := hhistory.around hinit.log hlog
  rw [replay_cons, ← hm.db_eq hinit.log] at hrow'
  rw [← hm.db_eq hinit.log] at hrow ⊢
  by_cases hproof : ∃ args result, e = .recovery (.contactVerified args result)
  · obtain ⟨args, result, rfl⟩ := hproof
    obtain ⟨change, halone, hchange⟩ := hagrees.commits rfl
    rw [hchange] at hrow'
    dsimp only at halone
    obtain ⟨request, hpresents, huser, htype, hnew, hboth⟩ :=
      proving_contact (proving_of_alone halone) hrow hrow' hvalue hold
    refine ⟨args.requestId, request, hpresents.stored, huser, htype, hnew, hpresents.pending, ?_⟩
    intro proof
    rcases hboth proof with hnoted | rfl
    · exact vouched_of_history hinit hm _ _ hpresents.stored proof hnoted
    · exact codeShown_of_presents hfollows hpresents
  · have hstep := account_change hinit hm hfollows hagrees u
    exact absurd (hstep.contactOf hrow hrow' (fun args result heq => hproof ⟨args, result, heq⟩)
      hvalue) hold

/-- Ann moves to another address: she asks for it and presents both codes. -/
def moveToAmy : List SampleMove :=
  perform 1 (.startContactChange (strongClaims (.given 1)) .email "amy") 10 ++
    perform 2 (.verifyContactChange (strongClaims (.given 1)) (.drawn 1 2) .old "code") 6 ++
    perform 3 (.verifyContactChange (strongClaims (.given 1)) (.drawn 1 2) .new "code") 21

/-- Ann's address in the database that a log leads to. -/
def annsAddress (log : List (Nat × Event)) : Option (Option String) :=
  ((replay sampleCore.db log).users.get (.given 1)).map (·.email)

theorem contact_proved_for_amy :
    ∃ earlier id request, (replay sampleCore.db earlier).contactChanges.get id = some request ∧
      request.newValue = "amy" ∧ ∀ proof, CodeShown sampleEnv earlier id request proof := by
  obtain ⟨later, i, e, earlier, hlog, hmoves⟩ := exists_of_anyEntry
    (show anyEntry (fun i e earlier => annsAddress earlier == some (some "ann") &&
      annsAddress ((i, e) :: earlier) == some (some "amy"))
        (reached moveToAmy).core.store.log = true by decide +kernel)
  rw [Bool.and_eq_true, beq_iff_eq, beq_iff_eq] at hmoves
  obtain ⟨row, hrow, hann⟩ := Option.map_eq_some_iff.mp hmoves.1
  obtain ⟨row', hrow', hamy⟩ := Option.map_eq_some_iff.mp hmoves.2
  obtain ⟨id, request, hstored, _, _, hnew, _, hshown⟩ := contact_proved sampleCore_initial
    (reachable_reached moveToAmy (by decide +kernel)) hlog hrow hrow'
    (show DbChange.contactOf row' .email = some "amy" from hamy)
    (show DbChange.contactOf row .email ≠ some "amy" by
      change row.email ≠ some "amy"
      rw [hann]
      decide)
  exact ⟨earlier, id, request, hstored, hnew, hshown⟩

theorem contactProvider_injective {contactType other : ContactType}
    (h : contactProvider contactType = contactProvider other) : contactType = other := by
  cases contactType <;> cases other
  · rfl
  · cases h
  · cases h
  · rfl

/-- The logins of an account that has not been erased are those with its contacts. -/
def Account.InStep (a : Account) : Prop :=
  (a.row = none → ∀ id, a.login id = none) ∧
    ∀ row, a.row = some row → row.anonymizedAt = none →
      ∀ id x, a.login id = some x → AuthCore.InStep row x

/-- Logins that stay, under a row that keeps its contacts. -/
theorem Account.InStep.kept {a a' : Account} (h : a.InStep) {row row' : User}
    (hrow : a.row = some row) (hrow' : a'.row = some row')
    (hcontact : DbChange.contactOf row' = DbChange.contactOf row)
    (hlive : row'.anonymizedAt = row.anonymizedAt)
    (hlogin : ∀ id x', a'.login id = some x' → ∃ x, a.login id = some x ∧
      x.provider = x'.provider ∧ x.providerSubject = x'.providerSubject) : a'.InStep := by
  refine ⟨fun hnone => absurd (hrow'.symm.trans hnone) (by simp), ?_⟩
  intro other hother hopen id x' hx' contactType hprovider
  obtain rfl := Option.some.inj (hrow'.symm.trans hother)
  obtain ⟨x, hx, hsame, hsubject⟩ := hlogin id x' hx'
  rw [hcontact, ← hsubject]
  exact h.2 row hrow (hlive ▸ hopen) id x hx contactType (hsame.trans hprovider)

theorem kept_withHash {a : Account} {hash : String} {p : Uuid → Prop} [DecidablePred p]
    {id : Uuid} {x' : Identity}
    (h : ((a.login id).map fun x => if p id then withHash hash x else x) = some x') :
    ∃ x, a.login id = some x ∧ x.provider = x'.provider ∧
      x.providerSubject = x'.providerSubject := by
  obtain ⟨x, hx, rfl⟩ := Option.map_eq_some_iff.mp h
  refine ⟨x, hx, ?_⟩
  split
  · exact ⟨rfl, rfl⟩
  · exact ⟨rfl, rfl⟩

theorem AccountStep.inStep {a a' : Account} (h : AccountStep u a e a') (hstep : a.InStep) :
    a'.InStep := by
  cases h with
  | same => exact hstep
  | @created _ _ row new _ hnone hrow _ hlogins =>
      refine ⟨fun habsent => absurd (hrow.symm.trans habsent) (by simp), ?_⟩
      intro other hother _ id x hx
      obtain rfl := Option.some.inj (hrow.symm.trans hother)
      rcases hlogins id x hx with hold | ⟨_, hnew⟩
      · rw [hstep.1 hnone id] at hold
        cases hold
      · exact hnew
  | @rehashed hash found =>
      refine ⟨fun hnone id => by simp [hstep.1 hnone id], ?_⟩
      intro row hrow hopen id x' hx' contactType hprovider
      obtain ⟨x, hx, hsame, hsubject⟩ := kept_withHash (p := fun id => found = some id) hx'
      rw [← hsubject]
      exact hstep.2 row hrow hopen id x hx contactType (hsame.trans hprovider)
  | @verified _ _ row _ hrow _ hnew hlogins =>
      refine hstep.kept hrow hnew (funext fun contactType => by cases contactType <;> rfl) rfl ?_
      intro id x' hx'
      rcases hlogins id with hsame | hverified
      · exact ⟨x', hsame ▸ hx', rfl, rfl⟩
      · rw [hverified] at hx'
        obtain ⟨x, hx, rfl⟩ := Option.map_eq_some_iff.mp hx'
        exact ⟨x, hx, rfl, rfl⟩
  | @reset args found row id x hrow =>
      refine hstep.kept hrow rfl (funext fun contactType => by cases contactType <;> rfl) rfl ?_
      exact fun k x' hx' => kept_withHash (p := fun k => k = id) hx'
  | @contact _ _ _ row contactType value _ hrow _ hnew hlogins =>
      refine ⟨fun hnone => absurd (hnew.symm.trans hnone) (by simp), ?_⟩
      intro other hother hopen id x' hx' asked hprovider
      obtain rfl := Option.some.inj (hnew.symm.trans hother)
      have hlive : row.anonymizedAt = none := by
        cases contactType <;> exact hopen
      rw [contactOf_moved]
      obtain ⟨x, hx, ⟨hfollows, rfl⟩ | ⟨hother, rfl⟩⟩ := hlogins id x' hx'
      · have hasked : asked = contactType :=
          contactProvider_injective (hprovider.symm.trans hfollows)
        rw [if_pos hasked]
      · have hasked : asked ≠ contactType := by
          rintro rfl
          exact hother hprovider
        rw [if_neg hasked]
        exact hstep.2 row hrow hlive id _ hx asked hprovider
  | @unlocked _ _ row hrow =>
      exact hstep.kept hrow rfl (funext fun contactType => by cases contactType <;> rfl) rfl
        fun _ x hx => ⟨x, hx, rfl, rfl⟩
  | @suspended _ _ row hrow =>
      exact hstep.kept hrow rfl (funext fun contactType => by cases contactType <;> rfl) rfl
        fun _ x hx => ⟨x, hx, rfl, rfl⟩
  | @executed _ _ _ _ row _ hrow =>
      exact hstep.kept hrow rfl (funext fun contactType => by cases contactType <;> rfl) rfl
        fun _ x hx => ⟨x, hx, rfl, rfl⟩
  | @erased _ _ _ _ _ row _ hrow hnew _ =>
      refine ⟨fun hnone => absurd (hnew.symm.trans hnone) (by simp), ?_⟩
      intro other hother hopen
      obtain rfl := Option.some.inj (hnew.symm.trans hother)
      cases hopen

/-- In every state the password and phone identities of an account that has not been erased log
in with the address and the number that its row has, whatever contact changes, resets and
registrations have interleaved. -/
theorem logins_in_step (hinit : Initial c) (hstart : (c.db.account u).InStep)
    {s : Config schema World AuthError Result} (h : (application env).Reachable c s)
    {row : User} (hrow : s.core.db.users.get u = some row) (hopen : row.anonymizedAt = none)
    {id : Uuid} {x : Identity} (hget : s.core.db.identities.get id = some x)
    (huser : x.userId = u) {contactType : ContactType}
    (hprovider : x.provider = contactProvider contactType) :
    DbChange.contactOf row contactType = some x.providerSubject := by
  have hhistory := history_of_reachable hinit.log h
  have hstep : (s.core.db.account u).InStep := by
    rw [hhistory.db_eq hinit.log]
    have hwhole := hhistory.through (P := fun d => (d.account u).InStep) hinit.log
      (show s.core.store.log = [] ++ (s.core.store.log ++ []) by simp) hstart
      fun m' i e _ hm' hfollows hagrees hstep =>
        (account_change hinit hm' hfollows hagrees u).inStep hstep
    rwa [List.append_nil] at hwhole
  refine hstep.2 row hrow hopen id x ?_ contactType hprovider
  refine Option.filter_eq_some_iff.mpr ⟨hget, ?_⟩
  have hlocal : x.isLocal = true := by
    unfold Identity.isLocal
    rw [hprovider]
    cases contactType <;> rfl
  simp [huser, hlocal]

theorem inStep_sampleCore : (sampleCore.db.account (.given 1)).InStep := by
  refine ⟨fun hnone => absurd hnone (by decide), ?_⟩
  intro row hrow _ id x hx contactType hprovider
  obtain ⟨hget, _⟩ := Option.filter_eq_some_iff.mp hx
  obtain ⟨rfl, _⟩ := owner_sampleCore hx
  have hlogin : sampleCore.db.identities.get (.given 1) =
      some ⟨.given 1, .password, "ann", some samplePassword, true⟩ := by decide
  have huser : sampleCore.db.users.get (.given 1) =
      some ⟨some "ann", none, none, none, .active, 1, none⟩ := by decide
  obtain rfl := Option.some.inj (hlogin.symm.trans hget)
  obtain rfl := Option.some.inj (huser.symm.trans hrow)
  cases contactType with
  | email => rfl
  | phone => cases hprovider

theorem logins_in_step_of_amy :
    ((reached moveToAmy).core.db.identities.get (.given 1)).map (·.providerSubject) =
      some "amy" := by
  have hrow : ((reached moveToAmy).core.db.users.get (.given 1)).map
      (fun row => (row.email, row.anonymizedAt)) = some (some "amy", none) := by decide +kernel
  have hlogin : ((reached moveToAmy).core.db.identities.get (.given 1)).map
      (fun x => (x.userId, x.provider)) = some (.given 1, .password) := by decide +kernel
  obtain ⟨row, hget, hamy⟩ := Option.map_eq_some_iff.mp hrow
  obtain ⟨x, hx, hmine⟩ := Option.map_eq_some_iff.mp hlogin
  obtain ⟨hemail, hopen⟩ := Prod.mk.inj hamy
  obtain ⟨huser, hprovider⟩ := Prod.mk.inj hmine
  have hstep := logins_in_step sampleCore_initial inStep_sampleCore
    (reachable_reached moveToAmy (by decide +kernel)) hget hopen hx huser
    (show x.provider = contactProvider .email from hprovider)
  change row.email = some x.providerSubject at hstep
  rw [hemail] at hstep
  rw [hx, Option.map_some, ← hstep]

end Moves

end AuthCore
