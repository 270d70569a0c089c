/-
Exports and erasures of one account.  An erasure deletes the artifacts and
cancels the requests that its statements find; an export that is still running
stores its artifact without looking at the state of its request.
-/
import AuthCore.Sessions.Invariant

namespace AuthCore

open Interleave Relational PrivacyRepository

/-- The request is cancelled and refers to no artifact. -/
def Cancelled (row : ExportRequest) : Prop :=
  row.state = .cancelled ∧ row.artifactReference = none

def Event.createsExport (u : Uuid) : Event → Bool
  | .account (.exportCreated _ user _ _ result) => result.2 && user == u
  | _ => false

def Event.completesExport (u : Uuid) : Event → Bool
  | .account (.exportCompleted args _) => args.userId == u
  | _ => false

def Event.failsExport (u : Uuid) : Event → Bool
  | .account (.exportFailed _ user _) => user == u
  | _ => false

/-- What an event does to the exports of `u`. -/
structure ExportStep (u : Uuid) (e : Event) (d d' : Db) : Prop where
  artifact : ∀ id a, d'.artifacts.get id = some a → a.userId = u →
    d.artifacts.get id = some a ∨ e.completesExport u = true
  request : ∀ id row, d'.exports.get id = some row → row.userId = u →
    e.createsExport u = true ∨ ∃ old, d.exports.get id = some old ∧ old.userId = u ∧
      (row = old ∨ Cancelled row ∨ e.completesExport u = true ∨ e.failsExport u = true)

section Steps

variable {u : Uuid} {e : Event} {d d' : Db}

theorem ExportStep.of_eq (hartifacts : d'.artifacts = d.artifacts)
    (hexports : d'.exports = d.exports) : ExportStep u e d d' := by
  constructor
  · intro id a ha _
    rw [hartifacts] at ha
    exact Or.inl ha
  · intro id row hrow huser
    rw [hexports] at hrow
    exact Or.inr ⟨row, hrow, huser, Or.inl rfl⟩

theorem ExportStep.trans {d'' : Db} (h : ExportStep u e d d') (h' : ExportStep u e d' d'') :
    ExportStep u e d d'' := by
  constructor
  · intro id a ha huser
    rcases h'.artifact id a ha huser with hmiddle | hcompletes
    · exact h.artifact id a hmiddle huser
    · exact Or.inr hcompletes
  · intro id row hrow huser
    rcases h'.request id row hrow huser with hcreates | ⟨middle, hmiddle, huser', hlast⟩
    · exact Or.inl hcreates
    · rcases h.request id middle hmiddle huser' with hcreates | ⟨old, hold, huser₀, hfirst⟩
      · exact Or.inl hcreates
      · refine Or.inr ⟨old, hold, huser₀, ?_⟩
        rcases hlast with rfl | hlast
        · exact hfirst
        · exact Or.inr hlast

theorem exportStep_of_steps (h : Relation.ReflTransGen (ExportStep u e) d d') :
    ExportStep u e d d' := by
  induction h with
  | refl => exact .of_eq rfl rfl
  | tail _ hstep ih => exact ih.trans hstep

theorem exportStep_cancelled (id : Uuid) {g : ExportRequest → ExportRequest}
    (huser : ∀ r, (g r).userId = r.userId) (hcancelled : ∀ r, Cancelled (g r)) :
    ExportStep u e d { d with exports := d.exports.update (fun k _ => k == id) g } := by
  constructor
  · exact fun _ _ ha _ => Or.inl ha
  · intro k row hrow hrow_user
    right
    obtain ⟨old, hold, rfl⟩ := Table.get_update_eq_some.mp hrow
    refine ⟨old, hold, ?_⟩
    split at hrow_user
    · rename_i hid
      rw [if_pos hid]
      exact ⟨(huser old).symm.trans hrow_user, Or.inr (Or.inl (hcancelled old))⟩
    · rename_i hid
      rw [if_neg hid]
      exact ⟨hrow_user, Or.inl rfl⟩

theorem erasing_exports (user : Uuid) : Erasing (ExportStep u e) user where
  artifacts _ _ :=
    ⟨fun _ _ ha _ => Or.inl (Table.get_delete_eq_some.mp ha).1,
      fun _ row hrow huser => Or.inr ⟨row, hrow, huser, Or.inl rfl⟩⟩
  «export» _ id huser _ := exportStep_cancelled id huser fun _ => ⟨rfl, rfl⟩
  contactChange _ _ := .of_eq rfl rfl
  mailed _ _ _ _ := .of_eq rfl rfl
  factor _ _ _ := .of_eq rfl rfl
  device _ _ _ _ := .of_eq rfl rfl
  staff _ := .of_eq rfl rfl
  binding _ _ _ _ := .of_eq rfl rfl
  identity _ _ _ _ := .of_eq rfl rfl
  family _ _ _ := .of_eq rfl rfl
  referrals _ := .of_eq rfl rfl
  referred _ _ := .of_eq rfl rfl
  invitation _ _ _ := .of_eq rfl rfl
  organization _ _ _ := .of_eq rfl rfl
  user _ _ _ _ := .of_eq rfl rfl
  request _ _ _ _ _ := .of_eq rfl rfl
  audit _ _ := .of_eq rfl rfl

/-- A request of `user` is written by its export. -/
theorem exportStep_written {id user : Uuid} {g : ExportRequest → ExportRequest}
    {row : ExportRequest} (hget : d.exports.get id = some row) (howner : row.userId = user)
    (hkeeps : ∀ r, (g r).userId = r.userId)
    (hown : user = u → e.completesExport u = true ∨ e.failsExport u = true) :
    ∀ k r, (d.exports.update (fun k _ => k == id) g).get k = some r → r.userId = u →
      ∃ old, d.exports.get k = some old ∧ old.userId = u ∧
        (r = old ∨ Cancelled r ∨ e.completesExport u = true ∨ e.failsExport u = true) := by
  intro k r hr hr_user
  obtain ⟨old, hold, rfl⟩ := Table.get_update_eq_some.mp hr
  refine ⟨old, hold, ?_⟩
  by_cases hid : k = id
  · subst hid
    rw [hget] at hold
    cases hold
    rw [if_pos (by simp), hkeeps] at hr_user
    exact ⟨hr_user, Or.inr (Or.inr (hown (howner.symm.trans hr_user)))⟩
  · rw [if_neg (by simpa using hid)] at hr_user ⊢
    exact ⟨hr_user, Or.inl rfl⟩

theorem alone_storeExport {args : CompleteArgs} {record : PrivacyRequestRecord}
    {change : Db → Db} (h : (storeExport args).alone d id = .ok (record, change)) :
    ∃ row, d.exports.get args.requestId = some row ∧ row.userId = args.userId ∧
      (change d).artifacts = d.artifacts.add args.artifactId ⟨args.requestId, args.userId,
        args.encryptedContent, args.contentDigest, args.artifactExpiresAt⟩ ∧
      (change d).exports = d.exports.update (fun k _ => k == args.requestId) (completed args) := by
  obtain ⟨view, pending, hlock, h⟩ := Tx.alone_bind_eq_ok h
  cases hlock
  dsimp only at h
  split at h
  · cases h
  · rename_i row hrow
    split at h
    · rename_i howner
      obtain ⟨_, _, hreserve, h⟩ := Tx.alone_bind_eq_ok h
      cases (alone_reserve hreserve).2
      cases h
      exact ⟨row, hrow, by simpa using howner, rfl, rfl⟩
    · cases h

variable {m : Core Db World}

theorem step_exportCreated {id user : Uuid} {keyHash : Digest} {expiresAt : Time}
    {record : PrivacyRequestRecord}
    (h : (Event.account (.exportCreated id user keyHash expiresAt (record, true))).Agrees m) :
    ExportStep u (.account (.exportCreated id user keyHash expiresAt (record, true))) m.db
      ((Event.account (.exportCreated id user keyHash expiresAt (record, true))).change m.db) := by
  obtain ⟨change, halone, hchange⟩ := h.commits rfl
  rw [hchange]
  obtain ⟨_, _, hreserve, hinsert⟩ := Tx.alone_bind_eq_ok halone
  cases (alone_reserve hreserve).2
  cases hinsert
  constructor
  · exact fun _ _ ha _ => Or.inl ha
  · intro k row hrow huser
    change (m.db.exports.add id (newExport user keyHash expiresAt)).get k = some row at hrow
    rcases Table.get_add_eq_some hrow with hold | ⟨_, rfl⟩
    · exact Or.inr ⟨row, hold, huser, Or.inl rfl⟩
    · exact Or.inl (by simpa [Event.createsExport, newExport] using huser)

theorem step_exportCompleted {args : CompleteArgs} {record : PrivacyRequestRecord}
    (h : (Event.account (.exportCompleted args record)).Agrees m) :
    ExportStep u (.account (.exportCompleted args record)) m.db
      ((Event.account (.exportCompleted args record)).change m.db) := by
  obtain ⟨change, halone, hchange⟩ := h.commits rfl
  rw [hchange]
  obtain ⟨row, hget, howner, hartifacts, hexports⟩ := alone_storeExport halone
  constructor
  · intro id a ha huser
    rw [hartifacts] at ha
    rcases Table.get_add_eq_some ha with hold | ⟨_, rfl⟩
    · exact Or.inl hold
    · exact Or.inr (by simpa [Event.completesExport] using huser)
  · intro id r hr huser
    rw [hexports] at hr
    refine Or.inr (exportStep_written (g := completed args) hget howner (fun _ => rfl)
      (fun hown => ?_) id r hr huser)
    exact Or.inl (by simpa [Event.completesExport] using hown)

theorem step_exportFailed {id user : Uuid} {code : String}
    (h : (Event.account (.exportFailed id user code)).Agrees m) :
    ExportStep u (.account (.exportFailed id user code)) m.db
      ((Event.account (.exportFailed id user code)).change m.db) := by
  obtain ⟨change, halone, hchange⟩ := h.commits rfl
  rw [hchange]
  obtain ⟨view, _, hlock, h⟩ := Tx.alone_bind_eq_ok halone
  cases hlock
  dsimp only at h
  split at h
  · cases h
    exact .of_eq rfl rfl
  · rename_i row hrow
    split at h
    · rename_i howner
      cases h
      constructor
      · exact fun _ _ ha _ => Or.inl ha
      · intro k r hr huser
        refine Or.inr (exportStep_written
          (g := fun row => { row with state := .failed, failureCode := some code }) hrow
          (by simpa using howner) (fun _ => rfl) (fun hown => ?_) k r hr huser)
        exact Or.inr (by simpa [Event.failsExport] using hown)
    · cases h
      exact .of_eq rfl rfl

theorem step_ofWrites {event : AccountEvent}
    (h : ∀ commit, event.commit = some commit →
      commit.body.Guarantees (ExportStep u (.account event))) :
    ExportStep u (.account event) d ((Event.account event).change d) :=
  exportStep_of_steps (Event.steps_change (e := .account event) h d)

theorem step_accountExports {event : AccountEvent} (h : (Event.account event).Agrees m) :
    ExportStep u (.account event) m.db ((Event.account event).change m.db) := by
  cases event with
  | suspended target actor result =>
      refine step_ofWrites fun commit hcommit => ?_
      cases hcommit
      refine (guarantees_lockRow _ _).bind fun row => ?_
      split
      · trivial
      · split
        · trivial
        · exact ⟨fun _ => .of_eq rfl rfl, fun _ => .of_eq rfl rfl, trivial⟩
  | requestCreated id user keyHash result =>
      refine step_ofWrites fun commit hcommit => ?_
      obtain ⟨record | _, _ | _⟩ := result <;> cases hcommit
      exact (guarantees_reserve _ _ _).bind fun _ =>
        ⟨fun _ => .of_eq rfl rfl, fun _ => .of_eq rfl rfl, trivial⟩
  | erased args outcome result =>
      refine step_ofWrites fun commit hcommit => ?_
      cases outcome with
      | nothing => cases hcommit
      | refused =>
          cases hcommit
          exact ⟨fun _ => .of_eq rfl rfl, trivial⟩
      | erased email found =>
          cases hcommit
          exact guarantees_eraseWrites (erasing_exports _) _ _
  | requestFailed id user code =>
      refine step_ofWrites fun commit hcommit => ?_
      cases hcommit
      refine (guarantees_lockRow _ _).bind fun row => ?_
      split
      · trivial
      · split
        · exact ⟨fun _ => .of_eq rfl rfl, trivial⟩
        · trivial
  | exportCreated id user keyHash expiresAt result =>
      obtain ⟨record, _ | _⟩ := result
      · exact .of_eq rfl rfl
      · exact step_exportCreated h
  | exportCompleted args record => exact step_exportCompleted h
  | exportFailed id user code => exact step_exportFailed h
  | _ => exact .of_eq rfl rfl

theorem export_change (h : e.Agrees m) : ExportStep u e m.db (e.change m.db) := by
  by_cases haccount : ∃ event, e = .account event
  · obtain ⟨event, rfl⟩ := haccount
    exact step_accountExports h
  · have haside : Aside fun d : Db => (d.artifacts, d.exports) :=
      ⟨fun _ => rfl, fun _ => rfl, fun _ => rfl, fun _ => rfl, fun _ => rfl, fun _ _ => rfl⟩
    have hsame := haside.change (e := e) m.db (fun event heq => absurd ⟨event, heq⟩ haccount)
      (by
        rintro event rfl
        exact Event.keeps_part (e := .recovery event) (π := fun d : Db => (d.artifacts, d.exports))
          (fun commit hcommit => event.keeps hcommit) (fun _ => rfl) m.db)
    obtain ⟨hartifacts, hexports⟩ := Prod.mk.inj hsame
    exact .of_eq hartifacts hexports

end Steps

/-- No artifact of `u`, and no request of `u` that is not cancelled. -/
structure ExportsGone (u : Uuid) (d : Db) : Prop where
  artifacts : ∀ id a, d.artifacts.get id = some a → a.userId ≠ u
  requests : ∀ id row, d.exports.get id = some row → row.userId = u → Cancelled row

theorem ExportsGone.step {u : Uuid} {e : Event} {d d' : Db} (h : ExportsGone u d)
    (hstep : ExportStep u e d d') (hcreates : e.createsExport u = false)
    (hcompletes : e.completesExport u = false) (hfails : e.failsExport u = false) :
    ExportsGone u d' := by
  constructor
  · intro id a ha huser
    rcases hstep.artifact id a ha huser with hold | htrue
    · exact h.artifacts id a hold huser
    · rw [hcompletes] at htrue
      cases htrue
  · intro id row hrow huser
    rcases hstep.request id row hrow huser with htrue | ⟨old, hold, huser', hcases⟩
    · rw [hcreates] at htrue
      cases htrue
    · rcases hcases with rfl | hcancelled | htrue | htrue
      · exact h.requests id row hold huser
      · exact hcancelled
      · rw [hcompletes] at htrue
        cases htrue
      · rw [hfails] at htrue
        cases htrue

section Erasing

variable {args : ErasureArgs} {email : Option String} {found : ErasureFound} {d : Db}
  {change : Db → Db}

theorem artifacts_erased (h : (eraseWrites args email found).alone d id = .ok ((), change))
    (hfound : ∀ id a, d.artifacts.get id = some a → a.userId = args.userId →
      a.requestId ∈ found.requests.artifacts) :
    ∀ id a, (change d).artifacts.get id = some a → a.userId ≠ args.userId := by
  intro id a ha huser
  have hpart : write (DbChange.deleteArtifacts args.userId found.requests.artifacts) ∈
      eraseParts args email found := by simp [eraseParts]
  obtain ⟨before, after, halone, hsteps⟩ := erasure_at h hpart
  cases halone
  -- the event stands for one that is no step of an export
  obtain ⟨hbefore, hafter⟩ := hsteps _
    (erasing_exports (u := args.userId) (e := .clock 0) args.userId)
  rcases (exportStep_of_steps hafter).artifact id a ha huser with hmiddle | htrue
  · obtain ⟨hget, hkept⟩ := Table.get_delete_eq_some.mp hmiddle
    rcases (exportStep_of_steps hbefore).artifact id a hget huser with hold | htrue
    · simp [huser, hfound id a hold huser] at hkept
    · cases htrue
  · cases htrue

theorem exports_cancelled (h : (eraseWrites args email found).alone d id = .ok ((), change))
    (hfound : ∀ id row, d.exports.get id = some row → row.userId = args.userId →
      id ∈ found.requests.exports) :
    ∀ id row, (change d).exports.get id = some row → row.userId = args.userId →
      Cancelled row := by
  intro k row hrow huser
  have hwhole : ExportStep args.userId (.clock 0) d (change d) :=
    exportStep_of_steps ((guarantees_eraseWrites (erasing_exports _) email found).alone h d)
  obtain hcreates | ⟨old, hold, howner, _⟩ := hwhole.request k row hrow huser
  · cases hcreates
  have hpart : cancelExport args.userId k ∈ eraseParts args email found := by
    have hmem := List.mem_map_of_mem (f := cancelExport args.userId) (hfound k old hold howner)
    simp only [eraseParts, List.mem_append]
    exact Or.inr (Or.inl hmem)
  obtain ⟨before, after, halone, hsteps⟩ := erasure_at h hpart
  obtain ⟨_, hafter⟩ := hsteps _
    (erasing_exports (u := args.userId) (e := .clock 0) args.userId)
  have hcancelled : ∀ r, (after d).exports.get k = some r → Cancelled r := by
    rw [cancelExport_alone, hold] at halone
    dsimp only at halone
    rw [if_pos (by simpa using howner)] at halone
    cases halone
    intro r hr
    obtain ⟨w, _, rfl⟩ := Table.get_update_eq_some.mp hr
    rw [if_pos (by simp)]
    exact ⟨rfl, rfl⟩
  rcases (exportStep_of_steps hafter).request k row hrow huser with
    hcreates | ⟨middle, hmiddle, _, rfl | hrow | hfalse | hfalse⟩
  · cases hcreates
  · exact hcancelled row hmiddle
  · exact hrow
  · cases hfalse
  · cases hfalse

end Erasing

variable {env : Env} {c : Core Db World}

/-- No export of `u` is behind the erasure that call `i` made: none stores its
artifact after the erasure asked for the artifacts, none is created after the
erasure asked for the requests, and none fails after it. -/
structure QuietExports (log : List (Nat × Event)) (i : Nat) (u : Uuid) : Prop where
  completed : ∀ after k e between found before,
    log = after ++ (k, e) ::
      (between ++ (i, .account (.found u "privacy_export_artifacts" found)) :: before) →
    e.completesExport u = false
  created : ∀ after k e between found before,
    log = after ++ (k, e) ::
      (between ++ (i, .account (.found u "gdpr_requests" found)) :: before) →
    e.createsExport u = false
  failed : ∀ after k e between args outcome result before,
    log = after ++ (k, e) :: (between ++ (i, .account (.erased args outcome result)) :: before) →
    e.failsExport u = false

/-- The artifacts that an erasure found are all there are when it commits. -/
theorem artifacts_found (hinit : Initial c) {m : Core Db World} (h : History env c m) {i : Nat}
    {args : ErasureArgs} {found : ErasureFound} (herases : Erases args found (trace i m.store.log))
    {entry : Nat × Event} {later : List (Nat × Event)}
    (hquiet : QuietExports (later ++ entry :: m.store.log) i args.userId) :
    ∀ id a, m.db.artifacts.get id = some a → a.userId = args.userId →
      a.requestId ∈ found.requests.artifacts := by
  generalize htrace : trace i m.store.log = t at herases
  cases herases with
  | @intro owned others rest _ =>
      obtain ⟨waiting, first, hlog, _, _⟩ := log_of_trace
        (show trace i m.store.log = (eraseFinds args.userId found).take 10 ++
          .account (.found args.userId "privacy_export_artifacts" found.requests.artifacts) ::
            (others ++ .account (.ownedOrganizations args.userId owned) :: rest) from htrace)
      obtain ⟨m₁, hm₁, rfl, _, hagrees, _⟩ := h.around hinit.log hlog
      have hasked : found.requests.artifacts = artifactsOf args.userId m₁.db :=
        hagrees.tells.artifacts rfl
      refine h.since hinit.log hm₁ hlog rfl (P := fun d => ∀ id a, d.artifacts.get id = some a →
        a.userId = args.userId → a.requestId ∈ found.requests.artifacts) ?_ ?_
      · intro id a ha huser
        rw [hasked]
        exact List.mem_map.mpr ⟨(id, a), Table.mem_select.mpr ⟨ha, by simpa using huser⟩, rfl⟩
      · rintro l₁ k e l₂ m' rfl hagrees' hP id a ha huser
        have hnone := hquiet.completed (later ++ entry :: l₁) k e l₂ found.requests.artifacts
          m₁.store.log (by simp [hlog])
        rcases (export_change hagrees').artifact id a ha huser with hold | htrue
        · exact hP id a hold huser
        · rw [hnone] at htrue
          cases htrue

/-- So are the requests. -/
theorem exports_found (hinit : Initial c) {m : Core Db World} (h : History env c m) {i : Nat}
    {args : ErasureArgs} {found : ErasureFound} (herases : Erases args found (trace i m.store.log))
    {entry : Nat × Event} {later : List (Nat × Event)}
    (hquiet : QuietExports (later ++ entry :: m.store.log) i args.userId) :
    ∀ id row, m.db.exports.get id = some row → row.userId = args.userId →
      id ∈ found.requests.exports := by
  generalize htrace : trace i m.store.log = t at herases
  cases herases with
  | @intro owned others rest _ =>
      obtain ⟨waiting, first, hlog, _, _⟩ := log_of_trace
        (show trace i m.store.log = (eraseFinds args.userId found).take 9 ++
          .account (.found args.userId "gdpr_requests" found.requests.exports) ::
          .account (.found args.userId "privacy_export_artifacts" found.requests.artifacts) ::
            (others ++ .account (.ownedOrganizations args.userId owned) :: rest) from htrace)
      obtain ⟨m₁, hm₁, rfl, _, hagrees, _⟩ := h.around hinit.log hlog
      have hasked : found.requests.exports = exportsOf args.userId m₁.db :=
        hagrees.tells.exports rfl
      refine h.since hinit.log hm₁ hlog rfl (P := fun d => ∀ id row, d.exports.get id = some row →
        row.userId = args.userId → id ∈ found.requests.exports) ?_ ?_
      · intro id row hrow huser
        rw [hasked]
        exact List.mem_map.mpr ⟨(id, row), Table.mem_select.mpr ⟨hrow, by simpa using huser⟩, rfl⟩
      · rintro l₁ k e l₂ m' rfl hagrees' hP id row hrow huser
        have hnone := hquiet.created (later ++ entry :: l₁) k e l₂ found.requests.exports
          m₁.store.log (by simp [hlog])
        rcases (export_change hagrees').request id row hrow huser with
          htrue | ⟨old, hold, howner, _⟩
        · rw [hnone] at htrue
          cases htrue
        · exact hP id old hold howner

theorem asked_of_erases {log : List (Nat × Event)} {i : Nat} {args : ErasureArgs}
    {found : ErasureFound} (h : Erases args found (trace i log)) {e : Event}
    (he : e ∈ eraseFinds args.userId found) : (i, e) ∈ log := by
  refine mem_trace_iff.mp ?_
  generalize trace i log = t at h
  cases h with
  | intro => exact List.mem_append_left _ he

/-- No event after the erasure is one of an export. -/
theorem QuietExports.later {before after : List (Nat × Event)} {i : Nat} {args : ErasureArgs}
    {found : ErasureFound} {outcome : ErasureOutcome} {result : Option PrivacyRequestRecord}
    (h : QuietExports (after ++ (i, .account (.erased args outcome result)) :: before) i
      args.userId) (herases : Erases args found (trace i before)) {k : Nat} {e : Event}
    (hmem : (k, e) ∈ after) : e.createsExport args.userId = false ∧
      e.completesExport args.userId = false ∧ e.failsExport args.userId = false := by
  obtain ⟨l₁, l₂, rfl⟩ := List.append_of_mem hmem
  refine ⟨?_, ?_, ?_⟩
  · obtain ⟨l₃, l₄, rfl⟩ := List.append_of_mem (asked_of_erases herases
      (e := .account (.found args.userId "gdpr_requests" found.requests.exports))
      (by simp [eraseFinds]))
    exact h.created l₁ k e (l₂ ++ (i, .account (.erased args outcome result)) :: l₃)
      found.requests.exports l₄ (by simp)
  · obtain ⟨l₃, l₄, rfl⟩ := List.append_of_mem (asked_of_erases herases
      (e := .account (.found args.userId "privacy_export_artifacts" found.requests.artifacts))
      (by simp [eraseFinds]))
    exact h.completed l₁ k e (l₂ ++ (i, .account (.erased args outcome result)) :: l₃)
      found.requests.artifacts l₄ (by simp)
  · exact h.failed l₁ k e l₂ args outcome result before (by simp)

/-- An erasure with no export behind it leaves none, for good. -/
theorem exports_erased (hinit : Initial c) {s : Config schema World AuthError Result}
    (h : (application env).Reachable c s) {later earlier : List (Nat × Event)} {i : Nat}
    {e : Event} (hlog : s.core.store.log = later ++ (i, e) :: earlier) {u : Uuid}
    (herased : e.erases u = true) (hquiet : QuietExports s.core.store.log i u) :
    ExportsGone u s.core.db := by
  obtain ⟨args, email, found, result, rfl, rfl⟩ := Event.eq_of_erases herased
  have hhistory := history_of_reachable hinit.log h
  obtain ⟨m, hm, rfl, herases, hagrees, _⟩ := hhistory.around hinit.log hlog
  replace herases : Erases args found (trace i m.store.log) := herases.1
  obtain ⟨change, halone, hchange⟩ := hagrees.commits rfl
  rw [hlog] at hquiet
  have hgone : ExportsGone args.userId (change m.db) :=
    ⟨artifacts_erased halone (artifacts_found hinit hm herases hquiet),
      exports_cancelled halone (exports_found hinit hm herases hquiet)⟩
  rw [hhistory.db_eq hinit.log, hlog]
  refine hhistory.through hinit.log (show s.core.store.log = [] ++ (later ++ _) from hlog) ?_ ?_
  · rw [replay_cons, ← hm.db_eq hinit.log, hchange]
    exact hgone
  · intro m' k e hmem _ _ hagrees' hP
    obtain ⟨hcreates, hcompletes, hfails⟩ := hquiet.later herases hmem
    exact hP.step (export_change hagrees') hcreates hcompletes hfails

/-- In a log whose older part has nothing of call `i`, what comes after an entry
of `i` is in the newer part. -/
theorem mem_of_later {newer older after between before : List (Nat × Event)} {i k : Nat}
    {e q : Event} (holder : ∀ entry ∈ older, entry.1 ≠ i)
    (heq : newer ++ older = after ++ (k, e) :: (between ++ (i, q) :: before)) :
    (k, e) ∈ newer := by
  rcases List.append_eq_append_iff.mp heq with ⟨rest, _, hrest⟩ | ⟨rest, hrest, hrest'⟩
  · exact absurd rfl (holder (i, q) (by simp [hrest]))
  · cases rest with
    | nil => exact absurd rfl (holder (i, q) (by simp at hrest'; simp [← hrest']))
    | cons entry rest =>
        obtain ⟨rfl, _⟩ := List.cons.inj hrest'
        simp [hrest]

theorem quietExports_of_split {newer older : List (Nat × Event)} {i : Nat} {u : Uuid}
    (hnewer : ∀ entry ∈ newer, entry.2.createsExport u = false ∧
      entry.2.completesExport u = false ∧ entry.2.failsExport u = false)
    (holder : ∀ entry ∈ older, entry.1 ≠ i) : QuietExports (newer ++ older) i u :=
  ⟨fun _ _ _ _ _ _ heq => (hnewer _ (mem_of_later holder heq)).2.1,
    fun _ _ _ _ _ _ heq => (hnewer _ (mem_of_later holder heq)).1,
    fun _ _ _ _ _ _ _ _ heq => (hnewer _ (mem_of_later holder heq)).2.2⟩

/-- An export of Ann, and then the erasure of her account. -/
def exportThenErasure : List SampleMove :=
  perform 0 (.requestExport (strongClaims (.given 1)) "key") 18 ++
    perform 1 (.requestErasure (strongClaims (.given 1)) "key") 43

theorem exports_erased_after_export :
    ∃ s, (application sampleEnv).Reachable sampleCore s ∧
      (s.core.db.exports.get (.drawn 0 0)).isSome = true ∧ ExportsGone (.given 1) s.core.db := by
  have hreach := reachable_reached exportThenErasure (by decide +kernel)
  have herased : (reached exportThenErasure).core.store.log.any
      (fun entry => entry.1 == 1 && entry.2.erases (.given 1)) = true := by decide +kernel
  obtain ⟨⟨i, e⟩, hmem, hentry⟩ := List.any_eq_true.mp herased
  obtain ⟨hi, he⟩ := Bool.and_eq_true_iff.mp hentry
  obtain rfl : i = 1 := by simpa using hi
  obtain ⟨later, earlier, hlog⟩ := List.append_of_mem hmem
  refine ⟨_, hreach, by decide +kernel, exports_erased sampleCore_initial hreach hlog he ?_⟩
  rw [← List.take_append_drop 23 (reached exportThenErasure).core.store.log]
  exact quietExports_of_split (by decide +kernel) (by decide +kernel)

/-- The export is about to store its artifact when the account is erased. -/
def exportAroundErasure : List SampleMove :=
  perform 0 (.requestExport (strongClaims (.given 1)) "key") 10 ++
    perform 1 (.requestErasure (strongClaims (.given 1)) "key") 43 ++ steps 0 8

theorem export_outlives_erasure :
    Initial sampleCore ∧ ∃ s, (application sampleEnv).Reachable sampleCore s ∧ s.Quiescent ∧
      (∃ entry ∈ s.core.store.log, entry.2.erases (.given 1) = true) ∧
      ¬ExportsGone (.given 1) s.core.db := by
  refine ⟨sampleCore_initial, reached exportAroundErasure,
    reachable_reached _ (by decide +kernel), quiescent_reached (by decide +kernel),
    by simpa using (show (reached exportAroundErasure).core.store.log.any
      (fun entry => entry.2.erases (.given 1)) = true by decide +kernel), fun hgone => ?_⟩
  have hartifact : ((reached exportAroundErasure).core.db.artifacts.get (.drawn 0 1)).map
      (·.userId) = some (.given 1) := by decide +kernel
  obtain ⟨a, ha, huser⟩ := Option.map_eq_some_iff.mp hartifact
  exact hgone.artifacts _ a ha huser

end AuthCore
