/-
Downloads of an export: whatever the other calls do meanwhile, an artifact that a download finds
opens, passes its digest and holds what an export collected about the very user who downloads.
-/
import AuthCore.Erasure.Exports
import AuthCore.History.Commits
import AuthCore.Interleave.Upholds
import AuthCore.Model.Sample

namespace AuthCore

open Interleave Relational PrivacyRepository

namespace PrivacyRepository

/-- `get_privacy_request`; the flag tells an export from an erasure. -/
def getPrivacyRequest (user request : Uuid) (d : Db) : Option (Bool × PrivacyRequestRecord) :=
  match (d.exports.get request).filter (·.userId == user) with
  | some row => some (true, exportRecord request row)
  | none => ((d.requests.get request).filter (·.userId == user)).map fun row =>
      (false, requestRecord request row)

/-- `get_export_artifact`. -/
def getExportArtifact (user request : Uuid) (now : Time) (d : Db) :
    Option PrivacyExportArtifact :=
  ((d.artifacts.select fun _ a => a.requestId == request && a.userId == user &&
    now < a.expiresAt).map Prod.snd).head?

end PrivacyRepository

/-- The cipher that seals an export and the digest of its document, with what they promise: what
was sealed for a user and a request opens for them. -/
structure ExportCipher (env : Env) where
  document : ExportData → String
  decrypt : String → Uuid → Uuid → Option String
  contentDigest : String → String
  opens : ∀ data user request,
    decrypt (env.sealExport data user request).1 user request = some (document data)
  digests : ∀ data user request,
    contentDigest (document data) = (env.sealExport data user request).2

structure PrivacyError where
  code : String
  message : String
  statusCode : Nat
deriving DecidableEq, Repr

namespace PrivacyError

def recentMfaRequired : PrivacyError :=
  ⟨"AUTH_RECENT_MFA_REQUIRED", "Complete a recent extra security check before continuing.", 403⟩

def requestNotFound : PrivacyError :=
  ⟨"AUTH_PRIVACY_REQUEST_NOT_FOUND", "The privacy request was not found.", 404⟩

def exportUnavailable : PrivacyError :=
  ⟨"AUTH_PRIVACY_EXPORT_UNAVAILABLE", "The export is unavailable, incomplete, or expired.", 410⟩

def exportIntegrityFailed : PrivacyError :=
  ⟨"AUTH_PRIVACY_EXPORT_INTEGRITY_FAILED", "The export failed its security verification.", 500⟩

end PrivacyError

structure ExportDownload where
  requestId : Uuid
  content : String
  expiresAt : Time
deriving DecidableEq, Repr

namespace GDPRControl

/-- `get_request`. -/
def getRequest (claims : AccessClaims) (request : Uuid) (d : Db) :
    Except PrivacyError (Bool × PrivacyRequestRecord) :=
  match getPrivacyRequest claims.userId request d with
  | none => .error .requestNotFound
  | some found => .ok found

variable {env : Env} (cipher : ExportCipher env)

/-- The end of `download_export`, with the artifact that was read. -/
def openExport (user request : Uuid) :
    Option PrivacyExportArtifact → Except PrivacyError ExportDownload
  | none => .error .exportUnavailable
  | some artifact =>
      match cipher.decrypt artifact.encryptedContent user request with
      | none => .error .exportIntegrityFailed
      | some plaintext =>
          if cipher.contentDigest plaintext = artifact.contentDigest then
            .ok ⟨request, plaintext, artifact.expiresAt⟩
          else
            .error .exportIntegrityFailed

/-- `download_export`: the request is read in `earlier`, the artifact in `d`. -/
def downloadExport (claims : AccessClaims) (request : Uuid) (earlier d : Db) (now : Time) :
    Except PrivacyError ExportDownload :=
  if ¬SupportAdminControl.recentMfa claims then
    .error .recentMfaRequired
  else
  match getRequest claims request earlier with
  | .error e => .error e
  | .ok (isExport, record) =>
      if ¬isExport ∨ record.state ≠ RequestState.completed.value then
        .error .exportUnavailable
      else
        openExport cipher claims.userId request (getExportArtifact claims.userId request now d)

end GDPRControl

/-- What an export has collected about a user. -/
def About (user : Uuid) (data : ExportData) : Prop :=
  ∃ collectedAt d, collectExportData user collectedAt d = some data

/-- The artifact holds what was collected about its user, sealed for its request. -/
def SealedFor (env : Env) (a : PrivacyExportArtifact) : Prop :=
  ∃ data, About a.userId data ∧
    (a.encryptedContent, a.contentDigest) = env.sealExport data a.userId a.requestId

def ArtifactsSealed (env : Env) (d : Db) : Prop :=
  ∀ id a, d.artifacts.get id = some a → SealedFor env a

/-- The artifacts that a write adds are sealed. -/
def AddsSealed (env : Env) (d d' : Db) : Prop :=
  ∀ id a, d'.artifacts.get id = some a → d.artifacts.get id = some a ∨ SealedFor env a

section Writes

variable {env : Env} {d d' : Db}

theorem AddsSealed.of_eq (h : d'.artifacts = d.artifacts) : AddsSealed env d d' :=
  fun _ _ ha => Or.inl (h ▸ ha)

theorem ArtifactsSealed.step (h : ArtifactsSealed env d) (hadds : AddsSealed env d d') :
    ArtifactsSealed env d' :=
  fun id a ha => (hadds id a ha).elim (h id a) fun hsealed => hsealed

theorem addsSealed_of_keeps {π : Db → Db} (h : Tx.Keeps π d d')
    (hπ : ∀ d, (π d).artifacts = d.artifacts) : AddsSealed env d d' :=
  .of_eq ((hπ d').symm.trans ((congrArg Db.artifacts h).trans (hπ d)))

theorem erasing_addsSealed (user : Uuid) : Erasing (AddsSealed env) user where
  artifacts _ _ := fun _ _ ha => Or.inl (Table.get_delete_eq_some.mp ha).1
  «export» _ _ _ _ := .of_eq rfl
  contactChange _ _ := .of_eq rfl
  mailed _ _ _ _ := .of_eq rfl
  factor _ _ _ := .of_eq rfl
  device _ _ _ _ := .of_eq rfl
  staff _ := .of_eq rfl
  binding _ _ _ _ := .of_eq rfl
  identity _ _ _ _ := .of_eq rfl
  family _ _ _ := .of_eq rfl
  referrals _ := .of_eq rfl
  referred _ _ := .of_eq rfl
  invitation _ _ _ := .of_eq rfl
  organization _ _ _ := .of_eq rfl
  user _ _ _ _ := .of_eq rfl
  request _ _ _ _ _ := .of_eq rfl
  audit _ _ := .of_eq rfl

theorem accountWrites_addsSealed : AccountWrites (AddsSealed env) where
  setUserState _ _ _ := .of_eq rfl
  addRequest _ _ _ := .of_eq rfl
  setRequest _ _ _ _ _ := .of_eq rfl
  addExport _ _ _ := .of_eq rfl
  setExport _ _ _ _ _ := .of_eq rfl
  audit _ _ := .of_eq rfl

theorem addsSealed_storeExport {args : CompleteArgs}
    (h : SealedFor env ⟨args.requestId, args.userId, args.encryptedContent, args.contentDigest,
      args.artifactExpiresAt⟩) : (storeExport args).Guarantees (AddsSealed env) := by
  refine guarantees_storeExport accountWrites_addsSealed fun d id a ha => ?_
  rcases Table.get_add_eq_some ha with hold | ⟨_, rfl⟩
  · exact Or.inl hold
  · exact Or.inr h

/-- No transaction of the application but the completion of an export adds an artifact. -/
theorem Event.addsSealed {e : Event} {commit : Commit} (h : e.commit = some commit)
    (hstays : ∀ args record, e ≠ .account (.exportCompleted args record)) :
    commit.body.Guarantees (AddsSealed env) := by
  cases e with
  | session event =>
      exact (event.keeps h).mono fun _ _ hkeeps => addsSealed_of_keeps hkeeps fun _ => rfl
  | workspace event =>
      exact event.guarantees (fun _ _ hkeeps => addsSealed_of_keeps hkeeps fun _ => rfl)
        (fun _ _ hkeeps => addsSealed_of_keeps hkeeps fun _ => rfl) h
  | mfa event =>
      exact (event.keeps h).mono fun _ _ hkeeps => addsSealed_of_keeps hkeeps fun _ => rfl
  | login event =>
      exact (event.keeps h).mono fun _ _ hkeeps => addsSealed_of_keeps hkeeps fun _ => rfl
  | account event =>
      exact event.guarantees accountWrites_addsSealed
        (fun _ _ _ _ _ => guarantees_eraseWrites (erasing_addsSealed _) _ _)
        (fun args record heq => absurd (congrArg Event.account heq) (hstays args record)) h
  | recovery event =>
      exact (event.keeps h).mono fun _ _ hkeeps => addsSealed_of_keeps hkeeps fun _ => rfl
  | audited entry =>
      cases h
      exact ⟨fun _ => .of_eq rfl, trivial⟩
  | _ => cases h

end Writes

/-- An event of the application other than the completion of an export. -/
structure ForeignEvent where
  event : Event
  stays : ∀ args record, event ≠ .account (.exportCompleted args record)

inductive ExportCall where
  | requestExport (claims : AccessClaims) (idempotencyKey : String)
  | foreign (event : ForeignEvent)

/-- A transaction of another call, from what its queries have found on. -/
def foreignCall (foreign : ForeignEvent) : Proc Result :=
  match foreign.event.commit with
  | none => .done .nothing
  | some commit => .txn (fun _ _ w => w) commit.body fun _ => .done .nothing

/-- Exports beside everything else that the application commits, erasures with it. -/
def exportService (env : Env) : Service schema World AuthError Result where
  Call := ExportCall
  prog me
    | .requestExport claims idempotencyKey =>
        GDPRControl.requestExport env me claims idempotencyKey
    | .foreign event => foreignCall event
  onCall _ _ w := w
  onReturn _ _ w := w
  tick n w := { w with now := w.now + n }

section Calls

variable {env : Env}

theorem upholds_commit {β : Type} {body : Trans β} (hbody : body.Guarantees (AddsSealed env)) :
    body.Upholds fun c => ArtifactsSealed env c.db :=
  Tx.upholds_of_guarantees (fun _ _ hadds h => h.step hadds) hbody

/-- One step of a call that leaves the database alone. -/
theorem upholds_stepThen {β γ : Type} {f : Db → World → β × World} {event : β → Event}
    {k : β → Proc γ}
    (hk : ∀ d w, (k (f d w).1).Upholds fun c => ArtifactsSealed env c.db) :
    (step f event >>= k).Upholds fun c => ArtifactsSealed env c.db := by
  intro i c hc answer hanswer
  obtain rfl := List.mem_singleton.mp hanswer
  exact ⟨hc, hk c.db c.store⟩

theorem upholds_abandonExport (request user : Uuid) :
    (GDPRControl.abandonExport request user).Upholds fun c => ArtifactsSealed env c.db := by
  have hfail : (failExportRequest request user "EXPORT_BUILD_FAILED").Upholds
      fun c : Core Db World => ArtifactsSealed env c.db :=
    upholds_commit (guarantees_failExportRequest accountWrites_addsSealed _ _ _)
  refine Prog.Upholds.bind (Prog.upholds_txn hfail (fun _ _ _ hc => hc) fun result => ?_)
    fun _ => trivial
  cases result <;> trivial

theorem upholds_getOrCreateExport (id user : Uuid) (keyHash : Digest) (expiresAt : Time) :
    (getOrCreateExport id user keyHash expiresAt).Upholds fun c => ArtifactsSealed env c.db := by
  refine Prog.upholds_txn ⟨fun _ _ _ hc => hc, fun existing => ?_⟩ (fun _ _ _ hc => hc)
    fun result => ?_
  · cases existing with
    | some row => trivial
    | none =>
        exact (upholds_commit
          (guarantees_insertExport accountWrites_addsSealed _ _ _ _)).bind fun _ => trivial
  · cases result <;> trivial

theorem upholds_completeExport {args : CompleteArgs}
    (h : SealedFor env ⟨args.requestId, args.userId, args.encryptedContent, args.contentDigest,
      args.artifactExpiresAt⟩) :
    (completeExport args).Upholds fun c => ArtifactsSealed env c.db :=
  Prog.upholds_txn (upholds_commit (addsSealed_storeExport h)) (fun _ _ _ hc => hc)
    fun _ => trivial

/-- What an export stores is what it has collected about its user. -/
theorem upholds_requestExport (me : Nat) (claims : AccessClaims) (idempotencyKey : String) :
    (GDPRControl.requestExport env me claims idempotencyKey).Upholds
      fun c => ArtifactsSealed env c.db := by
  unfold GDPRControl.requestExport
  split
  · trivial
  · refine upholds_stepThen fun _ w => ?_
    refine (upholds_getOrCreateExport _ _ _ _).bind fun requested => ?_
    obtain ⟨request, created⟩ := requested
    dsimp only
    split
    · trivial
    · refine upholds_stepThen fun _ w' => upholds_stepThen fun d _ => ?_
      cases hdata : collectExportData claims.userId w'.now d with
      | none => exact upholds_abandonExport _ _
      | some data =>
          refine upholds_stepThen fun _ _ => ?_
          have hsealed : SealedFor env ⟨request.requestId, claims.userId,
              (env.sealExport data claims.userId request.requestId).1,
              (env.sealExport data claims.userId request.requestId).2,
              w.now + GDPRControl.exportArtifactTtl⟩ := ⟨data, ⟨_, _, hdata⟩, rfl⟩
          refine (upholds_completeExport hsealed).bind fun outcome => ?_
          split
          · exact upholds_abandonExport _ _
          · trivial

theorem upholds_foreignCall (foreign : ForeignEvent) :
    (foreignCall foreign).Upholds fun c => ArtifactsSealed env c.db := by
  unfold foreignCall
  cases hcommit : foreign.event.commit with
  | none => trivial
  | some commit =>
      exact Prog.upholds_txn (upholds_commit (Event.addsSealed hcommit foreign.stays))
        (fun _ _ _ hc => hc) fun _ => trivial

/-- Every artifact of every reachable state was sealed by an export of its user. -/
theorem artifacts_sealed {c : Core Db World} (hinit : c.db.artifacts = ∅)
    {s : Config schema World AuthError Result} (hreach : (exportService env).Reachable c s) :
    ArtifactsSealed env s.core.db := by
  refine Service.upholds_of_reachable (J := fun c => ArtifactsSealed env c.db) (fun me call => ?_)
    (fun _ _ _ hc => hc) (fun _ _ _ hc => hc) (fun _ _ hc => hc) (fun id a ha => ?_) hreach
  · cases call with
    | requestExport claims idempotencyKey => exact upholds_requestExport me claims idempotencyKey
    | foreign event => exact upholds_foreignCall event
  · rw [hinit, Table.get_empty] at ha
    cases ha

end Calls

section Download

variable {env : Env} (cipher : ExportCipher env)

/-- What a download finds is the user's own, and in time. -/
theorem artifact_of_get {user request : Uuid} {now : Time} {d : Db} {a : PrivacyExportArtifact}
    (h : getExportArtifact user request now d = some a) :
    (∃ id, d.artifacts.get id = some a) ∧ a.requestId = request ∧ a.userId = user ∧
      now < a.expiresAt := by
  have hmem := List.mem_of_mem_head? h
  obtain ⟨⟨id, row⟩, hrow, rfl⟩ := List.mem_map.mp hmem
  obtain ⟨hget, hcond⟩ := Table.mem_select.mp hrow
  simp only [Bool.and_eq_true, beq_iff_eq, decide_eq_true_eq] at hcond
  exact ⟨⟨id, hget⟩, hcond.1.1, hcond.1.2, hcond.2⟩

/-- What was sealed opens, and passes its digest. -/
theorem openExport_of_sealed {a : PrivacyExportArtifact} (h : SealedFor env a) :
    ∃ data, About a.userId data ∧ GDPRControl.openExport cipher a.userId a.requestId (some a) =
      .ok ⟨a.requestId, cipher.document data, a.expiresAt⟩ := by
  obtain ⟨data, habout, heq⟩ := h
  obtain ⟨hcontent, hdigest⟩ := Prod.mk.inj heq
  refine ⟨data, habout, ?_⟩
  simp only [GDPRControl.openExport]
  rw [hcontent, cipher.opens, hdigest]
  exact if_pos (cipher.digests _ _ _)

/-- A download ends before it has an artifact, or as `openExport` does. -/
theorem downloadExport_cases (claims : AccessClaims) (request : Uuid) (earlier d : Db)
    (now : Time) :
    (∃ e, e ≠ PrivacyError.exportIntegrityFailed ∧
      GDPRControl.downloadExport cipher claims request earlier d now = .error e) ∨
    GDPRControl.downloadExport cipher claims request earlier d now =
      GDPRControl.openExport cipher claims.userId request
        (getExportArtifact claims.userId request now d) := by
  unfold GDPRControl.downloadExport GDPRControl.getRequest
  split
  · exact Or.inl ⟨_, by decide, rfl⟩
  · cases getPrivacyRequest claims.userId request earlier with
    | none => exact Or.inl ⟨_, by decide, rfl⟩
    | some found =>
        dsimp only
        split
        · exact Or.inl ⟨_, by decide, rfl⟩
        · exact Or.inr rfl

/-- Over every interleaving a download never fails its integrity check, and what it hands out is
the document of what an export has collected about the user who downloads, in time. -/
theorem download_sound {c : Core Db World} (hinit : c.db.artifacts = ∅)
    {s : Config schema World AuthError Result} (hreach : (exportService env).Reachable c s)
    (claims : AccessClaims) (request : Uuid) (earlier : Db) (now : Time) :
    GDPRControl.downloadExport cipher claims request earlier s.core.db now ≠
        .error .exportIntegrityFailed ∧
      ∀ download, GDPRControl.downloadExport cipher claims request earlier s.core.db now =
        .ok download → download.requestId = request ∧ now < download.expiresAt ∧
          ∃ data, About claims.userId data ∧ download.content = cipher.document data := by
  rcases downloadExport_cases cipher claims request earlier s.core.db now with
    ⟨e, he, heq⟩ | heq
  · rw [heq]
    exact ⟨fun h => he (Except.error.inj h), fun _ h => by cases h⟩
  · rw [heq]
    cases hget : getExportArtifact claims.userId request now s.core.db with
    | none => exact ⟨fun h => absurd (Except.error.inj h) (by decide), fun _ h => by cases h⟩
    | some a =>
        obtain ⟨⟨id, ha⟩, rfl, huser, htime⟩ := artifact_of_get hget
        obtain ⟨data, habout, hopens⟩ :=
          openExport_of_sealed cipher (artifacts_sealed hinit hreach id a ha)
        rw [← huser, hopens]
        refine ⟨fun h => (by cases h), fun download h => ?_⟩
        cases h
        exact ⟨rfl, htime, data, habout, rfl⟩

end Download

/-- A cipher for `sampleEnv`. -/
def sampleCipher : ExportCipher sampleEnv where
  document _ := "document"
  decrypt content _ _ := if content = "sealed" then some "document" else none
  contentDigest content := if content = "document" then "digest" else "other"
  opens _ _ _ := rfl
  digests _ _ _ := rfl

/-- Ann asks for an export, which ends. -/
def exportMoves : List (Move (exportService sampleEnv)) :=
  .call 0 (.requestExport (strongClaims (.given 1)) "key") ::
    List.replicate 18 (.step 0 0)

/-- What Ann downloads in a state. -/
def exportOutcome (s : Config schema World AuthError Result) : Option String :=
  (GDPRControl.downloadExport sampleCipher (strongClaims (.given 1)) (.drawn 0 0) s.core.db
    s.core.db 0).toOption.map (·.content)

theorem download_sound_of_ann : ∃ s, exportOutcome s = some "document" ∧
    ∀ download, GDPRControl.downloadExport sampleCipher (strongClaims (.given 1)) (.drawn 0 0)
      s.core.db s.core.db 0 = .ok download → download.requestId = .drawn 0 0 ∧
        0 < download.expiresAt ∧ ∃ data, About (.given 1) data ∧
          download.content = sampleCipher.document data := by
  have hrun : ((exportService sampleEnv).run (Service.start sampleCore) exportMoves).map
      exportOutcome = some (some "document") := by decide
  obtain ⟨s, hreach, houtcome⟩ := Service.reachable_of_run hrun
  exact ⟨s, houtcome, (download_sound sampleCipher rfl hreach (strongClaims (.given 1))
    (.drawn 0 0) s.core.db 0).2⟩

end AuthCore
