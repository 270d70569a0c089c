/-
Privacy requests under one idempotency key.  The lookup and the insertion of a
request are two statements, so of two calls that both find nothing the later
one meets the unique index and fails.  A call that meets no such row answers
with the one request of the key, which is fulfilled at most once.
-/
import AuthCore.Accounts.Rehashes
import AuthCore.Erasure.Exports
import AuthCore.Interleave.Unhindered

namespace AuthCore

open Interleave Relational PrivacyRepository

/-- The two kinds of privacy requests. -/
inductive RequestType where
  | «export»
  | erasure
deriving DecidableEq, Repr

/-- The unique index over user, type and key. -/
def RequestType.index : RequestType → Uuid → Digest → IndexKey
  | .export => .export
  | .erasure => .request

def RequestType.call : RequestType → AccessClaims → String → Call
  | .export => .requestExport
  | .erasure => .requestErasure

/-- The request that an event creates, with its index entry. -/
def Event.createdRequest : Event → Option (IndexKey × Uuid)
  | .account (.exportCreated id user keyHash _ (_, true)) => some (.export user keyHash, id)
  | .account (.requestCreated id user keyHash (some _, true)) => some (.request user keyHash, id)
  | _ => none

/-- The event fulfils this request. -/
def Event.fulfilsRequest (id : Uuid) : Event → Bool
  | .account (.exportCompleted args _) => args.requestId == id
  | .account (.erased args (.erased _ _) _) => args.requestId == id
  | _ => false

theorem Event.fulfils_of_request {id : Uuid} {e : Event} (h : e.fulfilsRequest id = true) :
    e.fulfils = true := by
  unfold Event.fulfilsRequest at h
  split at h
  · rfl
  · rfl
  · cases h

/-- What the requests of a user under one key hash are, and whether an
identifier names a request. -/
def requestPart (user : Uuid) (keyHash : Digest) (id : Uuid) (d : Db) :
    List Uuid × List Uuid × Bool × Bool :=
  (IndexKey.entries d (.export user keyHash), IndexKey.entries d (.request user keyHash),
    (d.exports.get id).isSome, (d.requests.get id).isSome)

section Events

variable {user : Uuid} {keyHash : Digest} {id : Uuid} {m : Core Db World} {e : Event}

theorem isSome_update {K V : Type} [DecidableEq K] (p : K → V → Bool) (g : V → V)
    (t : Table K V) (k : K) : ((t.update p g).get k).isSome = (t.get k).isSome := by
  rw [Table.get_update, Option.isSome_map]

theorem keeps_setExport (k : Uuid) (g : ExportRequest → ExportRequest)
    (huser : ∀ r, (g r).userId = r.userId)
    (hkey : ∀ r, (g r).idempotencyKeyHash = r.idempotencyKeyHash) (d : Db) :
    Tx.Keeps (requestPart user keyHash id) d ((DbChange.setExport k g huser hkey).apply d) := by
  have hindex : IndexKey.entries ((DbChange.setExport k g huser hkey).apply d)
      (.export user keyHash) = IndexKey.entries d (.export user keyHash) :=
    (DbChange.setExport k g huser hkey).confined (.index (.export user keyHash))
      (by simp [DbChange.setExport]) d
  have hnamed : (((DbChange.setExport k g huser hkey).apply d).exports.get id).isSome =
      (d.exports.get id).isSome := isSome_update _ g d.exports id
  exact Prod.ext hindex (Prod.ext rfl (Prod.ext hnamed rfl))

theorem keeps_setRequest (k : Uuid) (g : GDPRRequest → GDPRRequest)
    (huser : ∀ r, (g r).userId = r.userId)
    (hkey : ∀ r, (g r).idempotencyKeyHash = r.idempotencyKeyHash) (d : Db) :
    Tx.Keeps (requestPart user keyHash id) d ((DbChange.setRequest k g huser hkey).apply d) := by
  have hindex : IndexKey.entries ((DbChange.setRequest k g huser hkey).apply d)
      (.request user keyHash) = IndexKey.entries d (.request user keyHash) :=
    (DbChange.setRequest k g huser hkey).confined (.index (.request user keyHash))
      (by simp [DbChange.setRequest]) d
  have hnamed : (((DbChange.setRequest k g huser hkey).apply d).requests.get id).isSome =
      (d.requests.get id).isSome := isSome_update _ g d.requests id
  exact Prod.ext rfl (Prod.ext hindex (Prod.ext rfl hnamed))

theorem erasing_requestPart (owner : Uuid) :
    Erasing (Tx.Keeps (requestPart user keyHash id)) owner where
  artifacts _ _ := rfl
  «export» d k huser hkey := keeps_setExport k _ huser hkey d
  contactChange _ _ := rfl
  mailed _ _ _ _ := rfl
  factor _ _ _ := rfl
  device _ _ _ _ := rfl
  staff _ := rfl
  binding _ _ _ _ := rfl
  identity _ _ _ _ := rfl
  family _ _ _ := rfl
  referrals _ := rfl
  referred _ _ := rfl
  invitation _ _ _ := rfl
  organization _ _ _ := rfl
  user _ _ _ _ := rfl
  request d k g huser hkey := keeps_setRequest k g huser hkey d
  audit _ _ := rfl

theorem keeps_account {event : AccountEvent}
    (hcreates : (Event.account event).createdRequest = none) :
    ∀ commit, event.commit = some commit →
      commit.body.Guarantees (Tx.Keeps (requestPart user keyHash id)) := by
  intro commit hcommit
  cases event with
  | suspended target actor result =>
      cases hcommit
      refine (guarantees_lockRow _ _).bind fun row => ?_
      split
      · trivial
      · split
        · trivial
        · exact ⟨fun _ => rfl, fun _ => rfl, trivial⟩
  | requestCreated k owner hash result =>
      obtain ⟨record | _, _ | _⟩ := result <;> cases hcommit
      cases hcreates
  | erased args outcome result =>
      cases outcome with
      | nothing => cases hcommit
      | refused =>
          cases hcommit
          exact ⟨fun d => keeps_setRequest _ _ _ _ d, trivial⟩
      | erased email found =>
          cases hcommit
          exact guarantees_eraseWrites (erasing_requestPart _) _ _
  | requestFailed k owner code =>
      cases hcommit
      refine (guarantees_lockRow _ _).bind fun row => ?_
      split
      · trivial
      · split
        · exact ⟨fun d => keeps_setRequest _ _ _ _ d, trivial⟩
        · trivial
  | exportCreated k owner hash expiresAt result =>
      obtain ⟨record, _ | _⟩ := result <;> cases hcommit
      cases hcreates
  | exportCompleted args record =>
      cases hcommit
      refine (guarantees_lockRow _ _).bind fun row => ?_
      split
      · trivial
      · split
        · refine (guarantees_reserve _ _ _).bind fun _ => ?_
          exact ⟨fun _ => rfl, fun d => keeps_setExport _ _ _ _ d, fun _ => rfl, trivial⟩
        · trivial
  | exportFailed k owner code =>
      cases hcommit
      refine (guarantees_lockRow _ _).bind fun row => ?_
      split
      · trivial
      · split
        · exact ⟨fun d => keeps_setExport _ _ _ _ d, trivial⟩
        · trivial
  | _ => cases hcommit

/-- An event that creates no request leaves all of this as it is. -/
theorem requestPart_change (hcreates : e.createdRequest = none) (d : Db) :
    requestPart user keyHash id (e.change d) = requestPart user keyHash id d := by
  have haside : Aside (requestPart user keyHash id) :=
    ⟨fun _ => rfl, fun _ => rfl, fun _ => rfl, fun _ => rfl, fun _ => rfl, fun _ _ => rfl⟩
  refine haside.change d ?_ ?_
  · rintro event rfl
    exact Event.keeps_change (e := .account event) (keeps_account hcreates) d
  · rintro event rfl
    exact Event.keeps_part (e := .recovery event) (fun commit hcommit => event.keeps hcommit)
      (fun _ => rfl) d

theorem entries_of_requestPart {d d' : Db}
    (h : requestPart user keyHash id d' = requestPart user keyHash id d) (type : RequestType) :
    IndexKey.entries d' (type.index user keyHash) =
      IndexKey.entries d (type.index user keyHash) := by
  cases type with
  | «export» => exact congrArg (·.1) h
  | erasure => exact congrArg (·.2.1) h

/-- No row of `d` has this identifier. -/
def Unnamed (id : Uuid) (d : Db) : Prop :=
  (d.exports.get id).isSome = false ∧ (d.requests.get id).isSome = false

theorem unnamed_of_requestPart {d d' : Db}
    (h : requestPart user keyHash id d' = requestPart user keyHash id d) (hd : Unnamed id d) :
    Unnamed id d' :=
  ⟨(congrArg (·.2.2.1) h).trans hd.1, (congrArg (·.2.2.2) h).trans hd.2⟩

/-- What the creation of request `id` under `key` does. -/
structure Created (key : IndexKey) (id : Uuid) (d d' : Db) : Prop where
  free : key.entries d = []
  entries : ∀ (type : RequestType) user keyHash,
    IndexKey.entries d' (type.index user keyHash) = IndexKey.entries d (type.index user keyHash) ∨
      type.index user keyHash = key ∧ IndexKey.entries d' (type.index user keyHash) = [id]
  added : Unnamed id d → key.entries d' = [id]
  unnamed : ∀ k, k ≠ id → Unnamed k d → Unnamed k d'

theorem isSome_add {K V : Type} [DecidableEq K] {k k' : K} (hne : k' ≠ k) (v : V)
    (t : Table K V) : ((t.add k v).get k').isSome = (t.get k').isSome := by
  rw [Table.get_add, if_neg hne, Option.or_none]

theorem created_export {owner : Uuid} {hash : Digest} {expiresAt : Time}
    {record : PrivacyRequestRecord}
    (h : (Event.account (.exportCreated id owner hash expiresAt (record, true))).Agrees m) :
    Created (.export owner hash) id m.db
      ((Event.account (.exportCreated id owner hash expiresAt (record, true))).change m.db) := by
  obtain ⟨change, halone, hchange⟩ := h.commits rfl
  rw [hchange]
  obtain ⟨_, _, hreserve, hinsert⟩ := Tx.alone_bind_eq_ok halone
  obtain ⟨hempty, hreserved⟩ := entries_of_reserve hreserve
  cases hreserved
  cases hinsert
  have hfree : m.db.exports.keysOf (·.userId) (·.idempotencyKeyHash) owner hash = [] := hempty
  refine ⟨hempty, fun type u kh => ?_, fun hnew => ?_, fun k hk hunnamed => ?_⟩
  · cases type with
    | erasure => exact Or.inl rfl
    | «export» =>
        rcases Table.keysOf_add (v := newExport owner hash expiresAt) hfree u kh with
          hsame | ⟨⟨rfl, rfl⟩, hone⟩
        · exact Or.inl hsame
        · exact Or.inr ⟨rfl, hone⟩
  · exact Table.keysOf_add_new (v := newExport owner hash expiresAt) hfree (by simpa using hnew.1)
  · exact ⟨(isSome_add hk _ _).trans hunnamed.1, hunnamed.2⟩

theorem created_request {owner : Uuid} {hash : Digest} {record : PrivacyRequestRecord}
    (h : (Event.account (.requestCreated id owner hash (some record, true))).Agrees m) :
    Created (.request owner hash) id m.db
      ((Event.account (.requestCreated id owner hash (some record, true))).change m.db) := by
  obtain ⟨change, halone, hchange⟩ := h.commits rfl
  rw [hchange]
  obtain ⟨_, _, hreserve, hinsert⟩ := Tx.alone_bind_eq_ok halone
  obtain ⟨hempty, hreserved⟩ := entries_of_reserve hreserve
  cases hreserved
  cases hinsert
  have hfree : m.db.requests.keysOf (·.userId) (·.idempotencyKeyHash) owner hash = [] := hempty
  refine ⟨hempty, fun type u kh => ?_, fun hnew => ?_, fun k hk hunnamed => ?_⟩
  · cases type with
    | «export» => exact Or.inl rfl
    | erasure =>
        rcases Table.keysOf_add (v := newRequest owner hash) hfree u kh with
          hsame | ⟨⟨rfl, rfl⟩, hone⟩
        · exact Or.inl hsame
        · exact Or.inr ⟨rfl, hone⟩
  · exact Table.keysOf_add_new (v := newRequest owner hash) hfree (by simpa using hnew.2)
  · exact ⟨hunnamed.1, (isSome_add hk _ _).trans hunnamed.2⟩

theorem created_of_creates {key : IndexKey} (hcreates : e.createdRequest = some (key, id))
    (h : e.Agrees m) : Created key id m.db (e.change m.db) := by
  unfold Event.createdRequest at hcreates
  split at hcreates
  · cases hcreates
    exact created_export h
  · cases hcreates
    exact created_request h
  · cases hcreates

variable {env : Env} {i : Nat} {t : List Event}

theorem drawn_of_creates {key : IndexKey} (hcreates : e.createdRequest = some (key, id))
    (h : e.Follows env i t) : id = .drawn i 0 := by
  unfold Event.createdRequest at hcreates
  split at hcreates
  · cases hcreates
    exact h
  · cases hcreates
    exact h
  · cases hcreates

theorem fulfils_of_follows (hfulfils : e.fulfilsRequest id = true) (h : e.Follows env i t) :
    Fulfils i id t := by
  unfold Event.fulfilsRequest at hfulfils
  split at hfulfils
  · obtain rfl := by simpa using hfulfils
    exact h
  · obtain rfl := by simpa using hfulfils
    exact h.2
  · cases hfulfils

end Events

section Runs

variable {env : Env} {c m : Core Db World}

/-- Identifiers that calls draw are new. -/
structure Undrawn (d : Db) : Prop where
  exports : ∀ i n, d.exports.get (.drawn i n) = none
  requests : ∀ i n, d.requests.get (.drawn i n) = none

/-- Call `i` has created no request. -/
def Blank (i : Nat) (log : List (Nat × Event)) : Prop :=
  ∀ e ∈ trace i log, e.createdRequest = none

theorem unnamed_of_blank (hnew : Undrawn c.db) (h : History env c m) {i : Nat}
    (hblank : Blank i m.store.log) : Unnamed (.drawn i 0) m.db := by
  refine Ledger.Leads.preserves
    (P := fun m => ∀ i, Blank i m.store.log → Unnamed (.drawn i 0) m.db) h ?_ ?_ ?_ i hblank
  · intro i _
    simp [Unnamed, hnew.exports i 0, hnew.requests i 0]
  · rintro m j e _ hm _ ⟨hfollows, hagrees⟩ i hblank
    change Blank i (e.apply j m).store.log at hblank
    rw [Event.log_apply] at hblank
    have hold : Blank i m.store.log := by
      intro e' he'
      refine hblank e' ?_
      rw [mem_trace_iff] at he' ⊢
      exact List.mem_cons_of_mem _ he'
    cases hcreates : e.createdRequest with
    | none =>
        -- the index entries do not matter here
        have hsame := @requestPart_change (.given 0) 0 (.drawn i 0) e hcreates m.db
        exact unnamed_of_requestPart hsame (hm i hold)
    | some created =>
        refine (created_of_creates hcreates hagrees).unnamed _ ?_ (hm i hold)
        have hdrawn := drawn_of_creates hcreates hfollows
        rintro heq
        rw [hdrawn] at heq
        cases heq
        have hnone := hblank e (mem_trace_iff.mpr List.mem_cons_self)
        rw [hnone] at hcreates
        cases hcreates
  · exact fun m n _ hm => hm

/-- No two requests share a key. -/
theorem length_entries (h : History env c m) (type : RequestType) (user : Uuid) (keyHash : Digest)
    (hstart : (IndexKey.entries c.db (type.index user keyHash)).length ≤ 1) :
    (IndexKey.entries m.db (type.index user keyHash)).length ≤ 1 := by
  refine Ledger.Leads.preserves
    (P := fun m => (IndexKey.entries m.db (type.index user keyHash)).length ≤ 1) h hstart ?_ ?_
  · rintro m j e _ hm _ ⟨_, hagrees⟩
    change (IndexKey.entries (e.change m.db) _).length ≤ 1
    cases hcreates : e.createdRequest with
    | none =>
        have hsame := @requestPart_change user keyHash (.given 0) e hcreates m.db
        rw [entries_of_requestPart hsame type]
        exact hm
    | some created =>
        rcases (created_of_creates hcreates hagrees).entries type user keyHash with
          hsame | ⟨_, hone⟩
        · rw [hsame]
          exact hm
        · rw [hone]
          exact le_rfl
  · exact fun m n _ hm => hm

/-- The request of a key stays the request of the key. -/
theorem entries_last {who : Nat → Prop} {m' : Core Db World} (h : (ledger env).Leads who m m')
    {type : RequestType} {user id : Uuid} {keyHash : Digest}
    (hm : IndexKey.entries m.db (type.index user keyHash) = [id]) :
    IndexKey.entries m'.db (type.index user keyHash) = [id] := by
  refine Ledger.Leads.preserves
    (P := fun m => IndexKey.entries m.db (type.index user keyHash) = [id]) h hm ?_ ?_
  · rintro m j e _ hm _ ⟨_, hagrees⟩
    change IndexKey.entries (e.change m.db) _ = [id]
    cases hcreates : e.createdRequest with
    | none =>
        have hsame := @requestPart_change user keyHash id e hcreates m.db
        rw [entries_of_requestPart hsame type, hm]
    | some created =>
        have hcreated := created_of_creates hcreates hagrees
        rcases hcreated.entries type user keyHash with hsame | ⟨hkey, _⟩
        · rw [hsame, hm]
        · rw [hkey, hcreated.free] at hm
          cases hm
  · exact fun m n _ hm => hm

/-- A request is fulfilled by the call that drew it, and once. -/
theorem fulfilled_once (hinit : Initial c) (h : History env c m) (id : Uuid) :
    (m.store.log.filter fun entry => entry.2.fulfilsRequest id).length ≤ 1 := by
  refine (Ledger.Leads.preserves (P := fun m =>
    (∀ i e, (i, e) ∈ m.store.log → e.fulfilsRequest id = true → id = .drawn i 0) ∧
      (m.store.log.filter fun entry => entry.2.fulfilsRequest id).length ≤ 1) h ?_ ?_ ?_).2
  · rw [hinit.log]
    exact ⟨by simp, by simp⟩
  · rintro m i e _ ⟨hdrawn, hone⟩ _ ⟨hfollows, _⟩
    change (∀ j e', (j, e') ∈ (e.apply i m).store.log → _) ∧
      ((e.apply i m).store.log.filter _).length ≤ 1
    rw [Event.log_apply]
    constructor
    · intro j e' hmem hfulfils
      rcases List.mem_cons.mp hmem with heq | hold
      · cases heq
        exact (fulfils_of_follows hfulfils hfollows).1
      · exact hdrawn j e' hold hfulfils
    · by_cases hfulfils : e.fulfilsRequest id = true
      · obtain ⟨hmine, hfirst⟩ := fulfils_of_follows hfulfils hfollows
        have hempty : m.store.log.filter (fun entry => entry.2.fulfilsRequest id) = [] := by
          rw [List.filter_eq_nil_iff]
          rintro ⟨j, e'⟩ hmem hold
          obtain rfl : i = j := by
            have htwice := hmine.symm.trans (hdrawn j e' hmem hold)
            cases htwice
            rfl
          have hnot := hfirst e' (mem_trace_iff.mpr hmem)
          rw [Event.fulfils_of_request hold] at hnot
          cases hnot
        rw [List.filter_cons_of_pos (by exact hfulfils), hempty]
        exact le_rfl
      · rw [List.filter_cons_of_neg (by exact hfulfils)]
        exact hone
  · exact fun m n _ hm => hm

/-- The database after a creation that call `i` has just committed. -/
theorem entries_created (hinit : Initial c) (hnew : Undrawn c.db) {d : Db} {w : World} {i : Nat}
    {e : Event} (h : History env c ⟨d, w.record i e⟩) {key : IndexKey} {id : Uuid}
    (hcreates : e.createdRequest = some (key, id)) (hblank : Blank i w.log) :
    key.entries d = [id] := by
  obtain ⟨m, hm, hlog, hfollows, hagrees, _⟩ :=
    h.around hinit.log (show (w.record i e).log = [] ++ (i, e) :: w.log from rfl)
  have hdb : d = e.change m.db := by
    rw [hm.db_eq hinit.log, hlog]
    exact h.db_eq hinit.log
  rw [← hlog] at hblank
  rw [hdb]
  refine (created_of_creates hcreates hagrees).added ?_
  rw [drawn_of_creates hcreates hfollows]
  exact unnamed_of_blank hnew hm hblank

end Runs

section Calls

open GDPRControl

/-- What such a call may answer: the request of the key, or a documented error. -/
def Replies (type : RequestType) (user : Uuid) (keyHash : Digest) (d : Db)
    (result : Except AuthError Result) : Prop :=
  type = .erasure ∧ result = .error ownershipTransferRequired ∨
    ∃ id, IndexKey.entries d (type.index user keyHash) = [id] ∧
      ((∃ request : PrivacyRequestRecord,
          result = .ok (.request request) ∧ request.requestId = id) ∨
        ∃ code message status, result = .error (.privacy code message status))

/-- Call `i` is over and has answered so. -/
def Replied (type : RequestType) (user : Uuid) (keyHash : Digest) (i : Nat)
    (c : Core Db World) : Prop :=
  ∃ result rest, trace i c.store.log = .returned result :: rest ∧
    Replies type user keyHash c.db result

/-- A call that locks this index entry finds it free. -/
def FreeIndex (key : IndexKey) (row : Row) (d : Db) : Prop :=
  row = .index key → key.entries d = []

variable {env : Env} {start c : Core Db World} {i : Nat} {type : RequestType} {user : Uuid}
  {keyHash : Digest}

theorem Replies.last {who : Nat → Prop} {m m' : Core Db World} {result : Except AuthError Result}
    (h : Replies type user keyHash m.db result) (hleads : (ledger env).Leads who m m') :
    Replies type user keyHash m'.db result := by
  rcases h with hrefused | ⟨id, hentries, hanswer⟩
  · exact Or.inl hrefused
  · exact Or.inr ⟨id, entries_last hleads hentries, hanswer⟩

theorem replied_stable (i : Nat) :
    ((ledger env).protocol start).Stable i (Replied type user keyHash i) := by
  rintro m m' hlater ⟨result, rest, htrace, hreplies⟩
  exact ⟨result, rest, (Ledger.trace_later hlater).trans htrace, hreplies.last hlater.1⟩

theorem answers_of_replies {result : Except AuthError Result}
    (h : Replies type user keyHash c.db result) :
    ((ledger env).protocol start).Answers (application env) (Replied type user keyHash) i
      result c := by
  intro c' hlater _
  have hlast : Replies type user keyHash c'.db result := h.last hlater.1
  exact ⟨result, trace i c'.store.log, trace_cons_self i _ _, hlast⟩

theorem lasting_entries (type : RequestType) (user : Uuid) (keyHash : Digest) (id : Uuid) :
    ((ledger env).protocol start).Lasting fun m =>
      IndexKey.entries m.db (type.index user keyHash) = [id] :=
  fun _ _ _ hlater h => entries_last hlater.1 h

theorem Blank.later {c c' : Core Db World} (h : Blank i c.store.log)
    (hlater : ((ledger env).protocol start).Later i c c') : Blank i c'.store.log := by
  intro e he
  have htrace : trace i c'.store.log = trace i c.store.log := Ledger.trace_later hlater
  rw [htrace] at he
  exact h e he

theorem Blank.record {w : World} {e : Event} (h : Blank i w.log) (he : e.createdRequest = none) :
    Blank i (w.record i e).log := by
  intro e' he'
  change e' ∈ trace i ((i, e) :: w.log) at he'
  rw [trace_cons_self] at he'
  rcases List.mem_cons.mp he' with rfl | hold
  · exact he
  · exact h e' hold

theorem wlp_clock {α : Type} {free : Row → Db → Prop} {Q : α → Core Db World → Prop}
    {E : AuthError → Core Db World → Prop} {k : Time → Proc α}
    (h : ∀ c', ((ledger env).protocol start).Later i c c' →
      ((ledger env).protocol start).wlp free i Q E (k c'.store.now)
        ⟨c'.db, c'.store.record i (.clock c'.store.now)⟩) :
    ((ledger env).protocol start).wlp free i Q E (clock >>= k) c := by
  intro c' hlater answer hanswer _
  rw [List.mem_singleton] at hanswer
  subst hanswer
  exact h c' hlater

theorem wlpTx_ask {β γ : Type} {free : Row → Db → Prop} {note : Nat → γ → World → World}
    {handled : Prop} {K : Except (Fault AuthError) γ → Core Db World → Prop} {query : Db → β}
    {event : β → Event} {rest : β → Trans γ}
    (h : ∀ c', ((ledger env).protocol start).Later i c c' →
      ((ledger env).protocol start).wlpTx free i note handled K id (rest (query c'.db))
        ⟨c'.db, c'.store.record i (event (query c'.db))⟩) :
    ((ledger env).protocol start).wlpTx free i note handled K id (ask query event >>= rest) c :=
  fun c' hlater _ => h c' hlater

/-- The only row that a lookup can find is the first. -/
theorem entries_of_head {K V : Type} {rows : List (K × V)} (hone : (rows.map Prod.fst).length ≤ 1)
    {row : K × V} (hhead : rows.head? = some row) : rows.map Prod.fst = [row.1] := by
  cases rows with
  | nil => cases hhead
  | cons first rest =>
      cases hhead
      cases rest with
      | nil => rfl
      | cons second rest => simp at hone

/-- An insertion that finds its index entry free. -/
theorem wlpTx_reserve {β : Type} {key : IndexKey} {note : Nat → β → World → World}
    {handled : Prop} {K : Except (Fault AuthError) β → Core Db World → Prop} {pending : Db → Db}
    {rest : Trans β} (hhandled : ¬handled)
    (hrest : ∀ c', ((ledger env).protocol start).Later i c c' →
      ((ledger env).protocol start).wlpTx (FreeIndex key) i note handled K pending rest c') :
    ((ledger env).protocol start).wlpTx (FreeIndex key) i note handled K pending
      (reserve key [] >>= fun _ => rest) c := by
  refine ⟨fun c' hlater hfree => ?_, fun hh => absurd hh hhandled⟩
  have hempty : key.entries c'.db = [] := hfree rfl
  change ((ledger env).protocol start).wlpTx _ i _ _ _ pending
    ((if (key.entries c'.db).all [].contains then return () else .raise .integrity :
      Trans Unit) >>= fun _ => rest) c'
  rw [hempty]
  exact hrest c' hlater

/-- The guard of an erasure only asks. -/
theorem wlpTx_hasSoleOwnedOrganization {β : Type} {free : Row → Db → Prop}
    {note : Nat → β → World → World} {handled : Prop}
    {K : Except (Fault AuthError) β → Core Db World → Prop} {rest : Bool → Trans β}
    (hblank : Blank i c.store.log)
    (hrest : ∀ sole c', Blank i c'.store.log →
      ((ledger env).protocol start).wlpTx free i note handled K id (rest sole) c') :
    ((ledger env).protocol start).wlpTx free i note handled K id
      (hasSoleOwnedOrganization user >>= rest) c := by
  have hloop : ∀ (owned : List Uuid) (c : Core Db World), Blank i c.store.log →
      ((ledger env).protocol start).wlpTx free i note handled K id
        (anyWithoutOthers user owned >>= rest) c := by
    intro owned
    induction owned with
    | nil => exact fun c hblank => hrest false c hblank
    | cons org orgs ih =>
        intro c hblank
        unfold anyWithoutOthers
        rw [Tx.bind_assoc]
        refine wlpTx_ask fun c' hlater => ?_
        have hblank' := (hblank.later hlater).record
          (e := .account (.otherOwners user org (otherOwners user org c'.db))) rfl
        split
        · exact hrest true _ hblank'
        · exact ih _ hblank'
  intro c' hlater _
  exact hloop _ _ ((hblank.later hlater).record
    (e := .account (.ownedOrganizations user (ownedOrganizations user c'.db))) rfl)

section Create

variable (hinit : Initial start) (hnew : Undrawn start.db)
include hinit hnew

theorem wlp_getOrCreateExport
    (hone : (IndexKey.entries start.db (.export user keyHash)).length ≤ 1)
    (hblank : Blank i c.store.log) (expiresAt : Time) :
    ((ledger env).protocol start).wlp (FreeIndex (.export user keyHash)) i
      (fun result c' => IndexKey.entries c'.db (.export user keyHash) = [result.1.requestId])
      (fun _ _ => False) (getOrCreateExport (.drawn i 0) user keyHash expiresAt) c := by
  unfold getOrCreateExport
  refine wlpTx_ask fun c₁ h₁ => ?_
  cases hfound : existingExport user keyHash c₁.db with
  | some found =>
      obtain ⟨other, row⟩ := found
      intro c₂ h₂ _
      have hentries : IndexKey.entries c₁.db (RequestType.export.index user keyHash) = [other] :=
        entries_of_head (length_entries h₁.2 .export user keyHash hone) hfound
      exact entries_last h₂.1 hentries
  | none =>
      have hblank₁ := (hblank.later h₁).record
        (e := .account (.existingExport user keyHash none)) rfl
      dsimp only
      rw [insertExport, Tx.bind_assoc]
      refine wlpTx_reserve ?_ fun c₂ h₂ => ?_
      · exact fun hnot => hnot trivial
      refine ⟨⟨fun c₃ h₃ hallows => ?_, fun hnot => (hnot trivial).elim⟩,
        fun hnot => (hnot trivial).elim⟩
      exact entries_created hinit hnew hallows.1 rfl ((hblank₁.later h₂).later h₃)

theorem wlp_getOrCreateErasure
    (hone : (IndexKey.entries start.db (.request user keyHash)).length ≤ 1)
    (hblank : Blank i c.store.log) :
    ((ledger env).protocol start).wlp (FreeIndex (.request user keyHash)) i
      (fun result c' => ∀ record, result.1 = some record →
        IndexKey.entries c'.db (.request user keyHash) = [record.requestId])
      (fun _ _ => False) (getOrCreateErasure (.drawn i 0) user keyHash) c := by
  unfold getOrCreateErasure
  refine wlpTx_ask fun c₁ h₁ => ?_
  cases hfound : existingRequest user keyHash c₁.db with
  | some found =>
      obtain ⟨other, row⟩ := found
      have hentries : IndexKey.entries c₁.db (RequestType.erasure.index user keyHash) = [other] :=
        entries_of_head (length_entries h₁.2 .erasure user keyHash hone) hfound
      rintro c₂ h₂ _ record heq
      cases heq
      exact entries_last h₂.1 hentries
  | none =>
      have hblank₁ := (hblank.later h₁).record
        (e := .account (.existingRequest user keyHash none)) rfl
      refine wlpTx_hasSoleOwnedOrganization hblank₁ fun sole c₂ hblank₂ => ?_
      cases sole with
      | true =>
          rintro c₃ _ _ record heq
          cases heq
      | false =>
          rw [if_neg (by decide), insertRequest, Tx.bind_assoc]
          refine wlpTx_reserve ?_ fun c₃ h₃ => ?_
          · exact fun hnot => hnot trivial
          refine ⟨⟨?_, fun hnot => (hnot trivial).elim⟩, fun hnot => (hnot trivial).elim⟩
          rintro c₄ h₄ hallows record heq
          cases heq
          exact entries_created hinit hnew hallows.1 rfl ((hblank₂.later h₃).later h₄)

end Create

/-- A documented error of the privacy service. -/
def Documented (e : AuthError) : Prop :=
  ∃ code message status, e = .privacy code message status

section Steady

theorem steady_transact {β : Type} {event : β → Event} {body : Trans β} {A : β → Prop}
    {E : AuthError → Prop} (hbody : body.Results (fun _ => False) A) :
    (transact event body).Steady A E :=
  ⟨hbody.mono (fun _ h => h.elim) fun _ h => h, fun hnot => (hnot trivial).elim⟩

theorem results_lockRow (F : Fault AuthError → Prop) (row : Row) :
    (lockRow row).Results F fun _ => True :=
  fun _ => trivial

theorem results_revokeMatches (args : RevokeAllArgs) (found : List SessionMatch) :
    (SessionRepository.revokeMatches args found).Results (fun _ => False) fun _ => True := by
  refine (Tx.results_collect (fun pair => ?_) found).bind fun rows _ => ?_
  · refine (results_lockRow _ _).bind fun family _ => (results_lockRow _ _).bind fun session _ => ?_
    split
    · split <;> trivial
    · trivial
  · refine Tx.Results.bind (Tx.results_each (fun row => ?_) rows) fun _ _ => trivial
    trivial

theorem steady_revokeUserAccess (user : Uuid) (reason : String) :
    (SessionControl.revokeUserAccess user reason).Steady (fun _ => True) Documented := by
  refine Prog.Steady.bind (A := fun _ => True) (fun _ => trivial) fun now _ => ?_
  refine Prog.Steady.bind (A := fun _ => True) ?_ fun results _ => ?_
  · refine ⟨fun found => ?_, fun hnot => (hnot trivial).elim⟩
    exact ((results_revokeMatches ⟨user, reason, now⟩ found).mono (fun _ h => h.elim)
      fun _ h => h).bind fun _ _ => trivial
  · refine Prog.Steady.bind (A := fun _ => True) (fun _ => trivial) fun _ _ => ?_
    refine (Prog.steady_each (fun value => ?_) results).bind fun _ _ => trivial
    exact fun _ _ => trivial

theorem results_failRequest (id user : Uuid) (code : String) :
    (failRequest id user code).Results (fun _ => False) fun _ => True := by
  refine (results_lockRow _ _).bind fun row _ => ?_
  split
  · trivial
  · split <;> trivial

theorem results_failExportRequest (id user : Uuid) (code : String) :
    (failExportRequest id user code).Results (fun _ => False) fun _ => True := by
  refine (results_lockRow _ _).bind fun row _ => ?_
  split
  · trivial
  · split <;> trivial

theorem steady_abandonExport {A : Result → Prop} (request user : Uuid) :
    (abandonExport request user).Steady A Documented :=
  (steady_transact (results_failExportRequest _ _ _)).bind fun _ _ => ⟨_, _, _, rfl⟩

theorem results_storeExport (args : CompleteArgs) :
    (storeExport args).Results (fun _ => True) fun record => record.requestId = args.requestId := by
  refine (results_lockRow _ _).bind fun row _ => ?_
  split
  · trivial
  · split
    · exact (Tx.results_true _).bind fun _ _ => rfl
    · trivial

theorem steady_executeErasure {E : AuthError → Prop} (args : ErasureArgs) :
    (executeErasure args).Steady (fun outcome => ∀ record, outcome = .ok (some record) →
      record.requestId = args.requestId) E := by
  refine ⟨?_, fun _ _ heq => by cases heq⟩
  have hnone : ∀ record : PrivacyRequestRecord,
      (Except.ok none : Except (Fault AuthError) (Option PrivacyRequestRecord)) =
        .ok (some record) → record.requestId = args.requestId := by
    intro record heq
    cases heq
  have hfault : ∀ (fault : Fault AuthError) (record : PrivacyRequestRecord),
      (Except.error fault : Except (Fault AuthError) (Option PrivacyRequestRecord)) =
        .ok (some record) → record.requestId = args.requestId := by
    intro fault record heq
    cases heq
  refine (results_lockRow _ _).bind fun request _ => (results_lockRow _ _).bind fun view _ => ?_
  split
  · split
    · exact hnone
    · split
      · rintro record heq
        cases heq
        rfl
      · refine ((Tx.results_true _).mono (fun fault _ => hfault fault) fun _ h => h).bind
          fun sole _ => ?_
        split
        · exact hnone
        · refine ((Tx.results_true _).mono (fun fault _ => hfault fault) fun _ h => h).bind
            fun found _ => ?_
          rintro record heq
          cases heq
          rfl
  · exact hnone

end Steady

theorem wlpCall_requestExport (hinit : Initial start) (hnew : Undrawn start.db)
    {claims : AccessClaims} {key : String}
    (hone : (IndexKey.entries start.db (.export claims.userId (env.keyHash key))).length ≤ 1)
    (hblank : Blank i c.store.log) (hmfa : SupportAdminControl.recentMfa claims = true) :
    ((ledger env).protocol start).wlpCall (application env)
      (FreeIndex (.export claims.userId (env.keyHash key)))
      (Replied .export claims.userId (env.keyHash key)) i (requestExport env i claims key) c := by
  unfold requestExport
  rw [if_neg (by simp [hmfa])]
  refine wlp_clock fun c₁ h₁ => ?_
  have hblank₁ := (hblank.later h₁).record (e := .clock c₁.store.now) rfl
  refine Protocol.wlp_bind (Protocol.wlp_mono ?_ (fun _ _ h => False.elim h)
    (wlp_getOrCreateExport hinit hnew hone hblank₁ _))
  rintro ⟨request, created⟩ c₂ hentries
  cases created with
  | false => exact answers_of_replies (Or.inr ⟨_, hentries, Or.inl ⟨request, rfl, rfl⟩⟩)
  | true =>
      refine Protocol.wlp_mono ?_ ?_ (Protocol.wlp_of_steady
        (lasting_entries .export claims.userId (env.keyHash key) request.requestId)
        (A := fun answer => ∃ record : PrivacyRequestRecord,
          answer = .request record ∧ record.requestId = request.requestId)
        (E := Documented) ?_ hentries)
      · rintro result c₃ ⟨⟨record, rfl, hid⟩, hlast⟩
        exact answers_of_replies (Or.inr ⟨_, hlast, Or.inl ⟨record, rfl, hid⟩⟩)
      · rintro error c₃ ⟨⟨code, message, status, rfl⟩, hlast⟩
        exact answers_of_replies (Or.inr ⟨_, hlast, Or.inr ⟨code, message, status, rfl⟩⟩)
      · intro collectedAt data
        cases data with
        | none => exact steady_abandonExport _ _
        | some data =>
            refine fun completedAt => ⟨?_, fun _ => steady_abandonExport _ _⟩
            exact (results_storeExport _).mono (fun _ _ => steady_abandonExport _ _)
              fun record hid => ⟨record, rfl, hid⟩

theorem wlpCall_requestErasure (hinit : Initial start) (hnew : Undrawn start.db)
    {claims : AccessClaims} {key : String}
    (hone : (IndexKey.entries start.db (.request claims.userId (env.keyHash key))).length ≤ 1)
    (hblank : Blank i c.store.log) (hmfa : SupportAdminControl.recentMfa claims = true) :
    ((ledger env).protocol start).wlpCall (application env)
      (FreeIndex (.request claims.userId (env.keyHash key)))
      (Replied .erasure claims.userId (env.keyHash key)) i (requestErasure env i claims key) c := by
  unfold requestErasure
  rw [if_neg (by simp [hmfa])]
  refine Protocol.wlp_bind (Protocol.wlp_mono ?_ (fun _ _ h => False.elim h)
    (wlp_getOrCreateErasure hinit hnew hone hblank))
  rintro ⟨request, created⟩ c₁ hfound
  cases request with
  | none => exact answers_of_replies (Or.inl ⟨rfl, rfl⟩)
  | some request =>
      have hentries := hfound request rfl
      cases created with
      | false => exact answers_of_replies (Or.inr ⟨_, hentries, Or.inl ⟨request, rfl, rfl⟩⟩)
      | true =>
          refine Protocol.wlp_mono ?_ ?_ (Protocol.wlp_of_steady
            (lasting_entries .erasure claims.userId (env.keyHash key) request.requestId)
            (A := fun answer => ∃ record : PrivacyRequestRecord,
              answer = .request record ∧ record.requestId = request.requestId)
            (E := Documented) ?_ hentries)
          · rintro result c₂ ⟨⟨record, rfl, hid⟩, hlast⟩
            exact answers_of_replies (Or.inr ⟨_, hlast, Or.inl ⟨record, rfl, hid⟩⟩)
          · rintro error c₂ ⟨⟨code, message, status, rfl⟩, hlast⟩
            exact answers_of_replies (Or.inr ⟨_, hlast, Or.inr ⟨code, message, status, rfl⟩⟩)
          · refine (steady_revokeUserAccess _ _).bind fun _ _ => ?_
            refine Prog.Steady.bind (A := fun _ => True) (fun _ => trivial) fun now _ => ?_
            refine (steady_executeErasure _).bind fun outcome hid => ?_
            cases outcome with
            | error fault =>
                exact (steady_transact (results_failRequest _ _ _)).bind
                  fun _ _ => ⟨_, _, _, rfl⟩
            | ok result =>
                cases result with
                | none => exact ⟨_, _, _, rfl⟩
                | some record => exact ⟨record, rfl, hid record rfl⟩

end Calls

section Runs

variable {env : Env} {c : Core Db World} {type : RequestType} {user : Uuid} {keyHash : Digest}

/-- The call asks for the request of this key after a recent check. -/
def Asks (env : Env) (type : RequestType) (user : Uuid) (keyHash : Digest) (call : Call) : Prop :=
  ∃ claims key, call = type.call claims key ∧ claims.userId = user ∧ env.keyHash key = keyHash ∧
    SupportAdminControl.recentMfa claims = true

/-- No call that asks for the request finds its key taken when it inserts, and
none is aborted where it does not handle it. -/
def Unobstructed (env : Env) (type : RequestType) (user : Uuid) (keyHash : Digest) :
    Config schema World AuthError Result → Move (application env) → Prop :=
  Unhindered (FreeIndex (type.index user keyHash)) fun i m =>
    ∃ call, (i, .called call) ∈ m.store.log ∧ Asks env type user keyHash call

theorem wlpCall_of_asks (hinit : Initial c) (hnew : Undrawn c.db)
    (hone : (IndexKey.entries c.db (type.index user keyHash)).length ≤ 1) {i : Nat} {call : Call}
    (hasks : Asks env type user keyHash call) {m : Core Db World} (hblank : Blank i m.store.log) :
    ((ledger env).protocol c).wlpCall (application env) (FreeIndex (type.index user keyHash))
      (Replied type user keyHash) i ((application env).prog i call) m := by
  obtain ⟨claims, key, rfl, rfl, rfl, hmfa⟩ := hasks
  cases type with
  | «export» => exact wlpCall_requestExport hinit hnew hone hblank hmfa
  | erasure => exact wlpCall_requestErasure hinit hnew hone hblank hmfa

/-- In an unobstructed run every call that asks for the request answers with the
one row of its key, and the request is fulfilled at most once. -/
theorem privacy_requests (hinit : Initial c) (hnew : Undrawn c.db)
    (hone : (IndexKey.entries c.db (type.index user keyHash)).length ≤ 1)
    {s : Config schema World AuthError Result}
    (h : (application env).ReachableBy (Unobstructed env type user keyHash) c s) :
    (IndexKey.entries s.core.db (type.index user keyHash)).length ≤ 1 ∧
      (∀ i call, (i, .called call) ∈ s.core.store.log → Asks env type user keyHash call →
        s.threads i = some .returned → Replied type user keyHash i s.core) ∧
      ∀ id ∈ IndexKey.entries s.core.db (type.index user keyHash),
        (s.core.store.log.filter fun entry => entry.2.fulfilsRequest id).length ≤ 1 := by
  have hhistory := history_of_reachable hinit.log h.reachable
  have hlead := Protocol.allLead_of_reachableBy (P := (ledger env).protocol c)
    (S := application env) (F := Replied type user keyHash)
    (W := fun _ call => Asks env type user keyHash call) (application_kept env c)
    Ledger.Leads.refl ?idle (fun i => replied_stable i) ?made ?lasts ?prog h
  case idle =>
    intro i
    change trace i c.store.log = []
    rw [hinit.log]
    rfl
  case made => exact fun i call m _ _ => List.mem_cons_self
  case lasts =>
    exact fun i call j m m' hlater hmem => (Ledger.Leads.log_suffix hlater.1).subset hmem
  case prog =>
    intro i call m hasks _ hidle _
    refine wlpCall_of_asks hinit hnew hone hasks fun e he => ?_
    change e ∈ trace i ((i, .called call) :: m.store.log) at he
    have htrace : trace i m.store.log = [] := hidle
    rw [trace_cons_self, htrace, List.mem_singleton] at he
    rw [he]
    rfl
  refine ⟨length_entries hhistory type user keyHash hone, fun i call hcalled hasks hreturned => ?_,
    fun id _ => fulfilled_once hinit hhistory id⟩
  obtain ⟨call', hcalled', hreplied⟩ := hlead i .returned hreturned
  rw [called_unique hinit hhistory hcalled' hcalled] at hreplied
  exact hreplied hasks

end Runs

section Samples

/-- Whether a move of the sample meets the condition; none of its calls is aborted. -/
def unobstructed (type : RequestType) (user : Uuid) (keyHash : Digest)
    (s : Config schema World AuthError Result) : SampleMove → Bool
  | .step i _ =>
      match s.threads i with
      | some (.inTx _ _ (.lock row _) _) => decide (row = .index (type.index user keyHash) →
          IndexKey.entries s.core.db (type.index user keyHash) = [])
      | _ => true
  | .abort _ => false
  | _ => true

theorem unobstructed_of_check {type : RequestType} {user : Uuid} {keyHash : Digest}
    {s : Config schema World AuthError Result} {m : SampleMove}
    (h : unobstructed type user keyHash s m = true) :
    Unobstructed sampleEnv type user keyHash s m := by
  cases m with
  | call i call => trivial
  | tick n => trivial
  | abort i => cases h
  | step i choice =>
      intro _ β note pending row body k hthread hrow
      simp only [unobstructed, hthread] at h
      exact of_decide_eq_true h hrow

/-- Ann asks for an export twice, the second time after the first has ended. -/
def retriedExport : List SampleMove :=
  perform 0 (.requestExport (strongClaims (.given 1)) "key") 18 ++
    perform 1 (.requestExport (strongClaims (.given 1)) "key") 5

/-- Both calls look for a request before either inserts one. -/
def racedExport : List SampleMove :=
  perform 0 (.requestExport (strongClaims (.given 1)) "key") 3 ++
    perform 1 (.requestExport (strongClaims (.given 1)) "key") 18 ++ steps 0 3

theorem undrawn_sampleCore : Undrawn sampleCore.db :=
  ⟨fun _ _ => rfl, fun _ _ => rfl⟩

theorem asks_sample : Asks sampleEnv .export (.given 1) (sampleEnv.keyHash "key")
    (.requestExport (strongClaims (.given 1)) "key") :=
  ⟨_, _, rfl, rfl, rfl, by decide⟩

/-- The call that inserts second ends with an error that nobody documents. -/
theorem raced_request_fails :
    Initial sampleCore ∧ Undrawn sampleCore.db ∧
      ∃ s, (application sampleEnv).Reachable sampleCore s ∧ s.Quiescent ∧
        ∃ i call, (i, .called call) ∈ s.core.store.log ∧
          Asks sampleEnv .export (.given 1) (sampleEnv.keyHash "key") call ∧
          ¬Replied .export (.given 1) (sampleEnv.keyHash "key") i s.core := by
  have hanswer : (trace 0 (reached racedExport).core.store.log).head? =
      some (.returned (.error .unhandled)) := rfl
  refine ⟨sampleCore_initial, undrawn_sampleCore, reached racedExport,
    reachable_reached _ (by decide +kernel), quiescent_reached (by decide +kernel), 0,
    .requestExport (strongClaims (.given 1)) "key", List.mem_of_getElem? (i := 12) rfl,
    asks_sample, ?_⟩
  rintro ⟨result, rest, htrace, hreplies⟩
  rw [htrace, List.head?_cons] at hanswer
  cases hanswer
  rcases hreplies with ⟨htype, _⟩ | ⟨id, _, ⟨_, hok, _⟩ | ⟨_, _, _, herror⟩⟩
  · cases htype
  · cases hok
  · cases herror

theorem privacy_requests_of_retry :
    let s := reached retriedExport
    (IndexKey.entries s.core.db
        (RequestType.export.index (.given 1) (sampleEnv.keyHash "key"))).length ≤ 1 ∧
      (∀ i call, (i, .called call) ∈ s.core.store.log →
        Asks sampleEnv .export (.given 1) (sampleEnv.keyHash "key") call →
        s.threads i = some .returned →
          Replied .export (.given 1) (sampleEnv.keyHash "key") i s.core) ∧
      ∀ id ∈ IndexKey.entries s.core.db
          (RequestType.export.index (.given 1) (sampleEnv.keyHash "key")),
        (s.core.store.log.filter fun entry => entry.2.fulfilsRequest id).length ≤ 1 := by
  obtain ⟨s, hs⟩ := Option.isSome_iff_exists.mp (show ((application sampleEnv).run
    (Service.start sampleCore) retriedExport).isSome = true by decide +kernel)
  have hreached : reached retriedExport = s := by simp [reached, hs]
  rw [hreached]
  have hreach : (application sampleEnv).ReachableBy
      (Unobstructed sampleEnv .export (.given 1) (sampleEnv.keyHash "key")) sampleCore s :=
    Service.reachableBy_of_runBy (fun _ _ => unobstructed_of_check) .start (by decide +kernel) hs
  exact privacy_requests sampleCore_initial undrawn_sampleCore (by decide) hreach

end Samples

end AuthCore
