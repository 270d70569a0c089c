/-
Every family is at rest in every reachable state.  An event does one of three
things to the tables, and identifiers are drawn by the call that inserts them,
so an insertion never meets a row of another call.
-/
import AuthCore.Model.Sample
import AuthCore.Sessions.Commits

namespace AuthCore

open Interleave Relational SessionRepository

/-- What an event does to the three tables. -/
inductive Effect (T : SessionTables) : Event → SessionTables → Prop
  | upkeep {e : Event} {T' : SessionTables} :
      Relation.ReflTransGen SessionTables.Upkeep T T' → Effect T e T'
  | created {args : CreateArgs} {found : List SessionMatch} {result : CreatedSession}
      {T' : SessionTables} :
      Relation.ReflTransGen SessionTables.Upkeep T T' →
      (∀ k t, T.tokens.get k = some t → t.tokenHash ≠ args.refreshTokenHash) →
      Effect T (.session (.created args found result)) (T'.create args)
  | rotated {args : RotateArgs} {found : TokenMatch} {result : RotationResult}
      {token : RefreshToken} {row : Locked} :
      Presented args T found token row →
      SessionTables.Rotatable T found.tokenId token row.family →
      (∀ k t, T.tokens.get k = some t → t.tokenHash ≠ args.replacementHash) →
      Effect T (.session (.rotated args (some found) result))
        ((T.renew args found.tokenId token row.family).scope row.sessionId none
          args.newAccessJti args.now)

/-- An event that commits changes the database as its transaction would alone. -/
theorem Event.Agrees.commits {c : Core Db World} {e : Event} {commit : Commit} (h : e.Agrees c)
    (hcommit : e.commit = some commit) :
    ∃ change, commit.body.alone c.db id = .ok (commit.answer, change) ∧
      e.change c.db = change c.db := by
  obtain ⟨change, halone⟩ := h.valid commit hcommit
  refine ⟨change, halone, ?_⟩
  unfold Event.change
  rw [hcommit]
  exact Tx.commit_of_alone halone

/-- What an event leaves in the three tables. -/
inductive Tables (d : Db) : Event → SessionTables → Prop
  | same {e : Event} : Tables d e d.sessionTables
  | created {args : CreateArgs} {found : List SessionMatch} {result : CreatedSession} :
      (∀ k t, d.tokens.get k = some t → t.tokenHash ≠ args.refreshTokenHash) →
      result.record = record args.sessionId (newSession args) →
      Tables d (.session (.created args found result))
        (((overflow args found d).foldl (fun T row => evicted args.now row T)
          d.sessionTables).create args)
  | rotated {args : RotateArgs} {found : Option TokenMatch} {result : RotationResult}
      {T' : SessionTables} :
      Rotation args d.sessionTables found result T' →
      Tables d (.session (.rotated args found result)) T'
  | revoked {args : RevokeArgs} {found : Option SessionMatch} {row : Locked} :
      Stored row d.sessionTables → row.session.userId = args.userId →
      Tables d (.session (.revoked args found (some (revocation row))))
        (revokedRow args.now args.reason row d.sessionTables)
  | revokedAll {args : RevokeAllArgs} {found : List SessionMatch} :
      Tables d (.session (.revokedAll args found ((revocable args found d).map revocation)))
        ((revocable args found d).foldl
          (fun T row => revokedRow args.now args.reason row T) d.sessionTables)
  | scoped {args : ScopeArgs} {found : Option SessionMatch} {row : Locked} :
      Stored row d.sessionTables → scopable args row.session row.family = true →
      found.map (·.sessionId) = some row.sessionId →
      Tables d (.session (.scoped args found (some row.session.accessJti)))
        (d.sessionTables.scope row.sessionId (some args.workspaceId) args.accessJti args.now)
  | offboarded {args : MemberArgs} {departure : Departure} {result : OffboardResult} :
      result.revokedAccessJtis =
        (departure.sessions.filterMap (scopedRow args d)).map Prod.snd →
      Tables d (.workspace (.offboarded args (some departure) (some result)))
        (unscoped args departure.sessions d d.sessionTables)
  | erased {args : ErasureArgs} {email : Option String} {found : ErasureFound}
      {result : Option PrivacyRequestRecord} :
      Tables d (.account (.erased args (.erased email found) result))
        (found.families.foldl
          (fun T f => if erasable args.userId d f then T.delete f else T) d.sessionTables)

theorem Tables.of_eq {d : Db} {e : Event} {T' : SessionTables} (h : T' = d.sessionTables) :
    Tables d e T' :=
  h ▸ .same

theorem Tables.of_keeps {d : Db} {e : Event} {π : Db → Db}
    (h : ∀ commit, e.commit = some commit → commit.body.Guarantees (Tx.Keeps π))
    (hπ : ∀ d, (π d).sessionTables = d.sessionTables) :
    Tables d e (e.change d).sessionTables := by
  refine .of_eq ?_
  have hsame := congrArg Db.sessionTables (Event.keeps_change h d)
  rwa [hπ, hπ] at hsame

theorem tables_session {c : Core Db World} {event : SessionEvent}
    (h : (Event.session event).Agrees c) :
    Tables c.db (.session event) ((Event.session event).change c.db).sessionTables := by
  cases event with
  | created args found result =>
      obtain ⟨change, halone, hchange⟩ := h.commits rfl
      obtain ⟨hfree, hrecord, htables⟩ := alone_insertSession halone
      rw [hchange, htables]
      exact .created hfree hrecord
  | rotated args found result =>
      obtain ⟨change, halone, hchange⟩ := h.commits rfl
      rw [hchange]
      exact .rotated (rotation_of_rotateMatch halone)
  | revoked args found result =>
      obtain ⟨change, halone, hchange⟩ := h.commits rfl
      rw [hchange]
      rcases alone_revokeMatch halone with ⟨_, htables⟩ | ⟨row, hstored, huser, hresult, htables⟩
      · exact .of_eq htables
      · dsimp only at hresult
        subst hresult
        rw [htables]
        exact .revoked hstored huser
  | revokedAll args found results =>
      obtain ⟨change, halone, hchange⟩ := h.commits rfl
      obtain ⟨hresults, htables⟩ := alone_revokeMatches halone
      dsimp only at hresults
      subst hresults
      rw [hchange, htables]
      exact .revokedAll
  | «scoped» args found result =>
      obtain ⟨change, halone, hchange⟩ := h.commits rfl
      rw [hchange]
      rcases alone_scopeMatch halone with
        ⟨_, htables⟩ | ⟨row, hstored, hscopable, hfound, hresult, htables⟩
      · exact .of_eq htables
      · dsimp only at hresult
        subst hresult
        rw [htables]
        exact .scoped hstored hscopable hfound
  | _ => exact .same

theorem tables_change {c : Core Db World} {e : Event} (h : e.Agrees c) :
    Tables c.db e (e.change c.db).sessionTables := by
  cases e with
  | session event => exact tables_session h
  | workspace event =>
      by_cases hstays : ∀ args departure result, event ≠ .offboarded args departure result
      · exact .of_keeps (fun commit hcommit => event.keeps hcommit hstays) fun _ => rfl
      · simp only [not_forall, ne_eq, not_not] at hstays
        obtain ⟨args, departure, result, rfl⟩ := hstays
        cases departure with
        | none => exact .same
        | some departure =>
            cases result with
            | none => exact .same
            | some result =>
                obtain ⟨change, halone, hchange⟩ := h.commits rfl
                obtain ⟨hjtis, htables⟩ := alone_offboardWrites halone
                rw [hchange, htables]
                exact .offboarded hjtis
  | account event =>
      by_cases hstays : ∀ args email found result,
          event ≠ .erased args (.erased email found) result
      · exact .of_keeps (fun commit hcommit => event.keeps hcommit hstays) fun _ => rfl
      · simp only [not_forall, ne_eq, not_not] at hstays
        obtain ⟨args, email, found, result, rfl⟩ := hstays
        obtain ⟨change, halone, hchange⟩ := h.commits rfl
        rw [hchange, alone_eraseWrites halone]
        exact .erased
  | login event => exact .of_keeps (fun commit hcommit => event.keeps hcommit) fun _ => rfl
  | mfa event => exact .of_keeps (fun commit hcommit => event.keeps hcommit) fun _ => rfl
  | recovery event => exact .of_keeps (fun commit hcommit => event.keeps hcommit) fun _ => rfl
  | audited entry =>
      refine .of_keeps (π := fun d => { d with audit := [] }) (fun commit hcommit => ?_)
        fun _ => rfl
      cases hcommit
      exact guarantees_write fun _ => rfl
  | _ => exact .same

theorem upkeep_unscoped (args : MemberArgs) (sessions : List Uuid) (d : Db) (T : SessionTables) :
    Relation.ReflTransGen SessionTables.Upkeep T (unscoped args sessions d T) := by
  unfold unscoped
  generalize WorkspaceRepository.renamed args.call (sessions.filterMap (scopedRow args d)) = rows
  induction rows generalizing T with
  | nil => exact .refl
  | cons entry rest ih => exact .head .scope (ih _)

theorem upkeep_erased (user : Uuid) (d : Db) (families : List Uuid) (T : SessionTables) :
    Relation.ReflTransGen SessionTables.Upkeep T
      (families.foldl (fun T f => if erasable user d f then T.delete f else T) T) := by
  induction families generalizing T with
  | nil => exact .refl
  | cons f rest ih =>
      simp only [List.foldl_cons]
      split
      · exact .head .delete (ih _)
      · exact ih _

theorem Rotation.effect {args : RotateArgs} {found : Option TokenMatch} {result : RotationResult}
    {T T' : SessionTables} (h : Rotation args T found result T') :
    Effect T (.session (.rotated args found result)) T' := by
  cases h with
  | unknown => exact .upkeep .refl
  | lost _ => exact .upkeep .refl
  | reused hpresented _ => exact .upkeep (.single (.revoke hpresented.stored.session rfl))
  | revoked _ _ => exact .upkeep .refl
  | ended hpresented _ _ _ => exact .upkeep (.single (.revoke hpresented.stored.session rfl))
  | rotated hpresented hrotatable _ hfree => exact .rotated hpresented hrotatable hfree

theorem effect_change {c : Core Db World} {e : Event} (h : e.Agrees c) :
    Effect c.db.sessionTables e (e.change c.db).sessionTables := by
  have htables := tables_change h
  generalize (e.change c.db).sessionTables = T' at htables ⊢
  cases htables with
  | same => exact .upkeep .refl
  | created hfree _ =>
      refine .created (upkeep_revocations _ fun row hrow => ?_) hfree
      exact anchored_of_locked (List.mem_of_mem_take hrow)
  | rotated hrotation => exact hrotation.effect
  | revoked hstored _ => exact .upkeep (.single (.revoke hstored.session rfl))
  | revokedAll => exact .upkeep (upkeep_revocations _ fun row hrow => anchored_of_locked hrow)
  | «scoped» _ _ _ => exact .upkeep (.single .scope)
  | offboarded _ => exact .upkeep (upkeep_unscoped _ _ _ _)
  | erased => exact .upkeep (upkeep_erased _ _ _ _)

namespace SessionTables

/-- Some row of the three tables has this identifier. -/
def Named (k : Uuid) (T : SessionTables) : Prop :=
  (T.families.get k).isSome ∨ (T.tokens.get k).isSome ∨ (T.sessions.get k).isSome

theorem Named.of_upkeep {T T' : SessionTables} {k : Uuid}
    (hsteps : Relation.ReflTransGen Upkeep T T') (h : T'.Named k) : T.Named k := by
  induction hsteps with
  | refl => exact h
  | tail _ hstep ih =>
      refine ih ?_
      cases hstep with
      | revoke _ _ => simpa [Named, SessionTables.revoke, Table.get_update] using h
      | scope => simpa [Named, SessionTables.scope, Table.get_update] using h
      | delete =>
          simp only [Named, Option.isSome_iff_exists, SessionTables.delete,
            Table.get_delete_eq_some] at h ⊢
          grind

theorem Named.of_create {T : SessionTables} {args : CreateArgs} {k : Uuid}
    (h : (T.create args).Named k) :
    T.Named k ∨ k = args.familyId ∨ k = args.refreshTokenId ∨ k = args.sessionId := by
  simp only [Named, SessionTables.create, Table.get_add] at h ⊢
  grind

theorem Named.of_renew {T : SessionTables} {args : RotateArgs} {j k : Uuid}
    {token : RefreshToken} {family : RefreshTokenFamily}
    (h : (T.renew args j token family).Named k) : T.Named k ∨ k = args.replacementId := by
  simp only [Named, SessionTables.renew, Table.get_add, Table.get_update] at h ⊢
  grind

end SessionTables

/-- The events that insert a row into the three tables. -/
def Event.inserts : Event → Bool
  | session (.created ..) => true
  | session (.rotated ..) => true
  | _ => false

/-- What holds of the three tables in every reachable state. -/
structure SessionInvariant (c : Core Db World) : Prop where
  atRest : c.db.sessionTables.AtRest
  named : ∀ k, c.db.sessionTables.Named k →
    ∃ j n, k = .drawn j n ∧ ∃ e ∈ trace j c.store.log, e.inserts = true

/-- The identifiers of a call that has inserted nothing are new. -/
theorem SessionInvariant.unnamed {c : Core Db World} (h : SessionInvariant c) {i n : Nat}
    (hnone : ∀ e ∈ trace i c.store.log, e.inserts = false) :
    ¬c.db.sessionTables.Named (.drawn i n) := by
  intro hnamed
  obtain ⟨j, m, heq, e, he, hinserts⟩ := h.named _ hnamed
  cases heq
  rw [hnone e he] at hinserts
  cases hinserts

theorem sessionInvariant_initial {c : Core Db World} (h : Initial c) : SessionInvariant c := by
  have hfamilies : ∀ k, c.db.sessionTables.families.get k = none := by
    intro k
    change c.db.families.get k = none
    rw [h.families, Table.get_empty]
  have htokens : ∀ k, c.db.sessionTables.tokens.get k = none := by
    intro k
    change c.db.tokens.get k = none
    rw [h.tokens, Table.get_empty]
  have hsessions : ∀ k, c.db.sessionTables.sessions.get k = none := by
    intro k
    change c.db.sessions.get k = none
    rw [h.sessions, Table.get_empty]
  refine ⟨⟨?_, ?_, ?_, ?_⟩, ?_⟩
  · intro f family hget
    rw [hfamilies] at hget
    cases hget
  · intro k t hget
    rw [htokens] at hget
    cases hget
  · intro k s hget
    rw [hsessions] at hget
    cases hget
  · intro k k' t t' hget
    rw [htokens] at hget
    cases hget
  · intro k hnamed
    simp [SessionTables.Named, hfamilies, htokens, hsessions] at hnamed

theorem Creates.inserts {env : Env} {i : Nat} {t : List Event} {args : CreateArgs}
    {found : List SessionMatch} (h : Creates env i t args found) :
    (∀ e ∈ t, e.inserts = false) ∧ args.familyId = .drawn i 3 ∧ args.sessionId = .drawn i 4 ∧
      args.refreshTokenId = .drawn i 5 ∧ args.refreshExpiresAt ≤ args.familyExpiresAt := by
  cases h with
  | intro hready =>
      refine ⟨?_, rfl, rfl, rfl, Nat.le_refl _⟩
      simp [Event.inserts]

theorem Rotates.inserts {env : Env} {i : Nat} {t : List Event} {args : RotateArgs}
    {found : Option TokenMatch} (h : Rotates env i t args found) :
    (∀ e ∈ t, e.inserts = false) ∧ args.replacementId = .drawn i 2 := by
  cases h with
  | intro =>
      refine ⟨?_, rfl⟩
      simp [Event.inserts]

/-- Whatever an event does, the invariant survives it. -/
theorem SessionInvariant.event {env : Env} {c : Core Db World} {i : Nat} {e : Event}
    (h : SessionInvariant c) (henabled : (ledger env).enabled i c e) :
    SessionInvariant ((ledger env).apply i e c) := by
  obtain ⟨hfollows, hagrees⟩ := henabled
  have hlog : ((ledger env).apply i e c).store.log = (i, e) :: c.store.log :=
    (ledger env).log_apply i e c
  have hgrows : ∀ j, ∀ e' ∈ trace j c.store.log, e' ∈
      trace j ((ledger env).apply i e c).store.log := by
    intro j e' he'
    rw [hlog, mem_trace_iff]
    exact List.mem_cons_of_mem _ (mem_trace_iff.mp he')
  have hself : e ∈ trace i ((ledger env).apply i e c).store.log := by
    rw [hlog, trace_cons_self]
    exact List.mem_cons_self
  have hstill : ∀ k, c.db.sessionTables.Named k → ∃ j n, k = .drawn j n ∧
      ∃ e' ∈ trace j ((ledger env).apply i e c).store.log, e'.inserts = true := by
    intro k hk
    obtain ⟨j, n, rfl, e', he', hinserts⟩ := h.named k hk
    exact ⟨j, n, rfl, e', hgrows j e' he', hinserts⟩
  have heffect := effect_change hagrees
  change Effect c.db.sessionTables e ((ledger env).apply i e c).db.sessionTables at heffect
  have hresult : ((ledger env).apply i e c).db.sessionTables.AtRest ∧
      ∀ k, ((ledger env).apply i e c).db.sessionTables.Named k →
        c.db.sessionTables.Named k ∨ ∃ n, k = .drawn i n ∧ e.inserts = true := by
    generalize ((ledger env).apply i e c).db.sessionTables = T' at heffect ⊢
    cases heffect with
    | upkeep hsteps =>
        exact ⟨h.atRest.upkeep hsteps, fun k hk => Or.inl (hk.of_upkeep hsteps)⟩
    | created hsteps hfree =>
        obtain ⟨hnone, hfamily, hsession, htoken, hexpiry⟩ := Creates.inserts hfollows
        refine ⟨(h.atRest.upkeep hsteps).create ?_ hexpiry ?_, fun k hk => ?_⟩
        · have hunnamed : ∀ n, ¬_ := fun n hnamed =>
            h.unnamed hnone (n := n) (SessionTables.Named.of_upkeep hsteps hnamed)
          simp only [SessionTables.Named, not_or, Option.not_isSome_iff_eq_none] at hunnamed
          constructor
          · rw [hfamily]
            exact (hunnamed 3).1
          · rw [htoken]
            exact (hunnamed 5).2.1
          · rw [hsession]
            exact (hunnamed 4).2.2
        · intro k t hget
          obtain ⟨t₀, hget₀, _, hhash, _⟩ :=
            (SessionTables.Descends.upkeep k hsteps).token t hget
          rw [hhash]
          exact hfree k t₀ hget₀
        · rcases hk.of_create with hold | rfl | rfl | rfl
          · exact Or.inl (hold.of_upkeep hsteps)
          · exact Or.inr ⟨_, hfamily, rfl⟩
          · exact Or.inr ⟨_, htoken, rfl⟩
          · exact Or.inr ⟨_, hsession, rfl⟩
    | rotated hpresented hrotatable hfree =>
        obtain ⟨hnone, hid⟩ := Rotates.inserts hfollows
        refine ⟨(h.atRest.renew hrotatable ?_ hfree).scope, fun k hk => ?_⟩
        · have hunnamed := h.unnamed (n := 2) hnone
          simp only [SessionTables.Named, not_or, Option.not_isSome_iff_eq_none] at hunnamed
          rw [hid]
          exact hunnamed.2.1
        · rcases (hk.of_upkeep (.single .scope)).of_renew with hold | rfl
          · exact Or.inl hold
          · exact Or.inr ⟨_, hid, rfl⟩
  refine ⟨hresult.1, fun k hk => ?_⟩
  rcases hresult.2 k hk with hold | ⟨n, rfl, hinserts⟩
  · exact hstill k hold
  · exact ⟨i, n, rfl, e, hself, hinserts⟩

theorem sessionInvariant_of_history {env : Env} {c c' : Core Db World} (hinit : Initial c)
    (h : History env c c') : SessionInvariant c' :=
  Ledger.Leads.preserves h (sessionInvariant_initial hinit)
    (fun _ _ _ _ hm _ henabled => hm.event henabled) fun _ _ _ hm => ⟨hm.atRest, hm.named⟩

/-- In every reachable state every family is at rest: its tokens are the
generations `0..n` without gap or repeat, all but the last used and revoked, the
last one unused, and the last token, the family and the session are revoked
together. -/
theorem wellFormed_of_reachable {env : Env} {c : Core Db World} (hinit : Initial c)
    {s : Config schema World AuthError Result} (h : (application env).Reachable c s)
    (f : Uuid) (family : RefreshTokenFamily) (hf : s.core.db.families.get f = some family) :
    ∃ n, s.core.db.sessionTables.WellFormed f family n :=
  (sessionInvariant_of_history hinit (history_of_reachable hinit.log h)).atRest.formed f family hf

theorem sampleCore_initial : Initial sampleCore :=
  ⟨rfl, rfl, rfl, rfl, rfl, rfl, fun _ => rfl, rfl, rfl⟩

theorem wellFormed_after_signIn :
    ∃ s, (application sampleEnv).Reachable sampleCore s ∧
      ∃ family, s.core.db.families.get (.drawn 1 3) = some family ∧
        ∃ n, s.core.db.sessionTables.WellFormed (.drawn 1 3) family n := by
  obtain ⟨s, hreach, hsome⟩ := Service.reachable_of_run
    (show ((application sampleEnv).run (Service.start sampleCore) (signIn 0 "ann")).map
      (fun s => (s.core.db.families.get (.drawn 1 3)).isSome) = some true by decide +kernel)
  obtain ⟨family, hfamily⟩ := Option.isSome_iff_exists.mp hsome
  exact ⟨s, hreach, family, hfamily,
    wellFormed_of_reachable sampleCore_initial hreach _ _ hfamily⟩

end AuthCore
