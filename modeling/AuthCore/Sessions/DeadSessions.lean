/-
Sessions that are over.  Whatever has revoked a session, no call made afterwards
is given anything under it: a token of it is not accepted, and no call signs
another one for it.
-/
import AuthCore.Sessions.Cutoff

namespace AuthCore

open Interleave Relational SessionRepository

variable {env : Env} {c m : Core Db World} {i j : Nat} {k : Uuid} {claims : AccessClaims}
  {between before : List (Nat × Event)}

/-- A run passes through the states that its log has recorded. -/
theorem History.cut (h : History env c m) (hempty : c.store.log = [])
    (hlog : m.store.log = between ++ before) :
    ∃ x, History env c x ∧ x.store.log = before ∧ History env x m := by
  rcases between.eq_nil_or_concat with rfl | ⟨newer, ⟨i, e⟩, rfl⟩
  · exact ⟨m, h, hlog, .refl⟩
  · obtain ⟨x, hx, hxlog, hfollows, hagrees, hrest⟩ := h.around hempty
      (show m.store.log = newer ++ (i, e) :: before by rw [hlog]; simp)
    refine ⟨x, hx, hxlog, History.trans (.event .refl ?_ hagrees) hrest⟩
    rw [hxlog]
    exact hfollows

/-- A session that is revoked stays revoked for as long as it is stored. -/
theorem revoked_since (hinit : Initial c) (h : History env c m)
    (hlog : m.store.log = between ++ before) {row s : Session}
    (hrow : (replay c.db before).sessions.get k = some row) (hrevoked : row.revokedAt.isSome)
    (hget : m.db.sessions.get k = some s) : s.revokedAt.isSome := by
  obtain ⟨x, hx, rfl, hrest⟩ := h.cut hinit.log hlog
  rw [← hx.db_eq hinit.log] at hrow
  have hknown : Known k x.store.log := by
    refine known_of_named hinit hx (Or.inr (Or.inr ?_))
    change (x.db.sessions.get k).isSome
    rw [hrow]
    rfl
  obtain ⟨old, hold, _, _, _, _, hstays⟩ := (descends_of_history hrest hknown).session s hget
  obtain rfl : row = old := Option.some.inj (hrow.symm.trans hold)
  exact hstays hrevoked

/-- The commit behind a signed token leaves its session unrevoked. -/
theorem unrevoked_of_signs (hinit : Initial c) (h : History env c m)
    (hsigns : Signs i (trace i m.store.log) claims) :
    ∃ (x : Core Db World) (e : Event) (s : Session), History env c x ∧
      History env (e.apply i x) m ∧ e.Follows env i (trace i x.store.log) ∧
      e.Agrees x ∧ trace i x.store.log ≠ [] ∧
      (e.change x.db).sessions.get claims.sessionId = some s ∧ s.revokedAt = none := by
  generalize htrace : trace i m.store.log = t at hsigns
  cases hsigns with
  | @created token workflow args found result now t htaken _ =>
      obtain ⟨x, hx, rfl, hfollows, hagrees, hrest⟩ :=
        h.recorded hinit.log (show _ = [] ++ _ from htrace)
      obtain ⟨change, halone, hchange⟩ := hagrees.commits rfl
      have hrecord := (alone_insertSession halone).2.1
      have hstored := stored_created (sessionInvariant_of_history hinit hx) hfollows hagrees
      rw [hrecord]
      exact ⟨x, _, _, hx, hrest, hfollows, hagrees, List.ne_nil_of_mem htaken, hstored, rfl⟩
  | @rotated args found result record t hstatus hrecord =>
      obtain ⟨x, hx, rfl, hfollows, hagrees, hrest⟩ := h.recorded hinit.log htrace
      obtain ⟨change, halone, hchange⟩ := hagrees.commits rfl
      have hrotation := rotation_of_rotateMatch halone
      obtain ⟨_, hclock⟩ := Rotates.unstamped hfollows
      suffices hrow : ∃ s, (change x.db).sessionTables.sessions.get record.sessionId = some s ∧
          s.revokedAt = none by
        obtain ⟨s, hs, hnone⟩ := hrow
        refine ⟨x, _, s, hx, hrest, hfollows, hagrees, List.ne_nil_of_mem hclock, ?_, hnone⟩
        rw [hchange]
        exact hs
      generalize (change x.db).sessionTables = T' at hrotation ⊢
      dsimp only at hrotation
      cases hrotation with
      | unknown => cases hstatus
      | lost _ => cases hstatus
      | reused _ _ => cases hstatus
      | revoked _ _ => cases hstatus
      | ended _ _ hother _ => exact absurd hstatus hother
      | rotated hpresented hrotatable hlive hfree =>
          obtain rfl := Option.some.inj hrecord
          exact ⟨_, session_scope hpresented.stored.session _ _ _, hlive⟩
  | @«scoped» base workspace args found previous t hscopes =>
      obtain ⟨x, hx, rfl, hfollows, hagrees, hrest⟩ :=
        h.recorded hinit.log (show _ = [_] ++ _ from htrace)
      generalize ht : trace i x.store.log = t at hscopes
      cases hscopes with
      | @intro id access auth now found hpassed haccessed =>
          obtain ⟨change, halone, hchange⟩ := hagrees.commits rfl
          rcases alone_scopeMatch halone with
            ⟨hnone, _⟩ | ⟨row, hstored, hscopable, hfound, _, htables⟩
          · cases hnone
          · obtain ⟨y, _, _, _, hasked, _⟩ := hx.recorded hinit.log (show _ = [] ++ _ from ht)
            have hsession := found_of_scopeFound hasked.tells hfound
            simp only [scopable, live, Bool.and_eq_true, Option.isNone_iff_eq_none] at hscopable
            have hget := hstored.session
            rw [hsession] at hget
            have hpost : ∃ s, (change x.db).sessionTables.sessions.get base.sessionId = some s ∧
                s.revokedAt = none := by
              rw [htables, hsession]
              exact ⟨_, session_scope hget _ _ _, hscopable.2.1.1.1⟩
            obtain ⟨s, hs, hnone⟩ := hpost
            refine ⟨x, _, s, hx, hrest, hfollows, hagrees, by rw [ht]; simp, ?_, hnone⟩
            rw [hchange]
            exact hs

/-- Once a session is revoked, for whatever reason, no authentication called afterwards accepts a
token of it, and no call made afterwards signs a token for it. -/
theorem dead_session (hinit : Initial c) {s : Config schema World AuthError Result}
    (h : (application env).Reachable c s) {after before : List (Nat × Event)}
    (hlog : s.core.store.log = after ++ before) {row : Session}
    (hrow : (replay c.db before).sessions.get k = some row) (hrevoked : row.revokedAt.isSome) :
    (∀ j claims, (j, .called (.authenticate claims)) ∈ after → claims.sessionId = k →
      (j, .returned (.ok (.claims claims))) ∉ s.core.store.log) ∧
    ∀ j call claims, (j, .called call) ∈ after → (j, .signed claims) ∈ s.core.store.log →
      claims.sessionId ≠ k := by
  have hhistory := history_of_reachable hinit.log h
  refine ⟨?_, ?_⟩
  · intro j claims hcalled hsession hreturned
    obtain ⟨last, first, hsplit⟩ := List.append_of_mem (mem_trace_iff.mpr hreturned)
    obtain ⟨y, hy, hytrace, hreturns, hyagrees, hyrest⟩ := hhistory.recorded hinit.log hsplit
    have hpassed : Passed claims _ first := Returns.claims hreturns claims rfl
    have htoy := History.trans (History.event .refl (by rw [hytrace]; exact hreturns) hyagrees)
      hyrest
    cases hpassed with
    | @intro now revokedAt cutoff hcutoff =>
        obtain ⟨z, hz, hztrace, hzfollows, hzagrees, hzrest⟩ :=
          hy.recorded hinit.log (show _ = [] ++ _ from hytrace)
        have htoz := History.trans (History.event .refl (by rw [hztrace]; exact hzfollows)
          hzagrees) (hzrest.trans htoy)
        obtain ⟨newer, hnewer, _⟩ := made_after hinit hhistory htoz hlog hcalled
          (by rw [hztrace]; simp)
        obtain ⟨x, family, hx, _, hlive⟩ := stored_of_sessionIsActive hzagrees.tells.symm
        rw [hsession] at hx
        have hended := revoked_since hinit hz hnewer hrow hrevoked hx
        simp only [live, Bool.and_eq_true, Option.isNone_iff_eq_none] at hlive
        rw [hlive.1.1.1] at hended
        cases hended
  · rintro j call claims hcalled hsigned rfl
    obtain ⟨last, first, hsplit⟩ := List.append_of_mem hsigned
    obtain ⟨y, hy, rfl, hsigns, hyagrees, hyrest⟩ := hhistory.around hinit.log hsplit
    obtain ⟨x, e, row', hx, hxrest, hfollows, hagrees, hmade, hget, hnone⟩ :=
      unrevoked_of_signs hinit hy hsigns
    have hfromx : History env x s.core := History.trans (.event .refl hfollows hagrees)
      (hxrest.trans (History.trans (.event .refl hsigns hyagrees) hyrest))
    obtain ⟨newer, hnewer, _⟩ := made_after hinit hhistory hfromx hlog hcalled hmade
    have hlogx : (e.apply j x).store.log = ((j, e) :: newer) ++ before := by
      rw [Event.log_apply, hnewer]
      rfl
    have hended := revoked_since hinit (hx.event hfollows hagrees) hlogx hrow hrevoked hget
    rw [hnone] at hended
    cases hended

/-- Ann logs out and tries her token once more. -/
def loggedOutMoves : List SampleMove :=
  signIn 0 "ann" ++ perform 2 (.logout (annToken 1 0)) 15 ++
    perform 3 (.authenticate (annToken 1 0)) 4

theorem dead_session_of_ann :
    (3, .called (.authenticate (annToken 1 0))) ∈ (reached loggedOutMoves).core.store.log ∧
      (3, .returned (.ok (.claims (annToken 1 0)))) ∉ (reached loggedOutMoves).core.store.log := by
  have hover : ((replay sampleCore.db ((reached loggedOutMoves).core.store.log.drop 5)).sessions.get
      (.drawn 1 4)).map (fun row => row.revokedAt.isSome) = some true := by decide +kernel
  obtain ⟨row, hrow, hrevoked⟩ := Option.map_eq_some_iff.mp hover
  have hlog : (reached loggedOutMoves).core.store.log =
      (reached loggedOutMoves).core.store.log.take 5 ++
        (reached loggedOutMoves).core.store.log.drop 5 := rfl
  obtain ⟨hrefused, _⟩ := dead_session sampleCore_initial
    (reachable_reached loggedOutMoves (by decide +kernel)) hlog hrow hrevoked
  exact ⟨List.mem_of_getElem? (i := 4) rfl,
    hrefused 3 _ (List.mem_of_getElem? (i := 4) rfl) rfl⟩

end AuthCore
