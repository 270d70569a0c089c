/-
Suspensions.  A suspended account gets no new session, and the sessions that the suspension finds
are revoked.  A session on its way past the check of the account is not found, and works on.
-/
import AuthCore.Sessions.Cap
import AuthCore.Sessions.Cutoff
import AuthCore.Accounts.Rehashes

namespace AuthCore

open Interleave Relational SessionRepository

/-- Call `y` has found `u` active and is still to insert the session. -/
structure Inserting (u : Uuid) (y : Nat) (log : List (Nat × Event)) : Prop where
  active : (y, .session (.userIsActive u true)) ∈ log
  uninserted : ∀ args found result, (y, .session (.created args found result)) ∉ log
  unreturned : ∀ answer, (y, .returned answer) ∉ log

/-- When call `i` looks for the sessions of `u`, nobody stands between the check of `u` and a new
session, and when it returns, no call is still to answer that has already exchanged a refresh
token of `u` or found its session active. -/
structure NoneUnderWay (u : Uuid) (i : Nat) (after before : List (Nat × Event)) : Prop where
  inserting : ∀ newer found older,
    before = newer ++ (i, .session (.activeSessions u found)) :: older → ∀ y, ¬Inserting u y older
  refreshing : ∀ y args found result record, (y, .session (.rotated args found result)) ∈ before →
    result.record = some record → record.userId = u → ∀ answer, (y, .returned answer) ∉ after
  authenticating : ∀ y claims now, (y, .called (.authenticate claims)) ∈ before →
    claims.userId = u → (y, .session (.sessionIsActive claims.sessionId now true)) ∈ before →
    ∀ answer, (y, .returned answer) ∉ after

/-- An entry of a log stands before another, is it or comes after it. -/
theorem before_or_after {α : Type} {x y : α} {after before rest log : List α}
    (hlog : log = after ++ x :: before) (h : y :: rest <:+ log) :
    y :: rest <:+ before ∨ y = x ∨ x :: before <:+ rest := by
  have hsuffix : x :: before <:+ log := hlog ▸ List.suffix_append _ _
  rcases List.suffix_or_suffix_of_suffix hsuffix h with hin | hin
  · rcases List.suffix_cons_iff.mp hin with heq | hrest
    · exact Or.inr (Or.inl (List.cons.inj heq).1.symm)
    · exact Or.inr (Or.inr hrest)
  · rcases List.suffix_cons_iff.mp hin with heq | hrest
    · exact Or.inr (Or.inl (List.cons.inj heq).1)
    · exact Or.inl hrest

section Suspended

variable {env : Env} {c m : Core Db World} {u actor : Uuid} {i y : Nat}

theorem row_of_suspended (h : (Event.account (.suspended u actor true)).Agrees m) :
    ∃ row, ((Event.account (.suspended u actor true)).change m.db).users.get u = some row ∧
      row.state = .suspended := by
  obtain ⟨change, halone, hchange⟩ := h.commits rfl
  rw [hchange]
  rcases alone_suspend halone with ⟨hnot, _⟩ | ⟨_, row, hrow, _, _, rfl⟩
  · cases hnot
  · have hwritten : ((DbChange.bumpUser u fun _ => .suspended).apply m.db).users.get u =
        some (bumped .suspended row) := get_bumpUser_self hrow
    exact ⟨_, hwritten, rfl⟩

/-- Nobody finds the account active behind its suspension. -/
theorem inactive_since (hinit : Initial c) (h : History env c m)
    {later earlier : List (Nat × Event)}
    (hlog : m.store.log = later ++ (y, .session (.userIsActive u true)) :: earlier)
    (hsuspended : (i, .account (.suspended u actor true)) ∈ earlier) : False := by
  obtain ⟨between, first, rfl⟩ := List.append_of_mem hsuspended
  obtain ⟨x, hx, hxlog, _, hagrees, _⟩ := h.around hinit.log hlog
  obtain ⟨w, hw, hwlog, _, hwagrees, _⟩ := hx.around hinit.log hxlog
  obtain ⟨row, hrow, hstate⟩ := row_of_suspended hwagrees
  have hreplay : (replay c.db ((i, .account (.suspended u actor true)) :: first)).users.get u =
      some row := by
    rw [replay_cons, ← hwlog, ← hw.db_eq hinit.log]
    exact hrow
  obtain ⟨row', hrow', honward, _⟩ := row_of_stretch hinit hx hreplay between [] hxlog
  rw [← hxlog, ← hx.db_eq hinit.log] at hrow'
  have hactive : true = userIsActive u x.db := hagrees.tells
  unfold userIsActive at hactive
  rw [hrow'] at hactive
  simp only [Bool.true_eq, Bool.and_eq_true, beq_iff_eq] at hactive
  rcases honward.suspended hstate with hsame | hgone
  · rw [hsame] at hactive
    cases hactive.1
  · rw [hgone] at hactive
    cases hactive.1

/-- No session of `u` is inserted once its sessions have been looked up. -/
theorem uninserted_since (hinit : Initial c) (h : History env c m)
    {newer older : List (Nat × Event)} {found : List SessionMatch}
    (hlog : m.store.log = newer ++ (i, .session (.activeSessions u found)) :: older)
    (hsuspended : (i, .account (.suspended u actor true)) ∈ older)
    (hnone : ∀ y, ¬Inserting u y older) {args : CreateArgs} {matched : List SessionMatch}
    {result : CreatedSession} (hcreated : (y, .session (.created args matched result)) ∈ newer) :
    args.userId ≠ u := by
  rintro rfl
  obtain ⟨l₁, l₂, rfl⟩ := List.append_of_mem hcreated
  have hsplit : m.store.log = l₁ ++ (y, .session (.created args matched result)) ::
      (l₂ ++ (i, .session (.activeSessions args.userId found)) :: older) := by
    rw [hlog]
    simp
  obtain ⟨x, hx, hxlog, hfollows, _, _⟩ := h.around hinit.log hsplit
  rw [← hxlog] at hfollows
  change Creates env y (trace y x.store.log) args matched at hfollows
  generalize htrace : trace y x.store.log = t at hfollows
  obtain ⟨hactive, hquiet⟩ : .session (.userIsActive args.userId true) ∈ t ∧
      (∀ args found result, .session (.created args found result) ∉ t) ∧
        ∀ answer, .returned answer ∉ t := by
    cases hfollows
    exact ⟨by simp [SessionControl.createArgs], by simp, by simp⟩
  rw [← htrace] at hactive hquiet
  have hmem := mem_trace_iff.mp hactive
  rw [hxlog] at hmem
  have hold : older <:+ x.store.log := by
    rw [hxlog]
    exact ((List.suffix_cons _ _).trans (List.suffix_append _ _))
  rcases List.mem_append.mp hmem with hnew | hrest
  · obtain ⟨p, q, rfl⟩ := List.append_of_mem hnew
    have hafter : x.store.log = p ++ (y, .session (.userIsActive args.userId true)) ::
        (q ++ (i, .session (.activeSessions args.userId found)) :: older) := by
      rw [hxlog]
      simp
    exact inactive_since hinit hx hafter
      (List.mem_append_right _ (List.mem_cons_of_mem _ hsuspended))
  · rcases List.mem_cons.mp hrest with heq | hin
    · cases heq
    · exact hnone y ⟨hin,
        fun args found result hcreated => hquiet.1 args found result
          (mem_trace_iff.mpr (hold.subset hcreated)),
        fun answer hreturned => hquiet.2 answer (mem_trace_iff.mpr (hold.subset hreturned))⟩

/-- Behind the revocation every session of the user has ended. -/
theorem ended_since (hinit : Initial c) (h : History env c m) {args : RevokeAllArgs}
    {found : List SessionMatch} {results : List RevocationResult}
    {later earlier : List (Nat × Event)}
    (hlog : m.store.log = later ++ (i, .session (.revokedAll args found results)) :: earlier)
    (hsuspended : (i, .account (.suspended args.userId actor true)) ∈ earlier)
    (hnone : ∀ newer found older,
      earlier = newer ++ (i, .session (.activeSessions args.userId found)) :: older →
        ∀ y, ¬Inserting args.userId y older)
    {k : Uuid} {s : Session} (hget : m.db.sessions.get k = some s)
    (huser : s.userId = args.userId) : s.revokedAt.isSome := by
  obtain ⟨m₁, hm₁, rfl, hfollows, hagrees, hrest₁⟩ := h.around hinit.log hlog
  have hrevokes : RevokesAll (trace i m₁.store.log) args found := hfollows
  obtain ⟨rest, htrace⟩ : ∃ rest, trace i m₁.store.log =
      [] ++ .session (.activeSessions args.userId found) :: rest := by
    generalize trace i m₁.store.log = t at hrevokes
    cases hrevokes
    exact ⟨_, rfl⟩
  obtain ⟨newer, older, hsplit, hnewer, _⟩ := log_of_trace htrace
  obtain ⟨m₀, hm₀, rfl, hfollows₀, hagrees₀, hrest₀⟩ := hm₁.around hinit.log hsplit
  have hfound : found = candidates (joined (fun _ => unrevoked args.userId) m₀.db) :=
    hagrees₀.tells
  have htom₁ : History env m₀ m₁ := History.trans (.event .refl hfollows₀ hagrees₀) hrest₀
  have htom : History env m₀ m := htom₁.trans
    (History.trans (.event .refl hfollows hagrees) hrest₁)
  -- the suspension stands before the query, for behind it the call has done nothing else
  have hbefore : (i, .account (.suspended args.userId actor true)) ∈ m₀.store.log := by
    rw [hsplit] at hsuspended
    rcases List.mem_append.mp hsuspended with hin | hin
    · rw [← mem_trace_iff, hnewer] at hin
      cases hin
    · rcases List.mem_cons.mp hin with heq | hin
      · cases heq
      · exact hin
  have hbetween : m.store.log = (later ++ (i, .session (.revokedAll args found results)) ::
      (newer ++ [(i, .session (.activeSessions args.userId found))])) ++ m₀.store.log := by
    rw [hlog, hsplit]
    simp
  have hbehind : m.store.log = (later ++ (i, .session (.revokedAll args found results)) :: newer) ++
      (i, .session (.activeSessions args.userId found)) :: m₀.store.log := by
    rw [hlog, hsplit]
    simp
  have hother : ∀ j args' matched result,
      (j, .session (.created args' matched result)) ∈ later ++
        (i, .session (.revokedAll args found results)) ::
          (newer ++ [(i, .session (.activeSessions args.userId found))]) →
      args'.userId ≠ args.userId := by
    intro j args' matched result hcreated
    have hmem : (j, Event.session (.created args' matched result)) ∈
        later ++ (i, .session (.revokedAll args found results)) :: newer := by
      simpa using hcreated
    exact uninserted_since hinit h hbehind hbefore (hnone newer found m₀.store.log hsplit) hmem
  obtain ⟨s₀, hs₀, hsame⟩ := session_before htom hbetween hother hget huser
  have hknown : Known k m₀.store.log := by
    refine known_of_named hinit hm₀ (Or.inr (Or.inr ?_))
    change (m₀.db.sessions.get k).isSome
    rw [hs₀]
    rfl
  have hknown₁ : Known k
      ((Event.session (.revokedAll args found results)).apply i m₁).store.log := by
    refine (hknown.of_suffix (History.log_suffix htom₁)).of_suffix ?_
    rw [Event.log_apply]
    exact List.suffix_cons _ _
  obtain ⟨s₁, hs₁, _, _, _, _, hstays⟩ := (descends_of_history hrest₁ hknown₁).session s hget
  refine hstays (ended_of_revokedAll hinit hm₀ htom₁ hfound hagrees hknown ?_ hs₁)
  intro s' hs'
  rw [hs₀] at hs'
  cases hs'
  exact hsame.2.1.symm.trans huser

/-- A suspension that has returned has revoked what it has found. -/
theorem revocation_of_suspends (hinit : Initial c) (h : History env c m)
    {after before : List (Nat × Event)} {admin : AccessClaims} {value : Result}
    (hlog : m.store.log = after ++ (i, .returned (.ok value)) :: before)
    (hcalled : (i, .called (.suspend admin u)) ∈ before) :
    ∃ actor now found results newer older,
      before = newer ++ (i, .session (.revokedAll ⟨u, "account_suspended", now⟩ found results)) ::
        older ∧
      (i, .account (.suspended u actor true)) ∈ older := by
  obtain ⟨x, hx, rfl, hreturns, _, _⟩ := h.around hinit.log hlog
  have hsuspends : Suspends u (trace i x.store.log) :=
    Returns.suspend hreturns admin u value (mem_trace_iff.mpr hcalled) rfl
  generalize htrace : trace i x.store.log = t at hsuspends
  cases hsuspends with
  | @intro actor now found results rest =>
      obtain ⟨newer, older, hsplit, _, holder⟩ := log_of_trace
        (show trace i x.store.log = (revocations results ++
          [.put (.userRevocation u) (wholeSecond now) userRevocationTtlSeconds]) ++
            .session (.revokedAll ⟨u, "account_suspended", now⟩ found results) ::
            .session (.activeSessions u found) :: .clock now ::
            .account (.suspended u actor true) :: rest by
          rw [htrace]
          simp)
      refine ⟨actor, now, found, results, newer, older, hsplit, mem_trace_iff.mp ?_⟩
      rw [holder]
      simp

/-- Once a suspension has returned every session of the user has ended. -/
theorem ended_of_suspension (hinit : Initial c) (h : History env c m)
    {before : List (Nat × Event)} {admin : AccessClaims} {value : Result}
    (hlog : (i, .returned (.ok value)) :: before <:+ m.store.log)
    (hcalled : (i, .called (.suspend admin u)) ∈ before)
    (hnone : ∀ newer found older,
      before = newer ++ (i, .session (.activeSessions u found)) :: older →
        ∀ y, ¬Inserting u y older)
    {k : Uuid} {s : Session} (hget : m.db.sessions.get k = some s) (huser : s.userId = u) :
    s.revokedAt.isSome := by
  obtain ⟨after, hlog⟩ := hlog
  obtain ⟨actor, now, found, results, newer, older, rfl, hsuspended⟩ :=
    revocation_of_suspends hinit h hlog.symm hcalled
  have hsplit : m.store.log = (after ++ (i, .returned (.ok value)) :: newer) ++
      (i, .session (.revokedAll ⟨u, "account_suspended", now⟩ found results)) :: older := by
    rw [← hlog]
    simp
  refine ended_since hinit h hsplit hsuspended ?_ hget huser
  rintro newer' found' older' rfl
  exact hnone (newer ++ (i, .session (.revokedAll ⟨u, "account_suspended", now⟩ found results)) ::
    newer') found' older' (by simp)

/-- An authentication that answers after the suspension does not accept a token of the user. -/
theorem rejected_of_suspension (hinit : Initial c) (h : History env c m)
    {after before : List (Nat × Event)} {admin : AccessClaims} {value : Result}
    (hlog : m.store.log = after ++ (i, .returned (.ok value)) :: before)
    (hcalled : (i, .called (.suspend admin u)) ∈ before) (hnone : NoneUnderWay u i after before)
    {claims : AccessClaims} (hreturned : (y, .returned (.ok (.claims claims))) ∈ after) :
    claims.userId ≠ u := by
  intro huser
  have hmem : .returned (.ok (.claims claims)) ∈ trace y m.store.log := by
    rw [mem_trace_iff, hlog]
    exact List.mem_append_left _ hreturned
  obtain ⟨last, first, hsplit⟩ := List.append_of_mem hmem
  obtain ⟨x, hx, hxtrace, hreturns, _, hxrest⟩ := h.recorded hinit.log hsplit
  have hpassed : Passed claims _ first := Returns.claims hreturns claims rfl
  cases hpassed with
  | @intro now revokedAt cutoff hcutoff =>
      obtain ⟨z, hz, hztrace, _, hzagrees, hzrest⟩ :=
        hx.recorded hinit.log (show _ = [] ++ _ from hxtrace)
      have hsuffix := (hzrest.log_suffix.trans (List.suffix_cons _ _)).trans
        (Event.log_apply _ _ _ ▸ hxrest.log_suffix)
      rw [Event.log_apply] at hsuffix
      rcases before_or_after hlog hsuffix with hbefore | heq | hafter
      · have hcall : (y, .called (.authenticate claims)) ∈ z.store.log := by
          rw [← mem_trace_iff, hztrace]
          simp
        exact hnone.authenticating y claims now
          (hbefore.subset (List.mem_cons_of_mem _ hcall)) huser
          (hbefore.subset List.mem_cons_self) _ hreturned
      · cases heq
      · -- the session has ended before it is looked at
        obtain ⟨s, family, hs, _, hlive⟩ := stored_of_sessionIsActive hzagrees.tells.symm
        have hissued : claims ∈ z.store.issued := by
          refine hz.issued_of_verified hinit.log (i := y) ?_
          rw [← mem_trace_iff, hztrace]
          simp
        obtain ⟨_, howned⟩ := owned_of_issued hinit hz hissued
        have hended := ended_of_suspension hinit hz hafter hcalled hnone.inserting hs
          ((howned s hs).2.trans huser)
        simp only [live, Bool.and_eq_true, Option.isNone_iff_eq_none] at hlive
        rw [hlive.1.1.1] at hended
        cases hended

/-- A rotation that goes through finds its session unrevoked. -/
theorem session_of_rotated {args : RotateArgs} {found : Option TokenMatch}
    {result : RotationResult} {record : SessionRecord}
    (hagrees : (Event.session (.rotated args found result)).Agrees m)
    (hstatus : result.status = .rotated) (hrecord : result.record = some record) :
    ∃ k s, m.db.sessions.get k = some s ∧ s.userId = record.userId ∧ s.revokedAt = none := by
  obtain ⟨change, halone, _⟩ := hagrees.commits rfl
  have hrotation := rotation_of_rotateMatch halone
  dsimp only at hrotation
  generalize (change m.db).sessionTables = T' at hrotation
  cases hrotation with
  | unknown => cases hstatus
  | lost => cases hstatus
  | reused => cases hstatus
  | revoked => cases hstatus
  | ended _ _ hnot => exact absurd hstatus hnot
  | @rotated found token row hpresented _ hlive _ =>
      cases hrecord
      exact ⟨row.sessionId, row.session, hpresented.stored.session, rfl, hlive⟩

/-- A refresh that answers after the suspension has no pair for the user. -/
theorem unrefreshed_of_suspension (hinit : Initial c) (h : History env c m)
    {after before : List (Nat × Event)} {admin : AccessClaims} {value : Result}
    (hlog : m.store.log = after ++ (i, .returned (.ok value)) :: before)
    (hcalled : (i, .called (.suspend admin u)) ∈ before) (hnone : NoneUnderWay u i after before)
    {token : Token} {client : ClientType} {fingerprint : String} {pair : TokenPair}
    (hrefresh : (y, .called (.refresh token client fingerprint)) ∈ m.store.log)
    (hreturned : (y, .returned (.ok (.pair pair))) ∈ after) :
    pair.accessToken.userId ≠ u := by
  intro huser
  have hmem : .returned (.ok (.pair pair)) ∈ trace y m.store.log := by
    rw [mem_trace_iff, hlog]
    exact List.mem_append_left _ hreturned
  obtain ⟨last, first, hsplit⟩ := List.append_of_mem hmem
  obtain ⟨x, hx, hxtrace, hreturns, _, hxrest⟩ := h.recorded hinit.log hsplit
  have hsigned : .signed pair.accessToken ∈ first := Returns.pair hreturns pair rfl
  obtain ⟨mid, rest, rfl⟩ := List.append_of_mem hsigned
  obtain ⟨z, hz, hztrace, hsigns, _, hzrest⟩ := hx.recorded hinit.log hxtrace
  have hzlog : z.store.log <:+ m.store.log := by
    have hzx := hzrest.log_suffix
    have hxm := hxrest.log_suffix
    rw [Event.log_apply] at hzx hxm
    exact ((List.suffix_cons _ _).trans hzx).trans ((List.suffix_cons _ _).trans hxm)
  have hunique : ∀ call, .called call ∈ rest → call = .refresh token client fingerprint := by
    intro call hcall
    rw [← hztrace, mem_trace_iff] at hcall
    exact called_unique hinit h (hzlog.subset hcall) hrefresh
  change Signs y rest pair.accessToken at hsigns
  generalize hclaims : pair.accessToken = claims at hsigns huser
  cases hsigns with
  | created =>
      obtain ⟨_, _, _, hcreates, _, _⟩ := hz.recorded hinit.log (show _ = [] ++ _ from hztrace)
      change Creates env y _ _ _ at hcreates
      cases hcreates with
      | @intro token' client' fingerprint' ip' =>
          cases hunique (.createSession token' client' fingerprint' ip') (by simp)
  | @rotated args found result record t hstatus hrecord =>
      obtain ⟨w, hw, _, _, hagrees, hwrest⟩ := hz.recorded hinit.log hztrace
      have hsuffix := hwrest.log_suffix.trans hzlog
      rw [Event.log_apply] at hsuffix
      rcases before_or_after hlog hsuffix with hbefore | heq | hafter
      · exact hnone.refreshing y args found result record
          (hbefore.subset List.mem_cons_self) hrecord huser _ hreturned
      · cases heq
      · obtain ⟨k, s, hs, howner, hlive⟩ := session_of_rotated hagrees hstatus hrecord
        have hended := ended_of_suspension hinit hw hafter hcalled hnone.inserting hs
          (howner.trans huser)
        rw [hlive] at hended
        cases hended
  | @«scoped» old _ _ _ _ _ hscopes =>
      cases hscopes with
      | @intro id _ _ _ _ hpassed =>
          obtain ⟨pre, rfl, _⟩ := hpassed.added
          cases hunique (.switchWorkspace old id) (by simp)

/-- Suspension is final: once it has returned, no authentication accepts a token of the user and
no refresh answers with a pair for the user, if nobody was under way past the checks. -/
theorem suspension_final (hinit : Initial c) {s : Config schema World AuthError Result}
    (h : (application env).Reachable c s) {after before : List (Nat × Event)}
    {admin : AccessClaims} {value : Result}
    (hlog : s.core.store.log = after ++ (i, .returned (.ok value)) :: before)
    (hcalled : (i, .called (.suspend admin u)) ∈ before) (hnone : NoneUnderWay u i after before) :
    (∀ j claims, (j, .returned (.ok (.claims claims))) ∈ after → claims.userId ≠ u) ∧
      ∀ j token client fingerprint pair,
        (j, .called (.refresh token client fingerprint)) ∈ s.core.store.log →
        (j, .returned (.ok (.pair pair))) ∈ after → pair.accessToken.userId ≠ u := by
  have hhistory := history_of_reachable hinit.log h
  refine ⟨?_, ?_⟩
  · intro j claims hreturned
    exact rejected_of_suspension hinit hhistory hlog hcalled hnone hreturned
  · intro j token client fingerprint pair hrefresh hreturned
    exact unrefreshed_of_suspension hinit hhistory hlog hcalled hnone hrefresh hreturned

end Suspended

section Samples

/-- Bob administers accounts. -/
def adminCore : Core Db World :=
  sampleStart
    { sampleDb [⟨.given 1, "ann", .active⟩, ⟨.given 2, "bob", .active⟩] with
      staff := sampleTable [(.given 201, ⟨.given 2, .accountAdmin, none⟩)] }

def administered (moves : List SampleMove) : Config schema World AuthError Result :=
  ((application sampleEnv).run (Service.start adminCore) moves).getD (Service.start adminCore)

theorem reachable_administered (moves : List SampleMove)
    (h : ((application sampleEnv).run (Service.start adminCore) moves).isSome = true) :
    (application sampleEnv).Reachable adminCore (administered moves) := by
  obtain ⟨s, hs⟩ := Option.isSome_iff_exists.mp h
  exact ⟨moves, by simp [administered, hs]⟩

theorem adminCore_initial : Initial adminCore :=
  ⟨rfl, rfl, rfl, rfl, rfl, rfl, fun _ => rfl, rfl, rfl⟩

/-- Bob suspends Ann between the check of her account and her session. -/
def overtakenMoves : List SampleMove :=
  perform 0 (.loginPassword "ann" "pw" "phone" none) 16 ++
    perform 1 (.createSession (.drawn 0 0) .web "phone" none) 2 ++
    perform 2 (.suspend (strongClaims (.given 2)) (.given 1)) 12 ++
    [.tick (seconds 1)] ++ steps 1 14 ++ perform 3 (.authenticate (annToken 1 1)) 7

/-- A session that the suspension could not see works on. -/
theorem suspended_accepted : Initial adminCore ∧
    ∃ s, (application sampleEnv).Reachable adminCore s ∧ ∃ after before,
      s.core.store.log = after ++ (2, .returned (.ok .nothing)) :: before ∧
      (2, .called (.suspend (strongClaims (.given 2)) (.given 1))) ∈ before ∧
      (3, .called (.authenticate (annToken 1 1))) ∈ after ∧
      (3, .returned (.ok (.claims (annToken 1 1)))) ∈ after ∧
      (annToken 1 1).userId = .given 1 ∧
      (s.core.db.users.get (.given 1)).map (·.state) = some .suspended :=
  ⟨adminCore_initial, administered overtakenMoves, reachable_administered _ (by decide +kernel),
    (administered overtakenMoves).core.store.log.take 15,
    (administered overtakenMoves).core.store.log.drop 16, rfl,
    List.mem_of_getElem? (i := 6) rfl, List.mem_of_getElem? (i := 7) rfl,
    List.mem_of_getElem? (i := 0) rfl, rfl, by decide +kernel⟩

/-- Bob suspends Ann, who has a session. -/
def suspendedMoves : List SampleMove :=
  signIn 0 "ann" ++ perform 2 (.suspend (strongClaims (.given 2)) (.given 1)) 19 ++
    perform 3 (.authenticate (annToken 1 0)) 4

/-- Whether a call that has found a user active is still to answer when sessions are looked up. -/
def waitsAt (_ : Nat) (e : Event) (earlier : List (Nat × Event)) : Bool :=
  match e with
  | .session (.activeSessions ..) => earlier.any fun check =>
      match check.2 with
      | .session (.userIsActive _ true) => earlier.all fun entry => entry.1 != check.1 ||
          match entry.2 with
          | .returned _ => false
          | _ => true
      | _ => false
  | _ => false

theorem waitsAt_of_inserting {u : Uuid} {y i : Nat} {found : List SessionMatch}
    {older : List (Nat × Event)} (h : Inserting u y older) :
    waitsAt i (.session (.activeSessions u found)) older = true := by
  refine List.any_eq_true.mpr ⟨_, h.active, List.all_eq_true.mpr ?_⟩
  rintro ⟨j, e⟩ hentry
  by_cases hj : j = y
  · subst hj
    cases e with
    | returned answer => exact absurd hentry (h.unreturned answer)
    | _ => simp
  · simp [hj]

theorem anyEntry_of_split {p : Nat → Event → List (Nat × Event) → Bool}
    {later earlier : List (Nat × Event)} {i : Nat} {e : Event} (h : p i e earlier = true) :
    anyEntry p (later ++ (i, e) :: earlier) = true := by
  induction later with
  | nil => simp [anyEntry, h]
  | cons entry rest ih => simp [anyEntry, ih]

/-- Whether the event is a check whose outcome a call may still hand out. -/
def Event.checks : Event → Bool
  | called (.authenticate _) => true
  | session (.rotated ..) => true
  | _ => false

theorem noneUnderWay_sample : NoneUnderWay (.given 1) 2
    ((administered suspendedMoves).core.store.log.take 5)
    ((administered suspendedMoves).core.store.log.drop 6) := by
  have hwaits : anyEntry waitsAt ((administered suspendedMoves).core.store.log.drop 6) = false := by
    decide +kernel
  have hchecks : ((administered suspendedMoves).core.store.log.drop 6).any
      (fun entry => entry.2.checks) = false := by decide +kernel
  have hnone : ∀ {y e}, (y, e) ∈ (administered suspendedMoves).core.store.log.drop 6 →
      e.checks ≠ true :=
    fun hmem => List.any_eq_false.mp hchecks _ hmem
  constructor
  case inserting =>
    intro newer found older hbefore y hinserting
    rw [hbefore, anyEntry_of_split (waitsAt_of_inserting hinserting)] at hwaits
    cases hwaits
  case refreshing => exact fun _ _ _ _ _ hrotated => absurd rfl (hnone hrotated)
  case authenticating => exact fun _ _ _ hcalled => absurd rfl (hnone hcalled)

/-- Ann's token is not accepted any more. -/
theorem suspended_refused :
    (3, .called (.authenticate (annToken 1 0))) ∈
        (administered suspendedMoves).core.store.log.take 5 ∧
      (3, .returned (.ok (.claims (annToken 1 0)))) ∉
        (administered suspendedMoves).core.store.log.take 5 := by
  have hlog : (administered suspendedMoves).core.store.log =
      (administered suspendedMoves).core.store.log.take 5 ++ (2, .returned (.ok .nothing)) ::
        (administered suspendedMoves).core.store.log.drop 6 := rfl
  obtain ⟨hrejected, _⟩ := suspension_final adminCore_initial
    (reachable_administered suspendedMoves (by decide +kernel)) hlog
    (List.mem_of_getElem? (i := 8) rfl) noneUnderWay_sample
  exact ⟨List.mem_of_getElem? (i := 4) rfl, fun hreturned => hrejected 3 _ hreturned rfl⟩

end Samples

end AuthCore
