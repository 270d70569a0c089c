/-
The revocation of all sessions of a user.  Tokens from before it are refused because their
sessions have ended; tokens from after it are compared with its cut-off, which knows seconds only.
-/
import AuthCore.Sessions.Theft
import AuthCore.Accounts.Workflows

namespace AuthCore

open Interleave Relational SessionRepository

/-- A session and its family are unrevoked together. -/
theorem unrevoked_of_atRest {d : Db} {k : Uuid} (h : d.sessionTables.AtRest) {s : Session}
    {user : Uuid} (hget : d.sessions.get k = some s) (huser : s.userId = user) (hrevoked : s.revokedAt = none) :
    ∃ family, d.families.get s.familyId = some family ∧ unrevoked user s family = true := by
  obtain ⟨family, hfamily⟩ := h.sessionFamily k s hget
  obtain ⟨n, hn⟩ := h.formed _ family hfamily
  have hmirror := (hn.mirrored k s hget rfl).2
  have hunrevoked : family.revokedAt = none := by
    rw [hrevoked] at hmirror
    simpa using hmirror
  exact ⟨family, hfamily, by simp [unrevoked, huser, hrevoked, hunrevoked]⟩

section Cutoff

variable {env : Env} {c m : Core Db World} {i j : Nat} {claims : AccessClaims}
  {args : RevokeAllArgs} {found : List SessionMatch} {results : List RevocationResult}
  {later between earlier : List (Nat × Event)}

/-- No session that the revocation has looked up is left. -/
theorem ended_of_revokedAll (hinit : Initial c) {m₀ : Core Db World} (h₀ : History env c m₀)
    (h : History env m₀ m) (hfound : found = candidates (joined (fun _ => unrevoked args.userId)
      m₀.db)) (hagrees : (Event.session (.revokedAll args found results)).Agrees m) {k : Uuid}
    (hknown : Known k m₀.store.log)
    (huser : ∀ s, m₀.db.sessions.get k = some s → s.userId = args.userId) {s' : Session}
    (hget : ((Event.session (.revokedAll args found results)).change m.db).sessions.get k =
      some s') : s'.revokedAt.isSome := by
  obtain ⟨change, halone, hchange⟩ := hagrees.commits rfl
  have htables := (alone_revokeMatches halone).2
  rw [hchange] at hget
  change (change m.db).sessionTables.sessions.get k = some s' at hget
  dsimp only at htables
  rw [htables] at hget
  obtain ⟨s, hs, hfamily, _, _, _, hkept⟩ :=
    (SessionTables.Descends.of_revocations k _ _).session s' hget
  obtain ⟨s₀, hs₀, hfamily₀, huser₀, _, _, hkept₀⟩ :=
    (descends_of_history h hknown).session s hs
  by_contra hnone
  have hs' : s'.revokedAt = none := by simpa using hnone
  have hsnone : s.revokedAt = none := by
    by_contra hsome
    exact hnone (hkept (Option.isSome_iff_ne_none.mpr hsome))
  have hs₀none : s₀.revokedAt = none := by
    by_contra hsome
    exact Option.isSome_iff_ne_none.mp (hkept₀ (Option.isSome_iff_ne_none.mpr hsome)) hsnone
  have howner := huser s₀ hs₀
  obtain ⟨family₀, hget₀, hunrevoked₀⟩ := unrevoked_of_atRest
    (sessionInvariant_of_history hinit h₀).atRest hs₀ howner hs₀none
  obtain ⟨family, hgetf, hunrevoked⟩ := unrevoked_of_atRest
    (sessionInvariant_of_history hinit (h₀.trans h)).atRest hs (huser₀.trans howner) hsnone
  have hlisted : (⟨k, s₀.familyId⟩ : SessionMatch) ∈ found := by
    rw [hfound]
    refine List.mem_map.mpr ⟨(k, s₀), Table.mem_select.mpr ⟨hs₀, ?_⟩, rfl⟩
    rw [hget₀]
    exact hunrevoked₀
  have hlocked : (⟨k, s, family⟩ : Locked) ∈ revocable args found m.db := by
    refine List.mem_filterMap.mpr ⟨_, hlisted, ?_⟩
    have hs : m.db.sessions.get k = some s := hs
    rw [hfamily₀] at hgetf
    simp [lockedRow, hgetf, hs, hunrevoked, hfamily₀]
  have hrevoked : ∀ {row : Locked}, row ∈ revocable args found m.db → row.sessionId = k →
      s'.revokedAt.isSome := by
    rintro row hrow rfl
    exact SessionTables.revoked_of_revocations hrow hget
  exact hnone (hrevoked hlocked rfl)

/-- An entry of a call lies below the last one it has made. -/
theorem suffix_of_last {e e' : Event} {last before : List (Nat × Event)}
    (hlog : last ++ (i, e') :: earlier = between ++ (i, e) :: before) (hnone : trace i last = [])
    (hne : e ≠ e') : (i, e) :: before <:+ earlier := by
  rcases List.append_eq_append_iff.mp hlog with ⟨rest, rfl, hrest⟩ | ⟨rest, rfl, hrest⟩
  · cases rest with
    | nil => exact absurd (congrArg Prod.snd (List.cons.inj hrest).1).symm hne
    | cons first rest => exact ⟨rest, (List.cons.inj hrest).2.symm⟩
  · cases rest with
    | nil => exact absurd (congrArg Prod.snd (List.cons.inj hrest).1) hne
    | cons first rest =>
        obtain rfl := (List.cons.inj hrest).1
        rw [trace_append, trace_cons_self] at hnone
        simp at hnone

theorem issued_of_signed (hinit : Initial c) (h : History env c m)
    (hsigned : (i, .signed claims) ∈ m.store.log) : claims ∈ m.store.issued := by
  obtain ⟨later, earlier, hsplit⟩ := List.append_of_mem hsigned
  obtain ⟨m₀, _, _, _, _, hrest⟩ := h.around hinit.log hsplit
  exact hrest.issued_mono List.mem_cons_self

/-- The session of a token from before a global revocation has ended. -/
theorem ended_after_cutoff (hinit : Initial c) (h : History env c m)
    (hlog : m.store.log = later ++ (i, .session (.revokedAll args found results)) ::
      (between ++ (i, .clock args.now) :: earlier)) {x : Nat}
    (hsigned : (x, .signed claims) ∈ earlier) (huser : claims.userId = args.userId) {s : Session}
    (hget : m.db.sessions.get claims.sessionId = some s) : s.revokedAt.isSome := by
  obtain ⟨m₁, hm₁, hlog₁, hfollows, hagrees, hrest₁⟩ := h.around hinit.log hlog
  rw [← hlog₁] at hfollows
  have hrevokes : RevokesAll (trace i m₁.store.log) args found := hfollows
  -- the state in which the revocation looked for sessions
  have hquery : ∃ rest, trace i m₁.store.log =
      [] ++ .session (.activeSessions args.userId found) :: rest := by
    generalize trace i m₁.store.log = t at hrevokes
    cases hrevokes
    exact ⟨_, rfl⟩
  obtain ⟨rest, htrace⟩ := hquery
  obtain ⟨last, before, hsplit, hnone, _⟩ := log_of_trace htrace
  obtain ⟨m₀, hm₀, hlog₀, hfollows₀, hagrees₀, hrest₀⟩ := hm₁.around hinit.log hsplit
  have hbefore : (i, .clock args.now) :: earlier <:+ before :=
    suffix_of_last (hsplit.symm.trans hlog₁) hnone (by simp)
  have hissued : claims ∈ m₀.store.issued := by
    refine issued_of_signed hinit hm₀ (i := x) ?_
    rw [hlog₀]
    exact hbefore.subset (List.mem_cons_of_mem _ hsigned)
  obtain ⟨hknown, howned⟩ := owned_of_issued hinit hm₀ hissued
  have hfound : found = candidates (joined (fun _ => unrevoked args.userId) m₀.db) :=
    hagrees₀.tells
  have htom₁ : History env m₀ m₁ := History.trans
    (.event .refl (by rw [hlog₀]; exact hfollows₀) hagrees₀) hrest₀
  have hknown₁ : Known claims.sessionId
      ((Event.session (.revokedAll args found results)).apply i m₁).store.log := by
    refine (hknown.of_suffix (History.log_suffix htom₁)).of_suffix ?_
    rw [Event.log_apply]
    exact List.suffix_cons _ _
  obtain ⟨s₁, hs₁, _, _, _, _, hstays⟩ :=
    (descends_of_history hrest₁ hknown₁).session s hget
  exact hstays (ended_of_revokedAll hinit hm₀ htom₁ hfound hagrees hknown
    (fun s hs => (howned s hs).2.trans huser) hs₁)

/-- A token from before a global revocation is not accepted any more. -/
theorem rejected_after_cutoff (hinit : Initial c) (h : History env c m)
    (hlog : m.store.log = later ++ (i, .session (.revokedAll args found results)) ::
      (between ++ (i, .clock args.now) :: earlier)) {x : Nat}
    (hsigned : (x, .signed claims) ∈ earlier) (huser : claims.userId = args.userId)
    (hcalled : (j, .called (.authenticate claims)) ∈ later) :
    (j, .returned (.ok (.claims claims))) ∉ m.store.log := by
  intro hreturned
  obtain ⟨last, first, hsplit⟩ := List.append_of_mem (mem_trace_iff.mpr hreturned)
  obtain ⟨y, hy, hytrace, hreturns, hyagrees, hyrest⟩ := h.recorded hinit.log hsplit
  have hpassed : Passed claims _ first := Returns.claims hreturns claims rfl
  have htoy := History.trans (History.event .refl (by rw [hytrace]; exact hreturns) hyagrees)
    hyrest
  cases hpassed with
  | @intro now revokedAt cutoff hcutoff =>
      obtain ⟨z, hz, hztrace, hzfollows, hzagrees, hzrest⟩ :=
        hy.recorded hinit.log (show _ = [] ++ _ from hytrace)
      have htoz := History.trans (History.event .refl (by rw [hztrace]; exact hzfollows)
        hzagrees) (hzrest.trans htoy)
      obtain ⟨rest, hrest, _⟩ := made_after hinit h htoz hlog hcalled (by rw [hztrace]; simp)
      -- the session of the token has ended when it is looked at
      obtain ⟨x, family, hx, _, hlive⟩ := stored_of_sessionIsActive hzagrees.tells.symm
      have hended := ended_after_cutoff hinit hz hrest hsigned huser hx
      simp only [live, Bool.and_eq_true, Option.isNone_iff_eq_none] at hlive
      rw [hlive.1.1.1] at hended
      cases hended

theorem Withdrawn.mono {t t' : List Event} (h : Withdrawn claims t) (hsub : t ⊆ t') :
    Withdrawn claims t' := by
  cases h with
  | token hmem => exact .token (hsub hmem)
  | family hmem => exact .family (hsub hmem)
  | organization hmem hle => exact .organization (hsub hmem) hle
  | session hmem => exact .session (hsub hmem)

theorem issuedAt_le (hinit : Initial c) (h : History env c m)
    (hissued : claims ∈ m.store.issued) : claims.issuedAt ≤ m.store.now := by
  obtain ⟨x, m₀, e, hm₀, horigin, hrest⟩ := origin_of_issued hinit h hissued
  obtain ⟨now, hclock, hat, _⟩ := horigin.read
  have htom : History env m₀ m := History.trans
    (.event .refl horigin.follows horigin.agrees) hrest
  have hread := hm₀.clock_le hinit.log (mem_trace_iff.mp hclock)
  rw [hat]
  exact (wholeSecond_le now).trans (hread.trans htom.now_le)

/-- Why a token is refused that has been signed before. -/
theorem reason_of_rejected (hinit : Initial c) (h : History env c m)
    {after before : List (Nat × Event)}
    (hlog : m.store.log = after ++ (j, .called (.authenticate claims)) :: before) {x : Nat}
    (hsigned : (x, .signed claims) ∈ before) {error : AuthError}
    (hreturned : (j, .returned (.error error)) ∈ m.store.log) :
    claims.expiresAt ≤ m.store.now ∨ Withdrawn claims (trace j m.store.log) ∨
      ∃ k revokedAt ttl, (k, .put (.userRevocation claims.userId) revokedAt ttl) ∈ m.store.log ∧
        claims.issuedAt ≤ revokedAt := by
  have hmem : (j, .called (.authenticate claims)) ∈ m.store.log := by
    rw [hlog]
    simp
  obtain ⟨last, first, hsplit⟩ := List.append_of_mem (mem_trace_iff.mpr hreturned)
  obtain ⟨y, hy, hytrace, hreturns, hyagrees, hyrest⟩ := h.recorded hinit.log hsplit
  have hsub : first ⊆ trace j m.store.log := by
    rw [hsplit]
    exact fun e he => List.mem_append_right _ (List.mem_cons_of_mem _ he)
  have hcall := called_before hinit h hsplit (by simp) (mem_trace_iff.mpr hmem)
  rcases Returns.authenticate hreturns claims error hcall rfl with hverified | hwithdrawn |
    ⟨revokedAt, hread, hle⟩
  · obtain ⟨mid, rest, hfirst⟩ := List.append_of_mem hverified
    obtain ⟨z, hz, hztrace, hzfollows, hzagrees, hzrest⟩ := hy.recorded hinit.log
      (hytrace.trans hfirst)
    have htoy := History.trans (History.event .refl (by rw [hytrace]; exact hreturns) hyagrees)
      hyrest
    have htoz := History.trans (History.event .refl (by rw [hztrace]; exact hzfollows)
      hzagrees) (hzrest.trans htoy)
    have hcalled : .called (.authenticate claims) ∈ rest :=
      called_before hinit hy (hytrace.trans hfirst) (by simp) (by rw [hytrace]; exact hcall)
    have hpart : m.store.log = (after ++ [(j, .called (.authenticate claims))]) ++ before := by
      rw [hlog]
      simp
    obtain ⟨between, hbetween, _⟩ := made_after hinit h htoz hpart
      (List.mem_append_right _ List.mem_cons_self)
      (by rw [hztrace]; exact List.ne_nil_of_mem hcalled)
    have hissued : claims ∈ z.store.issued := by
      refine issued_of_signed hinit hz (i := x) ?_
      rw [hbetween]
      exact List.mem_append_right _ hsigned
    have htells : false = verifies claims z.store := hzagrees.tells
    have hlate : ¬z.store.now < claims.expiresAt := by
      intro hvalid
      simp [verifies, hissued, hvalid, issuedAt_le hinit hz hissued] at htells
    exact Or.inl (Nat.le_trans (Nat.le_of_not_lt hlate) htoz.now_le)
  · exact Or.inr (Or.inl (hwithdrawn.mono hsub))
  · obtain ⟨k, ttl, hput⟩ := h.put_of_read hinit.log hinit.cache rfl (hsub hread) (Or.inl rfl)
    exact Or.inr (Or.inr ⟨k, revokedAt, ttl, hput, hle⟩)

end Cutoff

/-- Along every run: a token signed before a global revocation of its user reads its clock is
refused by every authentication called after the revocation has committed.  A token of a session
that is created by a call made later, issued in a later second than the cut-offs stored before that
call, is refused only when it has expired, when it, its family or its session has been revoked, or
its organization left, or when there has been another cut-off for its user since. -/
theorem exact_cut {env : Env} {c : Core Db World} (hinit : Initial c)
    {s : Config schema World AuthError Result} (h : (application env).Reachable c s) :
    (∀ i args found results later between earlier x claims,
      s.core.store.log = later ++ (i, .session (.revokedAll args found results)) ::
        (between ++ (i, .clock args.now) :: earlier) →
      (x, .signed claims) ∈ earlier → claims.userId = args.userId →
      ∀ j, (j, .called (.authenticate claims)) ∈ later →
        (j, .returned (.ok (.claims claims))) ∉ s.core.store.log) ∧
    ∀ k token client fingerprint ip later earlier args found result claims,
      s.core.store.log =
        later ++ (k, .called (.createSession token client fingerprint ip)) :: earlier →
      (k, .session (.created args found result)) ∈ later →
      claims.sessionId = result.record.sessionId →
      (∀ i revokedAt ttl, (i, .put (.userRevocation claims.userId) revokedAt ttl) ∈ earlier →
        revokedAt < claims.issuedAt) →
      ∀ x j after before error,
        s.core.store.log = after ++ (j, .called (.authenticate claims)) :: before →
        (x, .signed claims) ∈ before → (j, .returned (.error error)) ∈ s.core.store.log →
        claims.expiresAt ≤ s.core.store.now ∨ Withdrawn claims (trace j s.core.store.log) ∨
          ∃ i revokedAt ttl, (i, .put (.userRevocation claims.userId) revokedAt ttl) ∈ later := by
  have hhistory := history_of_reachable hinit.log h
  refine ⟨?_, ?_⟩
  · intro i args found results later between earlier x claims hlog hsigned huser j hcalled
    exact rejected_after_cutoff hinit hhistory hlog hsigned huser hcalled
  · intro k token client fingerprint ip later earlier args found result claims hlog _ _ hcutoffs
      x j after before error hcall hsigned hreturned
    rcases reason_of_rejected hinit hhistory hcall hsigned hreturned with hexpired | hwithdrawn |
      ⟨i, revokedAt, ttl, hput, hle⟩
    · exact Or.inl hexpired
    · exact Or.inr (Or.inl hwithdrawn)
    · refine Or.inr (Or.inr ⟨i, revokedAt, ttl, ?_⟩)
      rw [hlog] at hput
      rcases List.mem_append.mp hput with hlater | hearlier
      · exact hlater
      · rcases List.mem_cons.mp hearlier with heq | hearlier
        · cases heq
        · exact absurd hle (Nat.not_le_of_lt (hcutoffs i revokedAt ttl hearlier))

/-- What the access tokens of Ann say, by the number of the call and the time. -/
def annToken (i wait : Nat) : AccessClaims :=
  ⟨.given 1, .drawn i 4, .drawn i 3, .drawn i 2, 1000000 + seconds wait,
    901000000 + seconds wait, .web, ["password"], none, none, []⟩

/-- Ann logs in, logs out everywhere and logs in again after a while; then both tokens are used. -/
def cutMoves (wait n : Nat) : List SampleMove :=
  signIn 0 "ann" ++ perform 2 (.logoutAll (annToken 1 0)) 16 ++ [.tick (seconds wait)] ++
    signIn 3 "ann" ++ perform 5 (.authenticate (annToken 1 0)) 4 ++
    perform 6 (.authenticate (annToken 4 wait)) n

/-- A second later the old token is refused and the new one accepted. -/
theorem exact_cut_next_second :
    (5, .returned (.ok (.claims (annToken 1 0)))) ∉ (reached (cutMoves 1 7)).core.store.log ∧
      (6, .returned (.ok (.claims (annToken 4 1)))) ∈ (reached (cutMoves 1 7)).core.store.log := by
  obtain ⟨hrefused, _⟩ := exact_cut sampleCore_initial
    (reachable_reached (cutMoves 1 7) (by decide +kernel))
  refine ⟨?_, List.mem_cons_self⟩
  exact hrefused 2 ⟨.given 1, "logout_all", 1000000⟩ [⟨.drawn 1 4, .drawn 1 3⟩]
    [⟨.given 1, .drawn 1 3, .drawn 1 2⟩] ((reached (cutMoves 1 7)).core.store.log.take 40)
    (((reached (cutMoves 1 7)).core.store.log.drop 41).take 1)
    ((reached (cutMoves 1 7)).core.store.log.drop 43) 1 (annToken 1 0) rfl
    (List.mem_of_getElem? (i := 3) rfl) rfl 5 (List.mem_of_getElem? (i := 12) rfl)

/-- Whether the event writes a key of the store. -/
def Event.puts : Event → Bool
  | put .. => true
  | _ => false

/-- In the same second the new token is refused as well, though nothing has been revoked since. -/
theorem same_second_refused :
    ∃ s, (application sampleEnv).Reachable sampleCore s ∧ ∃ later earlier,
      s.core.store.log = later ++
        (4, .called (.createSession (.drawn 3 0) .web "phone" none)) :: earlier ∧
      (2, .returned (.ok (.count 1))) ∈ earlier ∧ (4, .signed (annToken 4 0)) ∈ later ∧
      (∀ entry ∈ later, ∀ key value ttl, entry.2 ≠ .put key value ttl) ∧
      (6, .returned (.error SessionControl.tokenInvalid)) ∈ later ∧
      (6, .called (.authenticate (annToken 4 0))) ∈ later ∧
      s.core.store.now < (annToken 4 0).expiresAt ∧
      SessionRepository.sessionIsActive (.drawn 4 4) s.core.store.now s.core.db = true := by
  have hnone : ((reached (cutMoves 0 6)).core.store.log.take 21).all (fun entry =>
      !entry.2.puts) = true := by
    decide +kernel
  refine ⟨reached (cutMoves 0 6), reachable_reached _ (by decide +kernel),
    (reached (cutMoves 0 6)).core.store.log.take 21,
    (reached (cutMoves 0 6)).core.store.log.drop 22, rfl, List.mem_of_getElem? (i := 12) rfl,
    ?_, ?_, List.mem_cons_self, List.mem_of_getElem? (i := 6) rfl, by decide +kernel,
    by decide +kernel⟩
  · exact List.mem_of_getElem? (i := 14) rfl
  · intro entry hentry key value ttl heq
    have hput := List.all_eq_true.mp hnone entry hentry
    rw [heq] at hput
    cases hput

end AuthCore
