/-
The cap on active sessions.  A login counts the sessions that its query found
and that are still active once they are locked; a session that another login
inserts after the query is not counted.  The cap holds in every run in which no
other login of the same user commits between the two.
-/
import AuthCore.History.Ordered
import AuthCore.Sessions.Invariant

namespace AuthCore

open Interleave Relational SessionRepository

/-- The sessions of a user that are unrevoked and unexpired at `now`. -/
def liveSessions (user : Uuid) (now : Time) (d : Db) : List (Uuid × Session) :=
  d.sessions.select fun _ s =>
    s.userId == user && s.revokedAt.isNone && decide (now < s.expiresAt)

/-- Between the query of a login for the sessions of its user and its commit no
other login of that user commits. -/
def Uncontended (log : List (Nat × Event)) : Prop :=
  ∀ later between earlier i args found result now candidates,
    log = later ++ (i, .session (.created args found result)) ::
      (between ++ (i, .session (.capCandidates args.userId now candidates)) :: earlier) →
    ∀ j args' found' result', (j, .session (.created args' found' result')) ∈ between →
      args'.userId ≠ args.userId

theorem Uncontended.of_suffix {log log' : List (Nat × Event)} (h : Uncontended log')
    (hsuffix : log <:+ log') : Uncontended log := by
  obtain ⟨newer, rfl⟩ := hsuffix
  intro later between earlier i args found result now candidates hlog
  exact h (newer ++ later) between earlier i args found result now candidates
    (by rw [hlog, List.append_assoc])

/-- The later row of a session is the earlier one, apart from its revocation,
its scope and its activity. -/
def SameSession (s s' : Session) : Prop :=
  s'.familyId = s.familyId ∧ s'.userId = s.userId ∧ s'.createdAt = s.createdAt ∧
    s'.expiresAt = s.expiresAt ∧ (s.revokedAt.isSome → s'.revokedAt.isSome)

theorem SameSession.trans {s s' s'' : Session} (h : SameSession s s') (h' : SameSession s' s'') :
    SameSession s s'' :=
  ⟨h'.1.trans h.1, h'.2.1.trans h.2.1, h'.2.2.1.trans h.2.2.1, h'.2.2.2.1.trans h.2.2.2.1,
    fun hr => h'.2.2.2.2 (h.2.2.2.2 hr)⟩

theorem SameSession.unrevoked {s s' : Session} (h : SameSession s s') (h' : s'.revokedAt = none) :
    s.revokedAt = none := by
  by_contra hne
  have hsome := h.2.2.2.2 (Option.isSome_iff_ne_none.mpr hne)
  rw [h'] at hsome
  cases hsome

/-- A session of `user` after an event was there before, unless the event is a
login of `user`. -/
theorem Effect.session_before {T T' : SessionTables} {e : Event} {user : Uuid}
    (h : Effect T e T')
    (hother : ∀ args found result, e = .session (.created args found result) →
      args.userId ≠ user)
    {k : Uuid} {s' : Session} (hget : T'.sessions.get k = some s') (huser : s'.userId = user) :
    ∃ s, T.sessions.get k = some s ∧ SameSession s s' := by
  cases h with
  | upkeep hsteps => exact (SessionTables.Descends.upkeep k hsteps).session s' hget
  | @created args found result M hsteps hfree =>
      simp only [SessionTables.create, Table.get_add] at hget
      cases hold : M.sessions.get k with
      | some s =>
          rw [hold, Option.some_or, Option.some.injEq] at hget
          subst hget
          exact (SessionTables.Descends.upkeep k hsteps).session s hold
      | none =>
          rw [hold, Option.none_or] at hget
          split at hget
          · obtain rfl := Option.some.inj hget
            exact absurd huser (hother args found result rfl)
          · cases hget
  | rotated hpresented hrotatable hfree =>
      obtain ⟨s, hs, hsame⟩ := (SessionTables.Descends.of_scope k _ _ _ _ _).session s' hget
      exact ⟨s, hs, hsame⟩

/-- Over a stretch of a run without a login of `user`. -/
theorem session_before {env : Env} {m m' : Core Db World} {user : Uuid} (h : History env m m')
    {between : List (Nat × Event)} (hlog : m'.store.log = between ++ m.store.log)
    (hother : ∀ j args found result, (j, .session (.created args found result)) ∈ between →
      args.userId ≠ user)
    {k : Uuid} {s' : Session} (hget : m'.db.sessions.get k = some s') (huser : s'.userId = user) :
    ∃ s, m.db.sessions.get k = some s ∧ SameSession s s' := by
  have hrun : ∃ between, m'.store.log = between ++ m.store.log ∧
      ((∀ j args found result, (j, Event.session (.created args found result)) ∈ between →
        args.userId ≠ user) →
      ∀ s', m'.db.sessions.get k = some s' → s'.userId = user →
        ∃ s, m.db.sessions.get k = some s ∧ SameSession s s') := by
    -- by induction over the stretch, one event at a time
    refine h.stretch (P := fun x between => (∀ j args found result,
        (j, Event.session (.created args found result)) ∈ between → args.userId ≠ user) →
      ∀ s', x.db.sessions.get k = some s' → s'.userId = user →
        ∃ s, m.db.sessions.get k = some s ∧ SameSession s s') ?_ ?_ fun _ _ _ _ hP => hP
    · exact fun _ s hs _ => ⟨s, hs, rfl, rfl, rfl, rfl, fun hr => hr⟩
    · intro x between i e _ _ _ hagrees ih hnone s'' hs'' huser''
      obtain ⟨s₁, hs₁, hsame₁⟩ := (effect_change hagrees).session_before
        (fun args found result he => hnone i args found result (by simp [he])) hs'' huser''
      obtain ⟨s, hs, hsame⟩ := ih
        (fun j args found result hmem => hnone j args found result (List.mem_cons_of_mem _ hmem))
        s₁ hs₁ (hsame₁.2.1.symm.trans huser'')
      exact ⟨s, hs, hsame.trans hsame₁⟩
  obtain ⟨between', hlog', hP⟩ := hrun
  rw [hlog, List.append_cancel_right_eq] at hlog'
  subst hlog'
  exact hP hother s' hget huser

/-- A session and its family are active together. -/
theorem active_of_atRest {d : Db} (h : d.sessionTables.AtRest) {k : Uuid} {s : Session}
    {user : Uuid} {now : Time} (hget : d.sessions.get k = some s) (huser : s.userId = user)
    (hrevoked : s.revokedAt = none) (hexpiry : now < s.expiresAt) :
    ∃ family, d.families.get s.familyId = some family ∧ active user now s family = true := by
  obtain ⟨family, hfamily⟩ := h.sessionFamily k s hget
  obtain ⟨n, hn⟩ := h.formed _ family hfamily
  obtain ⟨howner, hmirror⟩ := hn.mirrored k s hget rfl
  have hunrevoked : family.revokedAt = none := by
    rw [hrevoked] at hmirror
    simpa using hmirror
  exact ⟨family, hfamily, by simp [active, ← howner, huser, hunrevoked, hrevoked, hexpiry]⟩

theorem user_of_active {d : Db} (h : d.sessionTables.AtRest) {row : Locked} {user : Uuid}
    {now : Time} (hstored : Stored row d.sessionTables)
    (hactive : active user now row.session row.family = true) : row.session.userId = user := by
  obtain ⟨n, hn⟩ := h.formed _ _ hstored.family
  have howner := (hn.mirrored _ _ hstored.session rfl).1
  simp only [active, Bool.and_eq_true, beq_iff_eq] at hactive
  exact howner.trans hactive.1.1.1

/-- The query of a login and the state in which it commits. -/
structure Counting (m m' : Core Db World) (args : CreateArgs) (found : List SessionMatch) :
    Prop where
  query : found = candidates (orderBy (fun row => row.2.createdAt)
    (joined (fun _ => active args.userId args.now) m.db))
  before : m.db.sessionTables.AtRest
  after : m'.db.sessionTables.AtRest
  stays : ∀ k s', m'.db.sessions.get k = some s' → s'.userId = args.userId →
    ∃ s, m.db.sessions.get k = some s ∧ SameSession s s'

section Counting

variable {m m' : Core Db World} {args : CreateArgs} {found : List SessionMatch}

/-- The rows that a login counts. -/
def counted (args : CreateArgs) (found : List SessionMatch) (d : Db) : List Locked :=
  found.filterMap (lockedRow (active args.userId args.now) d)

/-- Every active session of the user is counted. -/
theorem Counting.complete (h : Counting m m' args found) {k : Uuid} {s : Session}
    (hget : m'.db.sessions.get k = some s) (huser : s.userId = args.userId)
    (hrevoked : s.revokedAt = none) (hexpiry : args.now < s.expiresAt) :
    ∃ row ∈ counted args found m'.db, row.sessionId = k ∧ row.session = s := by
  obtain ⟨s₀, hget₀, hsame⟩ := h.stays k s hget huser
  obtain ⟨family₀, hfamily₀, hactive₀⟩ := active_of_atRest h.before hget₀
    (hsame.2.1.symm.trans huser) (hsame.unrevoked hrevoked) (hsame.2.2.2.1 ▸ hexpiry)
  obtain ⟨family, hfamily, hactive⟩ := active_of_atRest h.after hget huser hrevoked hexpiry
  refine ⟨⟨k, s, family⟩, List.mem_filterMap.mpr ⟨⟨k, s₀.familyId⟩, ?_, ?_⟩, rfl, rfl⟩
  · rw [h.query]
    refine List.mem_map.mpr ⟨(k, s₀), mem_orderBy.mpr (Table.mem_select.mpr ⟨hget₀, ?_⟩), rfl⟩
    rw [hfamily₀]
    exact hactive₀
  · rw [hsame.1] at hfamily
    simp [lockedRow, hfamily, hget, hactive, hsame.1]

/-- The counted rows come in the order of their creation. -/
theorem Counting.ordered (h : Counting m m' args found) :
    (counted args found m'.db).Pairwise fun row row' =>
      row.session.createdAt ≤ row'.session.createdAt := by
  unfold counted
  rw [h.query, candidates, List.filterMap_map]
  refine List.Pairwise.filterMap _ ?_ ((pairwise_orderBy _).imp_of_mem fun {x y} hx hy hle =>
    (⟨hx, hy, hle⟩ : _ ∧ _ ∧ _))
  rintro ⟨k, s⟩ ⟨k', s'⟩ ⟨hx, hy, hle⟩ row hrow row' hrow'
  have hage : ∀ {k : Uuid} {s : Session} {row : Locked},
      (k, s) ∈ orderBy (fun row => row.2.createdAt)
        (joined (fun _ => active args.userId args.now) m.db) →
      lockedRow (active args.userId args.now) m'.db ⟨k, s.familyId⟩ = some row →
      row.session.createdAt = s.createdAt := by
    intro k s row hmem hlocked
    obtain ⟨hstored, hactive, hk, _⟩ := lockedRow_eq_some hlocked
    have huser := user_of_active h.after hstored hactive
    obtain ⟨s₀, hget₀, hsame⟩ := h.stays row.sessionId row.session hstored.session huser
    have hget := (Table.mem_select.mp (mem_orderBy.mp hmem)).1
    rw [hk] at hget₀
    rw [hsame.2.2.1, Option.some.inj (hget₀.symm.trans hget)]
  rw [hage hx hrow, hage hy hrow']
  exact hle

end Counting

/-- The login that commits next has counted every active session of its user. -/
theorem counting_of_uncontended {env : Env} {c m : Core Db World} (hinit : Initial c)
    (h : History env c m) {i : Nat} {args : CreateArgs} {found : List SessionMatch}
    {result : CreatedSession} (hcreates : Creates env i (trace i m.store.log) args found)
    (hfree : Uncontended ((i, .session (.created args found result)) :: m.store.log)) :
    ∃ m₀, History env c m₀ ∧ Counting m₀ m args found := by
  generalize htrace : trace i m.store.log = t at hcreates
  cases hcreates with
  | @intro token client fingerprint ip workflow now stored found hready =>
      obtain ⟨between, earlier, hlog, _, _⟩ :=
        log_of_trace (show trace i m.store.log = [] ++ _ :: _ from htrace)
      obtain ⟨m₀, hm₀, hearlier, _, hagrees, hrest⟩ := h.around hinit.log hlog
      have hinv := sessionInvariant_of_history hinit hm₀
      have hinv' := sessionInvariant_of_history hinit h
      refine ⟨m₀, hm₀, hagrees.tells, hinv.atRest, hinv'.atRest, ?_⟩
      intro k s' hget huser
      refine session_before hrest (?_ : _ = between ++ _) ?_ hget huser
      · rw [hlog, Event.log_apply, hearlier]
      · intro j args' found' result' hmem
        exact hfree [] between earlier i _ found result _ _ (by rw [hlog]; rfl) j args' found'
          result' hmem

section Evictions

variable (now : Time) {rows : List Locked} {T : SessionTables} {k : Uuid}

/-- Sessions that are not listed stay. -/
theorem evictions_other (h : ∀ row ∈ rows, row.sessionId ≠ k) :
    (rows.foldl (fun T row => evicted now row T) T).sessions.get k = T.sessions.get k := by
  induction rows generalizing T with
  | nil => rfl
  | cons row rest ih =>
      have hne := h row List.mem_cons_self
      rw [List.foldl_cons, ih fun other hother => h other (List.mem_cons_of_mem _ hother)]
      simp [evicted, SessionTables.revoke, Table.get_update, hne.symm]

theorem evictions_stored (rows : List Locked) {s : Session} (hget : T.sessions.get k = some s) :
    ∃ s', (rows.foldl (fun T row => evicted now row T) T).sessions.get k = some s' := by
  induction rows generalizing T s with
  | nil => exact ⟨s, hget⟩
  | cons row rest ih => exact ih (Table.get_update_eq_some.mpr ⟨s, hget, rfl⟩)

end Evictions

section Step

variable {env : Env} {m m' : Core Db World} {args : CreateArgs} {found : List SessionMatch}
  {result : CreatedSession}

/-- The tables after a login. -/
theorem tables_created (h : (Event.session (.created args found result)).Agrees m') :
    ((Event.session (.created args found result)).change m'.db).sessionTables =
      ((overflow args found m'.db).foldl (fun T row => evicted args.now row T)
        m'.db.sessionTables).create args := by
  obtain ⟨change, halone, hchange⟩ := h.commits rfl
  rw [hchange, (alone_insertSession halone).2.2]

/-- A session after a login is the new one or was there and is not among those
it evicts, unless it is revoked. -/
theorem session_created (h : (Event.session (.created args found result)).Agrees m') {k : Uuid}
    {s' : Session}
    (hget : ((Event.session (.created args found result)).change m'.db).sessions.get k = some s') :
    k = args.sessionId ∨
      ∃ s, m'.db.sessions.get k = some s ∧ SameSession s s' ∧
        (s'.revokedAt = none → ∀ row ∈ overflow args found m'.db, row.sessionId ≠ k) := by
  have hget' : ((Event.session (.created args found result)).change
      m'.db).sessionTables.sessions.get k = some s' := hget
  rw [tables_created h] at hget'
  simp only [SessionTables.create, Table.get_add] at hget'
  by_cases hk : k = args.sessionId
  · exact Or.inl hk
  · rw [if_neg hk, Option.or_none] at hget'
    obtain ⟨s, hs, hsame⟩ := (SessionTables.Descends.of_revocations k _ _).session s' hget'
    refine Or.inr ⟨s, hs, hsame, fun hrevoked row hrow heq => ?_⟩
    subst heq
    have hsome := SessionTables.revoked_of_revocations hrow hget'
    rw [hrevoked] at hsome
    cases hsome

theorem cap_created (hcounting : Counting m m' args found)
    (h : (Event.session (.created args found result)).Agrees m')
    (hnow : args.now ≤ m'.store.now) :
    (liveSessions args.userId m'.store.now
      ((Event.session (.created args found result)).change m'.db)).length ≤
        maxActiveSessions := by
  have hkeys : ∀ entry ∈ liveSessions args.userId m'.store.now
      ((Event.session (.created args found result)).change m'.db),
      entry.1 ∈ args.sessionId :: ((counted args found m'.db).drop
        ((counted args found m'.db).length + 1 - maxActiveSessions)).map (·.sessionId) := by
    rintro ⟨k, s'⟩ hmem
    obtain ⟨hget, hlive⟩ := Table.mem_select.mp hmem
    simp only [Bool.and_eq_true, beq_iff_eq, Option.isNone_iff_eq_none, decide_eq_true_eq] at hlive
    rcases session_created h hget with hk | ⟨s, hs, hsame, hkept⟩
    · exact List.mem_cons.mpr (Or.inl hk)
    · refine List.mem_cons_of_mem _ ?_
      have hunrevoked := hsame.unrevoked hlive.1.2
      obtain ⟨row, hrow, hid, _⟩ := hcounting.complete hs (hsame.2.1.symm.trans hlive.1.1)
        hunrevoked (hsame.2.2.2.1 ▸ lt_of_le_of_lt hnow hlive.2)
      rw [← List.take_append_drop ((counted args found m'.db).length + 1 - maxActiveSessions)
        (counted args found m'.db)] at hrow
      rcases List.mem_append.mp hrow with htake | hdrop
      · exact absurd hid (hkept hlive.1.2 row htake)
      · exact List.mem_map.mpr ⟨row, hdrop, hid⟩
  have hlength := Table.length_select_le hkeys
  rw [List.length_cons, List.length_map, List.length_drop] at hlength
  unfold liveSessions maxActiveSessions at *
  omega

/-- The sessions of the user that `d'` has revoked were active in `d`, and no
active session that is left was created before them. -/
def OldestEvicted (args : CreateArgs) (d d' : Db) : Prop :=
  ∀ k s s', d.sessions.get k = some s → s.revokedAt = none →
    d'.sessions.get k = some s' → s'.revokedAt.isSome →
    (s.userId = args.userId ∧ args.now < s.expiresAt) ∧
    ∀ k' t t', d.sessions.get k' = some t → t.userId = args.userId → t.revokedAt = none →
      args.now < t.expiresAt → d'.sessions.get k' = some t' → t'.revokedAt = none →
      s.createdAt ≤ t.createdAt

/-- A session that is there already is where the evictions leave it. -/
theorem session_evictions (h : (Event.session (.created args found result)).Agrees m') {k : Uuid}
    {s s' : Session} (hs : m'.db.sessions.get k = some s)
    (hs' : ((Event.session (.created args found result)).change m'.db).sessions.get k = some s') :
    ((overflow args found m'.db).foldl (fun T row => evicted args.now row T)
      m'.db.sessionTables).sessions.get k = some s' := by
  have hget : ((Event.session (.created args found result)).change
      m'.db).sessionTables.sessions.get k = some s' := hs'
  obtain ⟨s₁, hs₁⟩ := evictions_stored args.now (overflow args found m'.db)
    (T := m'.db.sessionTables) hs
  rw [tables_created h] at hget
  simp only [SessionTables.create, Table.get_add, hs₁, Option.some_or] at hget
  rw [hs₁, hget]

theorem oldest_evicted (hcounting : Counting m m' args found)
    (h : (Event.session (.created args found result)).Agrees m') :
    OldestEvicted args m'.db ((Event.session (.created args found result)).change m'.db) := by
  intro k s s' hs hunrevoked hs' hrevoked
  have hevicted : ∃ row ∈ overflow args found m'.db, row.sessionId = k := by
    by_contra hnone
    have hkept := evictions_other args.now (T := m'.db.sessionTables)
      fun row hrow heq => hnone ⟨row, hrow, heq⟩
    rw [session_evictions h hs hs'] at hkept
    change some s' = m'.db.sessions.get k at hkept
    rw [hs, Option.some.injEq] at hkept
    rw [hkept, hunrevoked] at hrevoked
    cases hrevoked
  obtain ⟨row, hrow, hk⟩ := hevicted
  obtain ⟨candidate, _, hlocked⟩ := List.mem_filterMap.mp (List.mem_of_mem_take hrow)
  obtain ⟨hstored, hactive, _, _⟩ := lockedRow_eq_some hlocked
  have hsession : row.session = s := by
    have hget := hstored.session
    rw [hk] at hget
    exact Option.some.inj (hget.symm.trans hs)
  refine ⟨?_, ?_⟩
  · have howner := user_of_active hcounting.after hstored hactive
    rw [hsession] at howner hactive
    simp only [active, Bool.and_eq_true, decide_eq_true_eq] at hactive
    exact ⟨howner, hactive.2⟩
  · intro k' t t' ht huser htrevoked hexpiry ht' hleft
    obtain ⟨row', hrow', hk', hsession'⟩ := hcounting.complete ht huser htrevoked hexpiry
    have hordered := hcounting.ordered
    rw [← List.take_append_drop ((counted args found m'.db).length + 1 - maxActiveSessions)
      (counted args found m'.db)] at hordered hrow'
    rcases List.mem_append.mp hrow' with htake | hdrop
    · have hsome := SessionTables.revoked_of_revocations htake
        (hk'.symm ▸ session_evictions h ht ht')
      rw [hleft] at hsome
      cases hsome
    · rw [← hsession, ← hsession']
      exact (List.pairwise_append.mp hordered).2.2 row hrow row' hdrop

end Step

/-- Live sessions of a user after an event that is no login of the user. -/
theorem live_other {m : Core Db World} {e : Event} {user : Uuid} (h : e.Agrees m)
    (hother : ∀ args found result, e = .session (.created args found result) →
      args.userId ≠ user) (now : Time) :
    (liveSessions user now (e.change m.db)).length ≤ (liveSessions user now m.db).length := by
  have hkeys : ∀ entry ∈ liveSessions user now (e.change m.db),
      entry.1 ∈ (liveSessions user now m.db).map Prod.fst := by
    rintro ⟨k, s'⟩ hmem
    obtain ⟨hget, hlive⟩ := Table.mem_select.mp hmem
    simp only [Bool.and_eq_true, beq_iff_eq, Option.isNone_iff_eq_none, decide_eq_true_eq] at hlive
    obtain ⟨s, hs, hsame⟩ := (effect_change h).session_before hother hget hlive.1.1
    refine List.mem_map.mpr ⟨(k, s), Table.mem_select.mpr ⟨hs, ?_⟩, rfl⟩
    simp [← hsame.2.1, hlive.1.1, hsame.unrevoked hlive.1.2, ← hsame.2.2.2.1, hlive.2]
  have hlength := Table.length_select_le hkeys
  rwa [List.length_map] at hlength

theorem live_later {user : Uuid} {now later : Time} (d : Db) (h : now ≤ later) :
    (liveSessions user later d).length ≤ (liveSessions user now d).length := by
  have hkeys : ∀ entry ∈ liveSessions user later d,
      entry.1 ∈ (liveSessions user now d).map Prod.fst := by
    rintro ⟨k, s⟩ hmem
    obtain ⟨hget, hlive⟩ := Table.mem_select.mp hmem
    simp only [Bool.and_eq_true, beq_iff_eq, Option.isNone_iff_eq_none, decide_eq_true_eq] at hlive
    refine List.mem_map.mpr ⟨(k, s), Table.mem_select.mpr ⟨hget, ?_⟩, rfl⟩
    simp [hlive.1.1, hlive.1.2, lt_of_le_of_lt h hlive.2]
  have hlength := Table.length_select_le hkeys
  rwa [List.length_map] at hlength

/-- The clock reading that a login counts with is not ahead of the clock. -/
theorem Creates.now_le {env : Env} {c m : Core Db World} (hinit : Initial c)
    (h : History env c m) {i : Nat} {args : CreateArgs} {found : List SessionMatch}
    (hcreates : Creates env i (trace i m.store.log) args found) : args.now ≤ m.store.now := by
  generalize htrace : trace i m.store.log = t at hcreates
  cases hcreates with
  | intro hready =>
      refine h.clock_le hinit.log (i := i) (mem_trace_iff.mp ?_)
      rw [htrace]
      simp [SessionControl.createArgs]

theorem cap_of_history {env : Env} {c m : Core Db World} (hinit : Initial c)
    (h : History env c m) (hfree : Uncontended m.store.log) (user : Uuid) :
    (liveSessions user m.store.now m.db).length ≤ maxActiveSessions := by
  refine Ledger.Leads.preserves (P := fun m => Uncontended m.store.log → ∀ user,
    (liveSessions user m.store.now m.db).length ≤ maxActiveSessions) h ?_ ?_ ?_ hfree user
  · intro _ user
    simp [liveSessions, hinit.sessions]
  · rintro m i e hm ih _ ⟨hfollows, hagrees⟩ hfree user
    change Uncontended (e.apply i m).store.log at hfree
    rw [Event.log_apply] at hfree
    change (liveSessions user (e.stored m.store).now (e.change m.db)).length ≤ _
    rw [Event.now_stored]
    have hbefore := ih (hfree.of_suffix (List.suffix_cons _ _)) user
    by_cases hlogin : ∃ args found result, e = .session (.created args found result) ∧
        args.userId = user
    · obtain ⟨args, found, result, rfl, rfl⟩ := hlogin
      obtain ⟨m₀, _, hcounting⟩ := counting_of_uncontended hinit hm hfollows hfree
      exact cap_created hcounting hagrees (hfollows.now_le hinit hm)
    · exact (live_other hagrees (fun args found result he huser =>
        hlogin ⟨args, found, result, he, huser⟩) _).trans hbefore
  · intro m n hm ih hfree user
    exact (live_later _ (Nat.le_add_right _ _)).trans (ih hfree user)

/-- In every run in which the logins of a user do not commit between each
other's count and commit, no user has more than the maximum of active sessions,
and every login evicts the oldest ones. -/
theorem cap_of_uncontended {env : Env} {c : Core Db World} (hinit : Initial c)
    {s : Config schema World AuthError Result} (h : (application env).Reachable c s)
    (hfree : Uncontended s.core.store.log) :
    (∀ user, (liveSessions user s.core.store.now s.core.db).length ≤ maxActiveSessions) ∧
      ∀ later earlier i args found result,
        s.core.store.log = later ++ (i, .session (.created args found result)) :: earlier →
        OldestEvicted args (replay c.db earlier)
          (replay c.db ((i, .session (.created args found result)) :: earlier)) := by
  have hhistory := history_of_reachable hinit.log h
  refine ⟨cap_of_history hinit hhistory hfree, ?_⟩
  intro later earlier i args found result hlog
  obtain ⟨m, hm, rfl, hfollows, hagrees, _⟩ := hhistory.around hinit.log hlog
  rw [hlog] at hfree
  obtain ⟨m₀, _, hcounting⟩ := counting_of_uncontended hinit hm hfollows
    (hfree.of_suffix (List.suffix_append _ _))
  rw [replay_cons, ← hm.db_eq hinit.log]
  exact oldest_evicted hcounting hagrees

/-- A login that commits. -/
def Event.logsIn : Event → Bool
  | session (.created ..) => true
  | _ => false

theorem uncontended_of_single {log : List (Nat × Event)}
    (h : (log.countP fun entry => entry.2.logsIn) ≤ 1) : Uncontended log := by
  intro later between earlier i args found result now candidates hlog j args' found' result' hmem
  have hpos : 0 < between.countP fun entry => entry.2.logsIn :=
    List.countP_pos_iff.mpr ⟨_, hmem, rfl⟩
  have hself : (Event.session (.created args found result)).logsIn = true := rfl
  rw [hlog, List.countP_append, List.countP_cons, List.countP_append, if_pos hself] at h
  omega

theorem cap_after_signIn :
    ∃ s, (application sampleEnv).Reachable sampleCore s ∧
      (liveSessions (.given 1) s.core.store.now s.core.db).length = 1 ∧
      ∀ user, (liveSessions user s.core.store.now s.core.db).length ≤ maxActiveSessions := by
  obtain ⟨s, hreach, hs⟩ := Service.reachable_of_run
    (show ((application sampleEnv).run (Service.start sampleCore) (signIn 0 "ann")).map
      (fun s => (s.core.store.log.countP fun entry => entry.2.logsIn,
        (liveSessions (.given 1) s.core.store.now s.core.db).length)) = some (1, 1)
      by decide +kernel)
  obtain ⟨hcount, hlive⟩ := Prod.mk.inj hs
  exact ⟨s, hreach, hlive, (cap_of_uncontended sampleCore_initial hreach
    (uncontended_of_single hcount.le)).1⟩

/-- `n` logins of one user that all count before any of them commits. -/
def crowd (n : Nat) : List SampleMove :=
  (List.range n).flatMap (fun i => perform i (.loginPassword "ann" "pw" "phone" none) 13) ++
    (List.range n).flatMap (fun i =>
      perform (100 + i) (.createSession (.drawn i 0) .web "phone" none) 6) ++
    (List.range n).flatMap fun i => steps (100 + i) 5

/-- Eleven concurrent logins leave eleven active sessions. -/
theorem cap_exceeded :
    Initial sampleCore ∧ ∃ s, (application sampleEnv).Reachable sampleCore s ∧
      maxActiveSessions < (liveSessions (.given 1) s.core.store.now s.core.db).length := by
  obtain ⟨s, hreach, hs⟩ := Service.reachable_of_run
    (show ((application sampleEnv).run (Service.start sampleCore) (crowd 11)).map
      (fun s => (liveSessions (.given 1) s.core.store.now s.core.db).length) = some 11
      by decide +kernel)
  exact ⟨sampleCore_initial, s, hreach, by rw [hs]; decide⟩

end AuthCore
