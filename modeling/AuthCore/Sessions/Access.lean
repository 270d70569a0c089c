/-
Access tokens.  A commit stores the identifier of the token it is about to
sign, and whatever later replaces that identifier revokes it in the store, so
the token of a session that is accepted is the one the session names.
-/
import AuthCore.Sessions.Invariant

namespace AuthCore

open Interleave Relational SessionRepository

/-- Some call has inserted rows under identifiers like `k`. -/
def Known (k : Uuid) (log : List (Nat × Event)) : Prop :=
  ∃ j n, k = .drawn j n ∧ ∃ e ∈ trace j log, e.inserts = true

theorem Known.of_suffix {k : Uuid} {log log' : List (Nat × Event)} (h : Known k log)
    (hsuffix : log <:+ log') : Known k log' := by
  obtain ⟨newer, rfl⟩ := hsuffix
  obtain ⟨j, n, rfl, e, he, hinserts⟩ := h
  refine ⟨j, n, rfl, e, ?_, hinserts⟩
  rw [trace_append]
  exact List.mem_append_right _ he

section Events

variable {env : Env} {m : Core Db World} {i : Nat} {e : Event} {k : Uuid}

/-- What is stored under a known identifier is never inserted again. -/
theorem descends_event (hfollows : e.Follows env i (trace i m.store.log)) (hagrees : e.Agrees m)
    (hknown : Known k m.store.log) :
    SessionTables.Descends k m.db.sessionTables (e.change m.db).sessionTables := by
  have heffect := effect_change hagrees
  generalize (e.change m.db).sessionTables = T' at heffect ⊢
  obtain ⟨j, n, rfl, e', he', hinserts⟩ := hknown
  have hother : (∀ e ∈ trace i m.store.log, e.inserts = false) →
      ∀ s, .drawn j n ≠ Uuid.drawn i s := by
    intro hnone s heq
    cases heq
    rw [hnone e' he'] at hinserts
    cases hinserts
  cases heffect with
  | upkeep hsteps => exact .upkeep _ hsteps
  | created hsteps hfree =>
      obtain ⟨hnone, hfamily, hsession, htoken, _⟩ := Creates.inserts hfollows
      refine (SessionTables.Descends.upkeep _ hsteps).trans (.of_create ⟨?_, ?_, ?_⟩ _)
      · rw [hfamily]
        exact hother hnone _
      · rw [htoken]
        exact hother hnone _
      · rw [hsession]
        exact hother hnone _
  | rotated hpresented hrotatable hfree =>
      obtain ⟨hnone, hid⟩ := Rotates.inserts hfollows
      refine (SessionTables.Descends.of_renew ?_ _).trans (.of_scope _ _ _ _ _ _)
      rw [hid]
      exact hother hnone _

/-- The tables keep the access token of every session they keep. -/
def SameTokens (T T' : SessionTables) : Prop :=
  ∀ k s', T'.sessions.get k = some s' → ∃ s, T.sessions.get k = some s ∧
    s'.accessJti = s.accessJti

theorem SameTokens.refl (T : SessionTables) : SameTokens T T :=
  fun _ s hs => ⟨s, hs, rfl⟩

theorem SameTokens.trans {T T' T'' : SessionTables} (h : SameTokens T T')
    (h' : SameTokens T' T'') : SameTokens T T'' := by
  intro k s'' hs''
  obtain ⟨s', hs', hjti'⟩ := h' k s'' hs''
  obtain ⟨s, hs, hjti⟩ := h k s' hs'
  exact ⟨s, hs, hjti'.trans hjti⟩

theorem SameTokens.of_revoke (f k : Uuid) (mark : Option Time → Time)
    (reason : Option String → Option String) (T : SessionTables) :
    SameTokens T (T.revoke f k mark reason) := by
  intro j s' hs'
  obtain ⟨s, hs, rfl⟩ := Table.get_update_eq_some.mp hs'
  refine ⟨s, hs, ?_⟩
  split
  · rfl
  · rfl

theorem SameTokens.of_delete (f : Uuid) (T : SessionTables) : SameTokens T (T.delete f) :=
  fun _ s hs => ⟨s, (Table.get_delete_eq_some.mp hs).1, rfl⟩

theorem SameTokens.of_revocations {mark : Option Time → Time}
    {reason : Option String → Option String} (rows : List Locked) (T : SessionTables) :
    SameTokens T
      (rows.foldl (fun T row => T.revoke row.session.familyId row.sessionId mark reason) T) := by
  induction rows generalizing T with
  | nil => exact .refl T
  | cons row rest ih => exact (SameTokens.of_revoke _ _ _ _ T).trans (ih _)

/-- A commit that gives sessions new access tokens. -/
def Event.stamps : Event → Bool
  | session (.created ..) => true
  | session (.rotated ..) => true
  | session (.scoped ..) => true
  | workspace (.offboarded ..) => true
  | _ => false

/-- Every stored identifier of an access token is the one from before or one
that call `i` has drawn; a replaced one is in `js`. -/
def Restamped (i : Nat) (js : List Uuid) (T T' : SessionTables) : Prop :=
  ∀ k s', T'.sessions.get k = some s' →
    (∃ s, T.sessions.get k = some s ∧ s'.accessJti = s.accessJti) ∨
      (∃ n, s'.accessJti = .drawn i n) ∧ ∀ s, T.sessions.get k = some s → s.accessJti ∈ js

theorem Restamped.scope {T T' : SessionTables} {js : List Uuid} (h : Restamped i js T T')
    {k : Uuid} (hk : ∀ s, T.sessions.get k = some s → s.accessJti ∈ js) (org : Option Uuid)
    (n : Nat) (now : Time) : Restamped i js T (T'.scope k org (.drawn i n) now) := by
  intro j s'' hs''
  obtain ⟨s', hs', rfl⟩ := Table.get_update_eq_some.mp hs''
  by_cases hj : j = k
  · subst hj
    exact Or.inr ⟨⟨n, by simp⟩, hk⟩
  · have hsame := h j s' hs'
    simpa [hj] using hsame

theorem Creates.drawn {t : List Event} {args : CreateArgs} {found : List SessionMatch}
    (h : Creates env i t args found) : args.accessJti = .drawn i 2 := by
  cases h
  rfl

theorem Rotates.drawn {t : List Event} {args : RotateArgs} {found : Option TokenMatch}
    (h : Rotates env i t args found) : args.newAccessJti = .drawn i 1 := by
  cases h
  rfl

theorem Scopes.drawn {claims : AccessClaims} {workspace : WorkspaceSummary} {t : List Event}
    {args : ScopeArgs} {found : Option SessionMatch} (h : Scopes i claims workspace t args found) :
    args.accessJti = .drawn i 0 := by
  cases h
  rfl

theorem Offboards.drawn {t : List Event} {args : MemberArgs} {departure : Departure}
    (h : Offboards i t args departure) : args.call = i := by
  cases h
  rfl

/-- The session that a login inserts. -/
theorem stored_created {args : CreateArgs} {found : List SessionMatch} {result : CreatedSession}
    (hinv : SessionInvariant m) (hfollows : Creates env i (trace i m.store.log) args found)
    (hagrees : (Event.session (.created args found result)).Agrees m) :
    ((Event.session (.created args found result)).change m.db).sessions.get args.sessionId =
      some (newSession args) := by
  obtain ⟨change, halone, hchange⟩ := hagrees.commits rfl
  have htables := (alone_insertSession halone).2.2
  rw [hchange]
  change (change m.db).sessionTables.sessions.get args.sessionId = _
  rw [htables]
  simp only [SessionTables.create, Table.get_add, if_pos]
  cases hold : ((overflow args found m.db).foldl (fun T row => evicted args.now row T)
      m.db.sessionTables).sessions.get args.sessionId with
  | none => rfl
  | some s =>
      exfalso
      obtain ⟨s₀, hs₀, _⟩ := SameTokens.of_revocations _ _ _ _ hold
      have hunnamed := hinv.unnamed (n := 4) (Creates.inserts hfollows).1
      rw [← (Creates.inserts hfollows).2.2.1] at hunnamed
      exact hunnamed (Or.inr (Or.inr (by rw [hs₀]; rfl)))

theorem session_scope {T : SessionTables} {k : Uuid} {s : Session}
    (h : T.sessions.get k = some s) (org : Option Uuid) (jti : Uuid) (now : Time) :
    (T.scope k org jti now).sessions.get k =
      some { s with orgId := org, accessJti := jti, lastActivityAt := now } :=
  Table.get_update_eq_some.mpr ⟨s, h, by simp⟩

theorem Passed.unstamped {claims : AccessClaims} {base t : List Event} (h : Passed claims base t)
    (hbase : ∀ e ∈ base, e.stamps = false) : ∀ e ∈ t, e.stamps = false := by
  cases h with
  | @intro now revokedAt cutoff hcutoff =>
      intro e he
      simp only [List.mem_cons, List.mem_append] at he
      rcases he with rfl | hread | rfl | rfl | rfl | rfl | rfl | hold
      · rfl
      · unfold cutoffRead at hread
        split at hread
        · split at hread
          · rw [List.mem_singleton] at hread
            subst hread
            rfl
          · cases hread
        · cases hread
      · rfl
      · rfl
      · rfl
      · rfl
      · rfl
      · exact hbase e hold

theorem Passed.verified {claims : AccessClaims} {base t : List Event} (h : Passed claims base t) :
    .verified claims true ∈ t := by
  cases h
  simp

theorem Scopes.unstamped {claims : AccessClaims} {workspace : WorkspaceSummary} {t : List Event}
    {args : ScopeArgs} {found : Option SessionMatch} (h : Scopes i claims workspace t args found) :
    ∀ e ∈ t, e.stamps = false := by
  cases h with
  | intro hpassed haccessed =>
      intro e he
      simp only [List.mem_cons, List.mem_append] at he
      rcases he with rfl | rfl | haccess | hauth
      · rfl
      · rfl
      · cases haccessed with
        | personal _ =>
            rw [List.mem_singleton] at haccess
            subst haccess
            rfl
        | member _ _ =>
            simp only [List.mem_cons, List.not_mem_nil, or_false] at haccess
            rcases haccess with rfl | rfl
            · rfl
            · rfl
      · refine hpassed.unstamped ?_ e hauth
        intro e he
        rw [List.mem_singleton] at he
        subst he
        rfl

end Events

section Runs

variable {env : Env} {c m m' : Core Db World} {i : Nat} {claims : AccessClaims}

/-- The commit that an access token was signed after. -/
structure Origin (env : Env) (i : Nat) (claims : AccessClaims) (m : Core Db World) (e : Event) :
    Prop where
  follows : e.Follows env i (trace i m.store.log)
  agrees : e.Agrees m
  stamps : e.stamps = true
  first : ∀ e' ∈ trace i m.store.log, e'.stamps = false
  read : ∃ now, .clock now ∈ trace i m.store.log ∧ claims.issuedAt = wholeSecond now ∧
    claims.expiresAt = wholeSecond (now + seconds accessTtlSeconds)
  drawn : ∃ n, claims.jti = .drawn i n
  session : ∃ s, (e.change m.db).sessions.get claims.sessionId = some s ∧
    s.accessJti = claims.jti ∧ s.userId = claims.userId ∧
    (s.familyId = claims.familyId ∨ ∃ base ∈ m.store.issued, base.sessionId = claims.sessionId ∧
      base.familyId = claims.familyId)

theorem Creates.unstamped {t : List Event} {args : CreateArgs} {found : List SessionMatch}
    (h : Creates env i t args found) : ∀ e ∈ t, e.stamps = false := by
  cases h
  simp [Event.stamps]

theorem Rotates.unstamped {t : List Event} {args : RotateArgs} {found : Option TokenMatch}
    (h : Rotates env i t args found) :
    (∀ e ∈ t, e.stamps = false) ∧ .clock args.now ∈ t := by
  cases h
  simp [Event.stamps, SessionControl.rotateArgs]

theorem found_of_scopeFound {args : ScopeArgs} {found : Option SessionMatch} {d : Db} {k : Uuid}
    (htells : SessionEvent.Tells d (.scopeFound args found))
    (h : found.map (·.sessionId) = some k) : k = args.sessionId := by
  obtain ⟨row, rfl, rfl⟩ := Option.map_eq_some_iff.mp h
  have hrow := List.mem_of_mem_head? (Option.mem_def.mpr htells.symm)
  obtain ⟨entry, hentry, rfl⟩ := List.mem_map.mp hrow
  obtain ⟨_, hcondition⟩ := Table.mem_select.mp hentry
  split at hcondition
  · cases hcondition
  · simp only [Bool.and_eq_true, beq_iff_eq] at hcondition
    exact hcondition.1

theorem origin_of_signs (hinit : Initial c) (h : History env c m)
    (hsigns : Signs i (trace i m.store.log) claims) :
    ∃ m₀ e, History env c m₀ ∧ Origin env i claims m₀ e ∧ History env (e.apply i m₀) m := by
  generalize htrace : trace i m.store.log = t at hsigns
  cases hsigns with
  | @created token workflow args found result now t _ hclock =>
      obtain ⟨m₀, hm₀, rfl, hfollows, hagrees, hrest⟩ :=
        h.recorded hinit.log (show _ = [] ++ _ from htrace)
      refine ⟨m₀, _, hm₀, ?_, hrest⟩
      obtain ⟨change, halone, _⟩ := hagrees.commits rfl
      have hrecord := (alone_insertSession halone).2.1
      dsimp only at hrecord
      refine ⟨hfollows, hagrees, rfl, Creates.unstamped hfollows, ⟨now, hclock, rfl, rfl⟩,
        ⟨2, Creates.drawn hfollows⟩, newSession args, ?_, rfl, rfl, Or.inl ?_⟩
      · rw [hrecord]
        exact stored_created (sessionInvariant_of_history hinit hm₀) hfollows hagrees
      · rw [hrecord]
        rfl
  | @rotated args found result record t hstatus hrecord =>
      obtain ⟨m₀, hm₀, rfl, hfollows, hagrees, hrest⟩ := h.recorded hinit.log htrace
      refine ⟨m₀, _, hm₀, ?_, hrest⟩
      obtain ⟨hfirst, hclock⟩ := Rotates.unstamped hfollows
      refine ⟨hfollows, hagrees, rfl, hfirst, ⟨args.now, hclock, rfl, rfl⟩,
        ⟨1, Rotates.drawn hfollows⟩, ?_⟩
      obtain ⟨change, halone, hchange⟩ := hagrees.commits rfl
      have hrotation := rotation_of_rotateMatch halone
      rw [hchange]
      change ∃ s, (change m₀.db).sessionTables.sessions.get _ = some s ∧ _
      generalize (change m₀.db).sessionTables = T' at hrotation ⊢
      dsimp only at hrotation
      cases hrotation with
      | unknown => cases hstatus
      | lost _ => cases hstatus
      | reused _ _ => cases hstatus
      | revoked _ _ => cases hstatus
      | ended _ _ hother _ => exact absurd hstatus hother
      | rotated hpresented hrotatable hlive hfree =>
          obtain rfl := Option.some.inj hrecord
          exact ⟨_, session_scope hpresented.stored.session _ _ _, rfl, rfl, Or.inl rfl⟩
  | @«scoped» base workspace args found previous t hscopes =>
      obtain ⟨m₀, hm₀, rfl, hfollows, hagrees, hrest⟩ :=
        h.recorded hinit.log (show _ = [_] ++ _ from htrace)
      refine ⟨m₀, _, hm₀, ?_, hrest⟩
      have hfirst := hscopes.unstamped
      have hdrawn := hscopes.drawn
      generalize ht : trace i m₀.store.log = t at hscopes
      cases hscopes with
      | @intro id access auth now found hpassed haccessed =>
          refine ⟨hfollows, hagrees, rfl, hfirst, ⟨now, by rw [ht]; simp, rfl, rfl⟩,
            ⟨0, rfl⟩, ?_⟩
          obtain ⟨change, halone, hchange⟩ := hagrees.commits rfl
          rcases alone_scopeMatch halone with
            ⟨hnone, _⟩ | ⟨row, hstored, hscopable, hfound, _, htables⟩
          · cases hnone
          · rw [hchange]
            change ∃ s, (change m₀.db).sessionTables.sessions.get _ = some s ∧ _
            rw [htables]
            obtain ⟨m₁, _, _, _, hasked, _⟩ := hm₀.recorded hinit.log (show _ = [] ++ _ from ht)
            have hsession := found_of_scopeFound hasked.tells hfound
            have hissued : base ∈ m₀.store.issued := by
              refine hm₀.issued_of_verified hinit.log (i := i) (mem_trace_iff.mp ?_)
              rw [ht]
              simp [hpassed.verified]
            simp only [scopable, Bool.and_eq_true, beq_iff_eq] at hscopable
            have hget := hstored.session
            rw [hsession] at hget ⊢
            exact ⟨_, session_scope hget _ _ _, rfl, hscopable.1, Or.inr ⟨base, hissued, rfl, rfl⟩⟩

theorem origin_of_issued (hinit : Initial c) (h : History env c m)
    (hissued : claims ∈ m.store.issued) :
    ∃ i m₀ e, History env c m₀ ∧ Origin env i claims m₀ e ∧ History env (e.apply i m₀) m := by
  obtain ⟨i, hsigned⟩ := h.signed_of_issued hinit.issued hissued
  obtain ⟨later, earlier, hsplit⟩ := List.append_of_mem hsigned
  obtain ⟨m₁, hm₁, rfl, hsigns, hagrees, hrest₁⟩ := h.around hinit.log hsplit
  obtain ⟨m₀, e, hm₀, horigin, hrest₀⟩ := origin_of_signs hinit hm₁ hsigns
  exact ⟨i, m₀, e, hm₀, horigin, (hrest₀.event hsigns hagrees).trans hrest₁⟩

/-- Nothing is inserted under a known identifier for the rest of a run. -/
theorem descends_of_history {k : Uuid} (h : History env m m') (hknown : Known k m.store.log) :
    SessionTables.Descends k m.db.sessionTables m'.db.sessionTables := by
  refine (Ledger.Leads.preserves (P := fun x => Known k x.store.log ∧
    SessionTables.Descends k m.db.sessionTables x.db.sessionTables) h ⟨hknown, .refl _ _⟩ ?_ ?_).2
  · rintro x i e _ ⟨hknown, hdescends⟩ _ ⟨hfollows, hagrees⟩
    refine ⟨?_, hdescends.trans (descends_event hfollows hagrees hknown)⟩
    change Known k (e.apply i x).store.log
    rw [Event.log_apply]
    exact hknown.of_suffix (List.suffix_cons _ _)
  · rintro x n _ hx
    exact hx

theorem known_of_named (hinit : Initial c) (h : History env c m) {k : Uuid}
    (hnamed : m.db.sessionTables.Named k) : Known k m.store.log :=
  (sessionInvariant_of_history hinit h).named k hnamed

/-- The session of an access token has been inserted. -/
theorem Origin.known {e : Event} (hinit : Initial c) (h : History env c m)
    (horigin : Origin env i claims m e) : Known claims.sessionId (e.apply i m).store.log := by
  obtain ⟨s, hs, _⟩ := horigin.session
  refine known_of_named hinit (h.event horigin.follows horigin.agrees) (Or.inr (Or.inr ?_))
  change ((e.change m.db).sessions.get claims.sessionId).isSome
  rw [hs]
  rfl

/-- What a token says about its session is true as long as the session exists. -/
def Owned (claims : AccessClaims) (m : Core Db World) : Prop :=
  Known claims.sessionId m.store.log ∧
    ∀ s, m.db.sessions.get claims.sessionId = some s →
      s.familyId = claims.familyId ∧ s.userId = claims.userId

theorem Owned.later (h : Owned claims m) (hlater : History env m m') : Owned claims m' := by
  obtain ⟨hknown, howned⟩ := h
  refine ⟨hknown.of_suffix (History.log_suffix hlater), fun s' hs' => ?_⟩
  obtain ⟨s, hs, hfamily, huser, _⟩ := (descends_of_history hlater hknown).session s' hs'
  obtain ⟨hfamily', huser'⟩ := howned s hs
  exact ⟨hfamily.trans hfamily', huser.trans huser'⟩

theorem owned_of_issued (hinit : Initial c) (h : History env c m)
    (hissued : claims ∈ m.store.issued) : Owned claims m := by
  refine Ledger.Leads.preserves (P := fun m => ∀ claims ∈ m.store.issued, Owned claims m) h ?_ ?_
    ?_ claims hissued
  · intro claims hissued
    rw [hinit.issued] at hissued
    cases hissued
  · rintro m i e hm ih _ ⟨hfollows, hagrees⟩ claims hissued
    have hstep : History env m (e.apply i m) := History.event .refl hfollows hagrees
    change Owned claims (e.apply i m)
    rcases e.issued_stored m.store with hsame | ⟨signed, rfl, hnew⟩
    · exact (ih claims (hsame ▸ hissued)).later hstep
    · change claims ∈ (Event.stored (.signed signed) m.store).issued at hissued
      rw [hnew] at hissued
      rcases List.mem_cons.mp hissued with rfl | hold
      · -- the session that the commit before the signature left behind
        obtain ⟨m₀, e, hm₀, horigin, hrest⟩ := origin_of_signs hinit hm hfollows
        have hknown := horigin.known hinit hm₀
        refine Owned.later ⟨hknown.of_suffix (History.log_suffix hrest), fun s' hs' => ?_⟩ hstep
        obtain ⟨s, hs, _, huser, hfamily⟩ := horigin.session
        obtain ⟨s₀, hs₀, hfamily', huser', _⟩ := (descends_of_history hrest hknown).session s' hs'
        obtain rfl := Option.some.inj (hs.symm.trans hs₀)
        refine ⟨?_, huser'.trans huser⟩
        rcases hfamily with hfamily | ⟨base, hbase, hsession, hfamily⟩
        · exact hfamily'.trans hfamily
        · have hmono : base ∈ m.store.issued :=
            (History.trans (.event .refl horigin.follows horigin.agrees) hrest).issued_mono hbase
          rw [← hfamily]
          exact ((ih base hmono).2 s' (hsession ▸ hs')).1
      · exact (ih claims hold).later hstep
  · intro m n _ ih claims hissued
    exact ih claims hissued

end Runs

end AuthCore
