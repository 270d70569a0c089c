/-
Theft of refresh tokens.  A rotated token stays in the tables as used, so
whoever presents it again is told that it was reused, and from that commit on
nothing of its family works any more.
-/
import AuthCore.Sessions.LiveToken

namespace AuthCore

open Interleave Relational SessionRepository

namespace SessionTables

/-- The tokens and the session of family `f` are still there. -/
structure Survives (f : Uuid) (T T' : SessionTables) : Prop where
  token : ∀ k t, T.tokens.get k = some t → t.familyId = f →
    ∃ t', T'.tokens.get k = some t' ∧ t'.familyId = f
  session : ∀ k s, T.sessions.get k = some s → s.familyId = f →
    ∃ s', T'.sessions.get k = some s' ∧ s'.familyId = f

variable {f k : Uuid} {T T' T'' : SessionTables}

theorem Survives.refl (f : Uuid) (T : SessionTables) : Survives f T T :=
  ⟨fun _ t ht hf => ⟨t, ht, hf⟩, fun _ s hs hf => ⟨s, hs, hf⟩⟩

theorem Survives.trans (h : Survives f T T') (h' : Survives f T' T'') : Survives f T T'' := by
  constructor
  · intro k t ht hf
    obtain ⟨t', ht', hf'⟩ := h.token k t ht hf
    exact h'.token k t' ht' hf'
  · intro k s hs hf
    obtain ⟨s', hs', hf'⟩ := h.session k s hs hf
    exact h'.session k s' hs' hf'

theorem Survives.of_revoke (f g k : Uuid) (mark : Option Time → Time)
    (reason : Option String → Option String) (T : SessionTables) :
    Survives f T (T.revoke g k mark reason) := by
  constructor
  · intro j t ht hf
    refine ⟨_, Table.get_update_eq_some.mpr ⟨t, ht, rfl⟩, ?_⟩
    split
    · exact hf
    · exact hf
  · intro j s hs hf
    refine ⟨_, Table.get_update_eq_some.mpr ⟨s, hs, rfl⟩, ?_⟩
    split
    · exact hf
    · exact hf

theorem Survives.of_scope (f k : Uuid) (org : Option Uuid) (jti : Uuid) (now : Time)
    (T : SessionTables) : Survives f T (T.scope k org jti now) := by
  refine ⟨fun _ t ht hf => ⟨t, ht, hf⟩, ?_⟩
  intro j s hs hf
  refine ⟨_, Table.get_update_eq_some.mpr ⟨s, hs, rfl⟩, ?_⟩
  split
  · exact hf
  · exact hf

theorem Survives.of_create (f : Uuid) (args : CreateArgs) (T : SessionTables) :
    Survives f T (T.create args) := by
  constructor
  · intro k t ht hf
    refine ⟨t, ?_, hf⟩
    simp [SessionTables.create, Table.get_add, ht]
  · intro k s hs hf
    refine ⟨s, ?_, hf⟩
    simp [SessionTables.create, Table.get_add, hs]

theorem Survives.of_renew (f : Uuid) (args : RotateArgs) (k : Uuid) (token : RefreshToken)
    (family : RefreshTokenFamily) (T : SessionTables) :
    Survives f T (T.renew args k token family) := by
  refine ⟨?_, fun _ s hs hf => ⟨s, hs, hf⟩⟩
  intro j t ht hf
  have hget := Table.get_update_eq_some (p := fun id t => t.familyId == token.familyId && id == k)
    (g := fun t => { t with usedAt := some args.now, revokedAt := some args.now }).mpr
      ⟨t, ht, rfl⟩
  refine ⟨_, by rw [SessionTables.renew, Table.get_add, hget, Option.some_or], ?_⟩
  split
  · exact hf
  · exact hf

theorem Survives.of_delete {g : Uuid} (hne : g ≠ f) (T : SessionTables) :
    Survives f T (T.delete g) := by
  constructor
  · intro k t ht hf
    exact ⟨t, Table.get_delete_eq_some.mpr ⟨ht, by simpa [hf] using hne.symm⟩, hf⟩
  · intro k s hs hf
    exact ⟨s, Table.get_delete_eq_some.mpr ⟨hs, by simpa [hf] using hne.symm⟩, hf⟩

theorem Survives.of_foldl {α : Type} {step : SessionTables → α → SessionTables}
    (h : ∀ T a, Survives f T (step T a)) (rows : List α) (T : SessionTables) :
    Survives f T (rows.foldl step T) := by
  induction rows generalizing T with
  | nil => exact .refl f T
  | cons row rest ih => exact (h T row).trans (ih _)

end SessionTables

section Runs

variable {env : Env} {c m m' : Core Db World} {i : Nat} {k : Uuid}

/-- Only the erasure of its account removes what a family owns. -/
theorem survives_event {e : Event} {f : Uuid} {family : RefreshTokenFamily} (h : e.Agrees m)
    (hfamily : m.db.families.get f = some family) (hspared : e.erases family.userId = false) :
    SessionTables.Survives f m.db.sessionTables (e.change m.db).sessionTables := by
  have htables := tables_change h
  generalize (e.change m.db).sessionTables = T' at htables ⊢
  cases htables with
  | same => exact .refl _ _
  | created _ _ =>
      refine SessionTables.Survives.trans (.of_foldl (fun T row => ?_) _ _) (.of_create _ _ _)
      exact .of_revoke _ _ _ _ _ _
  | rotated hrotation =>
      cases hrotation with
      | unknown => exact .refl _ _
      | lost _ => exact .refl _ _
      | reused _ _ => exact .of_revoke _ _ _ _ _ _
      | revoked _ _ => exact .refl _ _
      | ended _ _ _ _ => exact .of_revoke _ _ _ _ _ _
      | rotated _ _ _ _ =>
          exact SessionTables.Survives.trans (.of_renew _ _ _ _ _ _) (.of_scope _ _ _ _ _ _)
  | revoked _ _ => exact .of_revoke _ _ _ _ _ _
  | revokedAll => exact .of_foldl (fun T row => .of_revoke _ _ _ _ _ _) _ _
  | «scoped» _ _ _ => exact .of_scope _ _ _ _ _ _
  | offboarded _ => exact .of_foldl (fun T entry => .of_scope _ _ _ _ _ _) _ _
  | @erased args email found result =>
      refine .of_foldl (fun T g => ?_) _ _
      split
      · rename_i herasable
        refine .of_delete (fun heq => ?_) _
        subst heq
        simp only [erasable, hfamily, beq_iff_eq] at herasable
        simp [Event.erases, herasable] at hspared
      · exact .refl _ _

/-- A stored token with its family, from one state to a later one. -/
structure Carried (k f : Uuid) (d d' : Db) : Prop where
  token : ∀ t, d.tokens.get k = some t → ∃ t', d'.tokens.get k = some t' ∧
    t'.familyId = t.familyId ∧ t'.tokenHash = t.tokenHash ∧ (t.usedAt.isSome → t'.usedAt.isSome)
  family : ∀ x, d.families.get f = some x → ∃ x', d'.families.get f = some x' ∧
    x'.userId = x.userId ∧ (x.revokedAt.isSome → x'.revokedAt.isSome)
  session : ∀ j s, d.sessions.get j = some s → s.familyId = f →
    ∃ s', d'.sessions.get j = some s' ∧ s'.familyId = f

theorem carried_of_spared (hinit : Initial c) (h : History env c m) (hlater : History env m m')
    {between : List (Nat × Event)} (hlog : m'.store.log = between ++ m.store.log)
    {t : RefreshToken} {family : RefreshTokenFamily} (ht : m.db.tokens.get k = some t)
    (hfamily : m.db.families.get t.familyId = some family)
    (hspared : ∀ entry ∈ between, entry.2.erases family.userId = false) :
    Carried k t.familyId m.db m'.db := by
  refine hlater.over (P := fun x between => (∀ entry ∈ between,
    entry.2.erases family.userId = false) → Carried k t.familyId m.db x.db) hlog ?_ ?_
    (fun _ _ _ _ hx => hx) hspared
  · intro _
    exact ⟨fun t ht => ⟨t, ht, rfl, rfl, fun h => h⟩, fun x hx => ⟨x, hx, rfl, fun h => h⟩,
      fun j s hs hf => ⟨s, hs, hf⟩⟩
  · intro x between i e hx _ hfollows hagrees ih hspared
    have hcarried := ih fun entry hentry => hspared entry (List.mem_cons_of_mem _ hentry)
    obtain ⟨family', hfamily', huser', _⟩ := hcarried.family family hfamily
    have hkept := survives_event hagrees hfamily'
      (by rw [huser']; exact hspared _ List.mem_cons_self)
    have hnext := (h.trans hx).event hfollows hagrees
    have hrest := (sessionInvariant_of_history hinit hnext).atRest
    obtain ⟨t', ht', hf', hhash', hused'⟩ := hcarried.token t ht
    obtain ⟨t'', ht'', hf''⟩ := hkept.token k t' ht' hf'
    refine ⟨?_, ?_, ?_⟩
    · intro t₀ ht₀
      obtain rfl := Option.some.inj (ht.symm.trans ht₀)
      have hknown := known_of_named hinit (h.trans hx) (k := k)
        (Or.inr (Or.inl (by change (x.db.tokens.get k).isSome; rw [ht']; rfl)))
      obtain ⟨t₁, ht₁, _, hhash, _, hused, _⟩ :=
        (descends_event hfollows hagrees hknown).token t'' ht''
      obtain rfl := Option.some.inj (ht'.symm.trans ht₁)
      exact ⟨t'', ht'', hf'', hhash.trans hhash', fun hu => hused (hused' hu)⟩
    · intro x₀ hx₀
      obtain rfl := Option.some.inj (hfamily.symm.trans hx₀)
      obtain ⟨family'', hfamily''⟩ := hrest.tokenFamily k t'' ht''
      rw [hf''] at hfamily''
      have hknown := known_of_named hinit (h.trans hx) (k := t.familyId)
        (Or.inl (by change (x.db.families.get t.familyId).isSome; rw [hfamily']; rfl))
      obtain ⟨x₁, hx₁, huser, _, hrevoked⟩ :=
        (descends_event hfollows hagrees hknown).family family'' hfamily''
      obtain rfl := Option.some.inj (hfamily'.symm.trans hx₁)
      obtain ⟨x₂, hx₂, huser₂, hrevoked₂⟩ := hcarried.family family hfamily
      obtain rfl := Option.some.inj (hfamily'.symm.trans hx₂)
      exact ⟨family'', hfamily'', huser.trans huser₂, fun hr => hrevoked (hrevoked₂ hr)⟩
    · intro j s hs hf
      obtain ⟨s', hs', hf'⟩ := hcarried.session j s hs hf
      exact hkept.session j s' hs' hf'

/-- What a rotation that went through leaves behind. -/
theorem token_rotated {args : RotateArgs} {found : Option TokenMatch} {result : RotationResult}
    {record : SessionRecord} {T T' : SessionTables} (h : Rotation args T found result T')
    (hstatus : result.status = .rotated) (hrecord : result.record = some record)
    (hrest : T.AtRest) :
    ∃ k t family, T'.tokens.get k = some t ∧ t.tokenHash = args.tokenHash ∧ t.usedAt.isSome ∧
      t.familyId = record.familyId ∧ T.families.get record.familyId = some family ∧
      family.userId = record.userId ∧ family.revokedAt = none := by
  cases h with
  | unknown => cases hstatus
  | lost _ => cases hstatus
  | reused _ _ => cases hstatus
  | revoked _ _ => cases hstatus
  | ended _ _ hother _ => exact absurd hstatus hother
  | @rotated found token row hpresented hrotatable _ _ =>
      obtain rfl := Option.some.inj hrecord
      have hfamily : token.familyId = row.session.familyId :=
        hpresented.tokenFamily.trans hpresented.sessionFamily.symm
      obtain ⟨n, hn⟩ := hrest.formed _ _ hpresented.stored.family
      refine ⟨found.tokenId, { token with usedAt := some args.now, revokedAt := some args.now },
        row.family, ?_, hpresented.hash, rfl, hfamily, hpresented.stored.family, ?_,
        hrotatable.active⟩
      · have hget := Table.get_update_eq_some
          (p := fun id t => t.familyId == token.familyId && id == found.tokenId)
          (g := fun t => { t with usedAt := some args.now, revokedAt := some args.now }).mpr
            ⟨token, hpresented.known, rfl⟩
        simp only [beq_self_eq_true, Bool.and_self, if_true] at hget
        change ((T.tokens.update _ _).add _ _).get _ = _
        rw [Table.get_add, hget, Option.some_or]
      · exact (hn.mirrored _ _ hpresented.stored.session rfl).1.symm

/-- A stored token is found with its family and its session. -/
theorem tokenMatch_stored {d : Db} (hrest : d.sessionTables.AtRest) {t : RefreshToken}
    (ht : d.tokens.get k = some t) :
    ∃ j s, tokenMatch t.tokenHash d = some ⟨k, t.familyId, j⟩ ∧ d.sessions.get j = some s ∧
      s.familyId = t.familyId := by
  obtain ⟨family, hfamily⟩ := hrest.tokenFamily k t ht
  obtain ⟨n, hn⟩ := hrest.formed _ _ hfamily
  obtain ⟨j, s, hs, hsf⟩ := hn.session
  change d.families.get t.familyId = some family at hfamily
  have hmem : (k, t) ∈ d.tokens.select fun _ token => token.tokenHash == t.tokenHash :=
    Table.mem_select.mpr ⟨ht, by simp⟩
  have hsole : ∀ entry ∈ d.tokens.select (fun _ token => token.tokenHash == t.tokenHash),
      entry = (k, t) := by
    rintro ⟨k', t'⟩ hentry
    obtain ⟨ht', hhash⟩ := Table.mem_select.mp hentry
    have hk : k' = k := hrest.hashes k' k t' t ht' ht (by simpa using hhash)
    subst hk
    rw [Option.some.inj (ht'.symm.trans ht)]
  have hsession : (j, s) ∈ d.sessions.select fun _ session => session.familyId == t.familyId :=
    Table.mem_select.mpr ⟨hs, by simpa using hsf⟩
  have hsessions : ∀ entry ∈ d.sessions.select (fun _ session => session.familyId == t.familyId),
      entry = (j, s) := by
    rintro ⟨j', s'⟩ hentry
    obtain ⟨hs', hf'⟩ := Table.mem_select.mp hentry
    have hj : j' = j := hn.sole j' j s' s hs' hs (by simpa using hf') hsf
    subst hj
    rw [Option.some.inj (hs'.symm.trans hs)]
  refine ⟨j, s, ?_, hs, hsf⟩
  unfold tokenMatch
  obtain ⟨first, others, hlist⟩ := List.exists_cons_of_ne_nil (List.ne_nil_of_mem hmem)
  obtain ⟨entry, rest, hlist'⟩ := List.exists_cons_of_ne_nil (List.ne_nil_of_mem hsession)
  have hfirst := hsole first (by rw [hlist]; exact List.mem_cons_self)
  have hentry := hsessions entry (by rw [hlist']; exact List.mem_cons_self)
  rw [hlist, hfirst, List.findSome?_cons]
  simp [hfamily, hlist', hentry]

/-- A used token never rotates; when it is found with its session it is reused,
and then its family is revoked. -/
theorem rotation_used {args : RotateArgs} {found : Option TokenMatch} {result : RotationResult}
    {T T' : SessionTables} (h : Rotation args T found result T') (hrest : T.AtRest)
    {t : RefreshToken} (ht : T.tokens.get k = some t) (hhash : t.tokenHash = args.tokenHash)
    (hused : t.usedAt.isSome) :
    result.status ≠ .rotated ∧
      (result.status = .reused →
        ∃ family, T'.families.get t.familyId = some family ∧ family.revokedAt.isSome) ∧
      ∀ j s, found = some ⟨k, t.familyId, j⟩ → T.sessions.get j = some s →
        s.familyId = t.familyId → result.status = .reused := by
  have hsame : ∀ {found : TokenMatch} {token : RefreshToken} {row : Locked},
      Presented args T found token row → token = t := by
    intro found token row hpresented
    have hk := hrest.hashes _ _ _ _ hpresented.known ht (hpresented.hash.trans hhash.symm)
    have hknown := hpresented.known
    rw [hk] at hknown
    exact Option.some.inj (hknown.symm.trans ht)
  have hcontra : ∀ {found : TokenMatch} {token : RefreshToken} {row : Locked},
      Presented args T found token row → token.usedAt ≠ none := by
    intro found token row hpresented hunused
    rw [← hsame hpresented, hunused] at hused
    cases hused
  cases h with
  | unknown => exact ⟨by simp, by simp, fun j s hfound => by cases hfound⟩
  | lost hlost =>
      refine ⟨by simp, by simp, ?_⟩
      rintro j s hfound hs hf
      obtain rfl := Option.some.inj hfound
      obtain ⟨family, hfamily⟩ := hrest.sessionFamily j s hs
      exact absurd ⟨ht, hhash, rfl, ⟨hs, hfamily⟩, rfl, hf⟩ (hlost t ⟨j, s, family⟩)
  | @reused found token row hpresented _ =>
      refine ⟨by simp, fun _ => ?_, fun _ _ _ _ _ => rfl⟩
      have hfamily : t.familyId = row.session.familyId := by
        rw [← hsame hpresented, hpresented.tokenFamily, hpresented.sessionFamily]
      rw [hfamily]
      refine ⟨_, Table.get_update_eq_some.mpr ⟨_, hpresented.stored.family, rfl⟩, ?_⟩
      simp [SessionTables.revokedFamily]
  | revoked hpresented hunused => exact absurd hunused (hcontra hpresented)
  | ended hpresented hunused _ _ => exact absurd hunused (hcontra hpresented)
  | rotated hpresented hrotatable _ _ => exact absurd hrotatable.unused (hcontra hpresented)

/-- A rotation that went through, seen from a later state. -/
theorem used_later (hinit : Initial c) (h : History env c m') {args : RotateArgs}
    {found : Option TokenMatch} {result : RotationResult} {record : SessionRecord}
    {later earlier : List (Nat × Event)}
    (hlog : m'.store.log = later ++ (i, .session (.rotated args found result)) :: earlier)
    (hstatus : result.status = .rotated) (hrecord : result.record = some record)
    (hspared : ∀ entry ∈ later, entry.2.erases record.userId = false) :
    ∃ k t, m'.db.tokens.get k = some t ∧ t.tokenHash = args.tokenHash ∧ t.usedAt.isSome ∧
      t.familyId = record.familyId ∧
      ∃ family, m'.db.families.get record.familyId = some family ∧
        family.userId = record.userId := by
  obtain ⟨m, hm, rfl, hfollows, hagrees, hrest⟩ := h.around hinit.log hlog
  obtain ⟨change, halone, hchange⟩ := hagrees.commits rfl
  have hrotation := rotation_of_rotateMatch halone
  dsimp only at hrotation
  obtain ⟨k, t, family, ht, hhash, hused, hfamily, howned, huser, _⟩ :=
    token_rotated hrotation hstatus hrecord (sessionInvariant_of_history hinit hm).atRest
  have hnext := hm.event hfollows hagrees
  have ht' : ((Event.session (.rotated args found result)).change m.db).tokens.get k = some t := by
    rw [hchange]
    exact ht
  obtain ⟨family', hfamily'⟩ := (sessionInvariant_of_history hinit hnext).atRest.tokenFamily k t ht'
  have huser' : family'.userId = record.userId := by
    have hknown := known_of_named hinit hm (k := record.familyId) (Or.inl (by rw [howned]; rfl))
    rw [hfamily] at hfamily'
    obtain ⟨x, hx, hsame, _⟩ := (descends_event hfollows hagrees hknown).family family' hfamily'
    rw [hsame, Option.some.inj (hx.symm.trans howned), huser]
  have hbetween : m'.store.log = later ++
      ((Event.session (.rotated args found result)).apply i m).store.log := by
    rw [hlog, Event.log_apply]
  have hcarried := carried_of_spared hinit hnext hrest hbetween ht' hfamily'
    (by rw [huser']; exact hspared)
  obtain ⟨t'', ht'', hf'', hhash'', hused''⟩ := hcarried.token t ht'
  obtain ⟨x, hx, hxuser, _⟩ := hcarried.family family' hfamily'
  rw [hfamily] at hx
  exact ⟨k, t'', ht'', hhash''.trans hhash, hused'' hused, hf''.trans hfamily, x, hx,
    hxuser.trans huser'⟩

/-- Once a call has recorded something, the entries before its beginning are in
the log. -/
theorem made_after (hinit : Initial c) (h : History env c m') (hlater : History env m m')
    {later earlier : List (Nat × Event)} (hlog : m'.store.log = later ++ earlier) {call : Call}
    (hcalled : (i, .called call) ∈ later) (hne : trace i m.store.log ≠ []) :
    ∃ between, m.store.log = between ++ earlier ∧ between <:+ later := by
  obtain ⟨after, before, rfl⟩ := List.append_of_mem hcalled
  have hsplit : m'.store.log = after ++ (i, .called call) :: (before ++ earlier) := by
    rw [hlog]
    simp
  obtain ⟨_, _, _, hfirst, _⟩ := h.around hinit.log hsplit
  have hnone : trace i earlier = [] := by
    change trace i (before ++ earlier) = [] at hfirst
    rw [trace_append] at hfirst
    exact (List.append_eq_nil_iff.mp hfirst).2
  have hsuffix : earlier <:+ m'.store.log := by
    rw [hlog]
    exact List.suffix_append _ _
  rcases List.suffix_or_suffix_of_suffix hsuffix (History.log_suffix hlater) with hin | hin
  · obtain ⟨between, hbetween⟩ := hin
    refine ⟨between, hbetween.symm, ?_⟩
    obtain ⟨rest, hrest⟩ := History.log_suffix hlater
    rw [← hbetween, hlog, ← List.append_assoc, List.append_cancel_right_eq] at hrest
    exact ⟨rest, hrest⟩
  · have htrace := suffix_trace hin i
    rw [hnone, List.suffix_nil] at htrace
    exact absurd htrace hne

/-- The first thing a call records. -/
theorem trace_of_called (hinit : Initial c) (h : History env c m') {call : Call}
    (hcalled : .called call ∈ trace i m'.store.log) :
    ∃ after, trace i m'.store.log = after ++ [.called call] := by
  obtain ⟨after, before, hsplit⟩ := List.append_of_mem hcalled
  obtain ⟨_, _, _, hfirst, _⟩ := h.recorded hinit.log hsplit
  have hnone : before = [] := hfirst
  subst hnone
  exact ⟨after, hsplit⟩

theorem called_before (hinit : Initial c) (h : History env c m') {call : Call} {e : Event}
    {after before : List Event} (hsplit : trace i m'.store.log = after ++ e :: before)
    (hne : e ≠ .called call) (hcalled : .called call ∈ trace i m'.store.log) :
    .called call ∈ before := by
  obtain ⟨events, hevents⟩ := trace_of_called hinit h hcalled
  rw [hsplit] at hevents
  rcases List.eq_nil_or_concat before with rfl | ⟨first, last, rfl⟩
  · exact absurd (List.cons.inj (List.append_inj_right' hevents rfl)).1 hne
  · rw [List.concat_eq_append, ← List.cons_append, ← List.append_assoc] at hevents
    have hlast := List.append_inj_right' hevents rfl
    simp_all

end Runs

section Reuse

variable {env : Env} {c m : Core Db World} {i : Nat} {args : RotateArgs}
  {found : Option TokenMatch} {result : RotationResult} {record : SessionRecord}
  {later earlier : List (Nat × Event)}

/-- Whoever presents a rotated token is told that it was reused. -/
theorem reused_of_presented (hinit : Initial c) (h : History env c m)
    (hlog : m.store.log = later ++ (i, .session (.rotated args found result)) :: earlier)
    (hstatus : result.status = .rotated) (hrecord : result.record = some record)
    (hspared : ∀ entry ∈ later, entry.2.erases record.userId = false) {j : Nat} {token : Token}
    {client : ClientType} {fingerprint : String}
    (hcalled : (j, .called (.refresh token client fingerprint)) ∈ later)
    (hhash : env.tokenHash token = args.tokenHash) {args' : RotateArgs}
    {found' : Option TokenMatch} {result' : RotationResult}
    (hrotated : .session (.rotated args' found' result') ∈ trace j m.store.log) :
    result'.status = .reused := by
  obtain ⟨after, before, hsplit⟩ := List.append_of_mem hrotated
  obtain ⟨x, hx, htrace, hfollows, hagrees, hrest⟩ := h.recorded hinit.log hsplit
  have hto : History env x m := History.trans
    (.event .refl (by rw [htrace]; exact hfollows) hagrees)
    hrest
  have hcall : .called (.refresh token client fingerprint) ∈ trace j m.store.log := by
    rw [mem_trace_iff, hlog]
    exact List.mem_append_left _ hcalled
  obtain ⟨events, hevents⟩ := trace_of_called hinit h hcall
  change Rotates env j before args' found' at hfollows
  cases hfollows with
  | @intro token' client' fingerprint' now found' =>
      -- the call looked the token up after the rotation
      have htoken : env.tokenHash token' = args.tokenHash := by
        rw [hsplit, show ∀ a b c d : Event, after ++ a :: [b, c, d] = (after ++ [a, b, c]) ++ [d]
          from fun a b c d => by simp] at hevents
        have hlast := List.append_inj_right' hevents rfl
        cases hlast
        exact hhash
      obtain ⟨y, hy, htracey, hfollowsy, hagreesy, hresty⟩ :=
        hx.recorded hinit.log (show _ = [] ++ _ from htrace)
      have htoy : History env y x :=
        History.trans (.event .refl (by rw [htracey]; exact hfollowsy) hagreesy) hresty
      obtain ⟨between, hbetween, hwithin⟩ := made_after hinit h (htoy.trans hto) hlog hcalled
        (by rw [htracey]; simp)
      obtain ⟨between', hbetween', hwithin'⟩ := made_after hinit h hto hlog hcalled
        (by rw [htrace]; simp)
      obtain ⟨k, t, ht, hthash, hused, hfamily, family, howned, huser⟩ := used_later hinit hy
        hbetween hstatus hrecord fun entry hentry => hspared entry (hwithin.subset hentry)
      obtain ⟨j', s, hmatch, hs, hsf⟩ :=
        tokenMatch_stored (sessionInvariant_of_history hinit hy).atRest ht
      have hfound : found' = some ⟨k, t.familyId, j'⟩ := by
        rw [← hmatch, hthash, ← htoken]
        exact hagreesy.tells
      -- and what it found is still there when it holds the locks
      obtain ⟨between₂, hbetween₂⟩ := htoy.log_split
      have hcarried := carried_of_spared hinit hy htoy hbetween₂ ht (by rw [hfamily]; exact howned)
        (fun entry hentry => by
          rw [huser]
          refine hspared entry (hwithin'.subset ?_)
          rw [hbetween', hbetween, ← List.append_assoc, List.append_cancel_right_eq] at hbetween₂
          rw [hbetween₂]
          exact List.mem_append_left _ hentry)
      obtain ⟨t', ht', hf', hhash', hused'⟩ := hcarried.token t ht
      obtain ⟨s', hs', hsf'⟩ := hcarried.session j' s hs hsf
      obtain ⟨change, halone, _⟩ := hagrees.commits rfl
      refine (rotation_used (rotation_of_rotateMatch halone)
        (sessionInvariant_of_history hinit hx).atRest ht' ?_ (hused' hused)).2.2 j' s' ?_ hs' ?_
      · rw [hhash', hthash, ← htoken]
        rfl
      · rw [hfound, hf']
      · rw [hsf', hf']

/-- After a reuse the family is there and revoked. -/
theorem revoked_of_reused (hinit : Initial c) (h : History env c m)
    (hlog : m.store.log = later ++ (i, .session (.rotated args found result)) :: earlier)
    (hstatus : result.status = .rotated) (hrecord : result.record = some record)
    (hspared : ∀ entry ∈ later, entry.2.erases record.userId = false) {j : Nat}
    {args' : RotateArgs} {found' : Option TokenMatch} {result' : RotationResult}
    (hreused : (j, .session (.rotated args' found' result')) ∈ later)
    (hhash : args'.tokenHash = args.tokenHash) (hstatus' : result'.status = .reused) :
    ∃ family, m.db.families.get record.familyId = some family ∧ family.revokedAt.isSome := by
  obtain ⟨after, before, rfl⟩ := List.append_of_mem hreused
  have hsplit : m.store.log = after ++ (j, .session (.rotated args' found' result')) ::
      (before ++ (i, .session (.rotated args found result)) :: earlier) := by
    rw [hlog]
    simp
  obtain ⟨x, hx, hxlog, hfollows, hagrees, hrest⟩ := h.around hinit.log hsplit
  obtain ⟨k, t, ht, hthash, hused, hfamily, family, howned, huser⟩ := used_later hinit hx hxlog
    hstatus hrecord fun entry hentry => hspared entry (by simp [hentry])
  obtain ⟨change, halone, hchange⟩ := hagrees.commits rfl
  obtain ⟨family', hfamily', hrevoked⟩ := (rotation_used (rotation_of_rotateMatch halone)
    (sessionInvariant_of_history hinit hx).atRest ht (hthash.trans hhash.symm) hused).2.1 hstatus'
  have hstep := History.event (.refl : History env x x) (by rw [hxlog]; exact hfollows) hagrees
  have hnext := hx.trans hstep
  rw [hfamily] at hfamily'
  have hget : ((Event.session (.rotated args' found' result')).apply j x).db.sessionTables.families.get
      record.familyId = some family' := by
    rw [← hfamily']
    exact congrArg (fun d : Db => d.families.get record.familyId) hchange
  have hknown := known_of_named hinit hnext (k := record.familyId) (Or.inl (by rw [hget]; rfl))
  obtain ⟨_, _, _, _, _, _, family'', hfamily'', _⟩ :=
    used_later hinit h hlog hstatus hrecord hspared
  obtain ⟨x', hx', _, _, hstays⟩ := (descends_of_history hrest hknown).family family'' hfamily''
  obtain rfl := Option.some.inj (hget.symm.trans hx')
  exact ⟨family'', hfamily'', hstays hrevoked⟩

/-- Along every run: a refresh token rotates at most once; once it has rotated,
every refresh that is called with it later reports the reuse; and from the first
report on its family stays revoked, no token of the family rotates, and no
authentication that is called later accepts an access token of the family. -/
theorem theft_detected (hinit : Initial c) {s : Config schema World AuthError Result}
    (h : (application env).Reachable c s)
    (hlog : s.core.store.log = later ++ (i, .session (.rotated args found result)) :: earlier)
    (hstatus : result.status = .rotated) (hrecord : result.record = some record)
    (hspared : ∀ entry ∈ later, entry.2.erases record.userId = false) :
    (∀ j args' found' result', (j, .session (.rotated args' found' result')) ∈ later →
      args'.tokenHash = args.tokenHash → result'.status ≠ .rotated) ∧
    (∀ j token client fingerprint,
      (j, .called (.refresh token client fingerprint)) ∈ later →
      env.tokenHash token = args.tokenHash →
      (∀ args' found' result',
        .session (.rotated args' found' result') ∈ trace j s.core.store.log →
        result'.status = .reused) ∧
      ∀ answer, (j, .returned answer) ∈ s.core.store.log →
        answer = .error SessionControl.tokenReused ∨ answer = .error .unhandled) ∧
    ∀ after before j args' found' result',
      later = after ++ (j, .session (.rotated args' found' result')) :: before →
      args'.tokenHash = args.tokenHash → result'.status = .reused →
      (∃ family, s.core.db.families.get record.familyId = some family ∧
        family.revokedAt.isSome) ∧
      (∀ k args'' found'' result'' record'',
        (k, .session (.rotated args'' found'' result'')) ∈ after →
        result''.status = .rotated → result''.record = some record'' →
        record''.familyId ≠ record.familyId) ∧
      ∀ k claims, (k, .called (.authenticate claims)) ∈ after →
        (k, .returned (.ok (.claims claims))) ∈ s.core.store.log →
        claims.familyId ≠ record.familyId := by
  have hhistory := history_of_reachable hinit.log h
  refine ⟨?_, ?_, ?_⟩
  · intro j args' found' result' hmem hhash
    obtain ⟨after, before, rfl⟩ := List.append_of_mem hmem
    have hsplit : s.core.store.log = after ++ (j, .session (.rotated args' found' result')) ::
        (before ++ (i, .session (.rotated args found result)) :: earlier) := by
      rw [hlog]
      simp
    obtain ⟨x, hx, hxlog, _, hagrees, _⟩ := hhistory.around hinit.log hsplit
    obtain ⟨k, t, ht, hthash, hused, _⟩ := used_later hinit hx hxlog hstatus hrecord
      fun entry hentry => hspared entry (by simp [hentry])
    obtain ⟨change, halone, _⟩ := hagrees.commits rfl
    exact (rotation_used (rotation_of_rotateMatch halone)
      (sessionInvariant_of_history hinit hx).atRest ht (hthash.trans hhash.symm) hused).1
  · intro j token client fingerprint hcalled hhash
    have hreused : ∀ args' found' result',
        .session (.rotated args' found' result') ∈ trace j s.core.store.log →
        result'.status = .reused := fun args' found' result' hrotated =>
      reused_of_presented hinit hhistory hlog hstatus hrecord hspared hcalled hhash hrotated
    refine ⟨hreused, fun answer hreturned => ?_⟩
    obtain ⟨after, before, hsplit⟩ := List.append_of_mem (mem_trace_iff.mpr hreturned)
    obtain ⟨_, _, _, hreturns, _⟩ := hhistory.recorded hinit.log hsplit
    have hbefore : ∀ e ∈ before, e ∈ trace j s.core.store.log := by
      intro e he
      rw [hsplit]
      simp [he]
    have hcall : .called (.refresh token client fingerprint) ∈ before := by
      refine called_before hinit hhistory hsplit (by simp) (mem_trace_iff.mpr ?_)
      rw [hlog]
      exact List.mem_append_left _ hcalled
    cases Returns.refresh hreturns token client fingerprint hcall with
    | failed => exact Or.inr rfl
    | refused hrotated hother =>
        rw [hreused _ _ _ (hbefore _ hrotated)]
        exact Or.inl rfl
    | rotated hrotated hsome =>
        rw [hreused _ _ _ (hbefore _ hrotated)] at hsome
        cases hsome
  · rintro after before j args' found' result' rfl hhash hstatus'
    refine ⟨revoked_of_reused hinit hhistory hlog hstatus hrecord hspared
      (List.mem_append_right _ List.mem_cons_self) hhash hstatus', ?_, ?_⟩
    · intro k args'' found'' result'' record'' hmem hrotated hrecorded heq
      obtain ⟨last, mid, rfl⟩ := List.append_of_mem hmem
      have hsplit : s.core.store.log = last ++ (k, .session (.rotated args'' found'' result'')) ::
          ((mid ++ (j, .session (.rotated args' found' result')) :: before) ++
            (i, .session (.rotated args found result)) :: earlier) := by
        rw [hlog]
        simp
      obtain ⟨x, hx, hxlog, _, hagrees, _⟩ := hhistory.around hinit.log hsplit
      obtain ⟨family, hfamily, hrevoked⟩ := revoked_of_reused hinit hx hxlog hstatus hrecord
        (fun entry hentry => hspared entry (by
          simp only [List.mem_append, List.mem_cons] at hentry ⊢
          grind)) (List.mem_append_right _ List.mem_cons_self) hhash hstatus'
      obtain ⟨change, halone, _⟩ := hagrees.commits rfl
      obtain ⟨_, _, family', _, _, _, _, hfamily', _, hactive⟩ := token_rotated
        (rotation_of_rotateMatch halone) hrotated hrecorded
        (sessionInvariant_of_history hinit hx).atRest
      rw [heq] at hfamily'
      rw [Option.some.inj (hfamily.symm.trans hfamily'), hactive] at hrevoked
      cases hrevoked
    · intro k claims hcalled hreturned heq
      obtain ⟨last, first, hsplit⟩ := List.append_of_mem (mem_trace_iff.mpr hreturned)
      obtain ⟨y, hy, hytrace, hreturns, hyagrees, hyrest⟩ := hhistory.recorded hinit.log hsplit
      have hpassed : Passed claims _ first := Returns.claims hreturns claims rfl
      have htoy := History.trans (History.event .refl (by rw [hytrace]; exact hreturns) hyagrees)
        hyrest
      cases hpassed with
      | @intro now revokedAt cutoff hcutoff =>
          obtain ⟨z, hz, hztrace, hzfollows, hzagrees, hzrest⟩ :=
            hy.recorded hinit.log (show _ = [] ++ _ from hytrace)
          have htoz := History.trans (History.event .refl (by rw [hztrace]; exact hzfollows)
            hzagrees) (hzrest.trans htoy)
          rw [List.append_assoc] at hlog
          obtain ⟨between, hbetween, hwithin⟩ := made_after hinit hhistory htoz hlog hcalled
            (by rw [hztrace]; simp)
          rw [← List.append_assoc] at hbetween
          -- the family of the token is revoked when its session is looked at
          obtain ⟨family, hfamily, hrevoked⟩ := revoked_of_reused hinit hz hbetween hstatus hrecord
            (fun entry hentry => hspared entry (by
              rcases List.mem_append.mp hentry with hnew | hold
              · exact List.mem_append_left _ (hwithin.subset hnew)
              · exact List.mem_append_right _ hold))
            (List.mem_append_right _ List.mem_cons_self) hhash hstatus'
          obtain ⟨x, family', hx, hfamily', hlive⟩ := stored_of_sessionIsActive hzagrees.tells.symm
          have hissued : claims ∈ z.store.issued := by
            refine hz.issued_of_verified hinit.log (i := k) (mem_trace_iff.mp ?_)
            rw [hztrace]
            simp
          rw [((owned_of_issued hinit hz hissued).2 x hx).1, heq] at hfamily'
          simp only [live, Bool.and_eq_true, Option.isNone_iff_eq_none] at hlive
          rw [Option.some.inj (hfamily.symm.trans hfamily'), hlive.1.2] at hrevoked
          cases hrevoked

end Reuse

/-- A login, a refresh, and the old refresh token presented once more. -/
def stolenSession : List SampleMove :=
  renewedSession ++ perform 3 (.refresh (.drawn 1 0) .web "phone") 15

/-- The rotation of that session, as it is recorded. -/
def stolenRecord : SessionRecord :=
  ⟨.drawn 1 4, .drawn 1 3, .given 1, .drawn 2 1, .web, 5, none, 1000000, 1000000, 86401000000, none⟩

theorem theft_detected_after_reuse :
    (∀ answer, (3, .returned answer) ∈ (reached stolenSession).core.store.log →
      answer = .error SessionControl.tokenReused ∨ answer = .error .unhandled) ∧
      ∃ family, (reached stolenSession).core.db.families.get (.drawn 1 3) = some family ∧
        family.revokedAt.isSome := by
  have hspared : ((reached stolenSession).core.store.log.take 12).all
      (fun entry => !entry.2.erases stolenRecord.userId) = true := by decide +kernel
  obtain ⟨_, hreused, hended⟩ := theft_detected sampleCore_initial
    (reachable_reached stolenSession (by decide +kernel))
    (show (reached stolenSession).core.store.log =
      (reached stolenSession).core.store.log.take 12 ++
        (2, .session (.rotated
          (SessionControl.rotateArgs sampleEnv 2 (.drawn 1 0) .web "phone" 1000000)
          (some ⟨.drawn 1 5, .drawn 1 3, .drawn 1 4⟩)
          ⟨.rotated, some stolenRecord, some ⟨.given 1, .drawn 1 3, .drawn 1 2⟩⟩)) ::
        (reached stolenSession).core.store.log.drop 13 from rfl)
    rfl (show _ = some stolenRecord from rfl)
    fun entry hentry => by simpa using List.all_eq_true.mp hspared entry hentry
  constructor
  · exact (hreused 3 (.drawn 1 0) .web "phone" (List.mem_of_getElem? (i := 7) rfl) rfl).2
  · exact (hended ((reached stolenSession).core.store.log.take 4)
      (((reached stolenSession).core.store.log.take 12).drop 5) 3
      (SessionControl.rotateArgs sampleEnv 3 (.drawn 1 0) .web "phone" 1000000)
      (some ⟨.drawn 1 5, .drawn 1 3, .drawn 1 4⟩)
      ⟨.reused, none, some ⟨.given 1, .drawn 1 3, .drawn 2 1⟩⟩ rfl rfl rfl).1

end AuthCore
