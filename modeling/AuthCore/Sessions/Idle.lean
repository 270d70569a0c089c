/-
The idle limit of a session.  A refresh compares the clock with the last activity that was
written down; this is which requests write it down and which do not.
-/
import AuthCore.Sessions.Cap

namespace AuthCore

open Interleave Relational SessionRepository

/-- When the event writes down activity of the session `k` over the database `d`. -/
def Event.records (k : Uuid) (d : Db) : Event → Option Time
  | session (.created args _ _) => if args.sessionId = k then some args.now else none
  | session (.rotated args found result) =>
      if result.status = .rotated ∧ found.map (·.sessionId) = some k then some args.now else none
  | session (.scoped args found (some _)) =>
      if found.map (·.sessionId) = some k then some args.now else none
  | workspace (.offboarded args (some departure) (some _)) =>
      if k ∈ (departure.sessions.filterMap (scopedRow args d)).map Prod.fst then some args.now
      else none
  | _ => none

/-- The last activity of the session `k` that the log has written down. -/
def recordedAt (k : Uuid) (d : Db) : List (Nat × Event) → Option Time
  | [] => none
  | (_, e) :: earlier => (e.records k (replay d earlier)).or (recordedAt k d earlier)

/-- The session `k` is created or refreshed. -/
def Event.begins (k : Uuid) : Event → Option Time
  | session (.created args _ _) => if args.sessionId = k then some args.now else none
  | session (.rotated args found result) =>
      if result.status = .rotated ∧ found.map (·.sessionId) = some k then some args.now else none
  | _ => none

/-- A successful request in the session `k`: an authentication or a switch of the workspace. -/
def Event.visits (k : Uuid) : Event → Option Time
  | session (.sessionIsActive id now true) => if id = k then some now else none
  | session (.scoped args found (some _)) =>
      if found.map (·.sessionId) = some k then some args.now else none
  | _ => none

/-- The last request in the session `k`, if its requests have come less than an idle limit apart
since it was created or last refreshed. -/
def attendedAt (k : Uuid) : List (Nat × Event) → Option Time
  | [] => none
  | (_, e) :: earlier =>
      match e.begins k, e.visits k with
      | some now, _ => some now
      | none, none => attendedAt k earlier
      | none, some now =>
          if (attendedAt k earlier).any fun last => now < last + seconds idleTimeoutSeconds then
            some now
          else none

/-- The session has been in use up to this time. -/
def Attended (k : Uuid) (log : List (Nat × Event)) (now : Time) : Prop :=
  ∃ last, attendedAt k log = some last ∧ now < last + seconds idleTimeoutSeconds

/-- Within an idle limit before this time, activity of the session has been written down. -/
def Recorded (k : Uuid) (d : Db) (log : List (Nat × Event)) (now : Time) : Prop :=
  ∃ last, recordedAt k d log = some last ∧ now < last + seconds idleTimeoutSeconds

/-- The token and the session that a refresh has found are current. -/
structure Current (args : RotateArgs) (found : TokenMatch) (token : RefreshToken) (row : Locked)
    (d : Db) : Prop where
  presented : Presented args d.sessionTables found token row
  unused : token.usedAt = none
  unrevoked : token.revokedAt = none
  familyActive : row.family.revokedAt = none
  sessionActive : row.session.revokedAt = none
  issued : row.session.createdAt ≤ token.issuedAt

namespace SessionTables

/-- The last activity in the row of the session `k`. -/
def activity (k : Uuid) (T : SessionTables) : Option Time :=
  (T.sessions.get k).map (·.lastActivityAt)

variable {T : SessionTables} {k : Uuid}

theorem activity_revoke (f j : Uuid) (mark : Option Time → Time)
    (reason : Option String → Option String) :
    (T.revoke f j mark reason).activity k = T.activity k := by
  unfold activity SessionTables.revoke
  rw [Table.get_update, Option.map_map]
  congr 1
  funext s
  simp only [Function.comp]
  split
  · rfl
  · rfl

theorem activity_revocations {mark : Locked → Option Time → Time}
    {reason : Locked → Option String → Option String} (rows : List Locked) :
    (rows.foldl (fun T row => SessionTables.revoke row.session.familyId row.sessionId (mark row)
      (reason row) T) T).activity k = T.activity k := by
  induction rows generalizing T with
  | nil => rfl
  | cons row rest ih =>
      rw [List.foldl_cons, ih, activity_revoke]

theorem activity_scope (j : Uuid) (org : Option Uuid) (jti : Uuid) (now : Time) :
    (T.scope j org jti now).activity k =
      if k = j then (T.activity k).map (fun _ => now) else T.activity k := by
  unfold activity SessionTables.scope
  rw [Table.get_update]
  by_cases hk : k = j
  · simp [hk, Function.comp_def]
  · simp [hk]

theorem activity_delete (f : Uuid) : (T.delete f).activity k = T.activity k ∨
    (T.delete f).activity k = none := by
  unfold activity SessionTables.delete
  cases hget : (T.sessions.delete fun _ s => s.familyId == f).get k with
  | none => exact Or.inr rfl
  | some s =>
      left
      rw [Table.get_delete_eq_some] at hget
      rw [hget.1]

theorem activity_create (args : CreateArgs) : (T.create args).activity k =
    (T.activity k).or (if k = args.sessionId then some args.now else none) := by
  unfold activity SessionTables.create
  rw [Table.get_add]
  cases T.sessions.get k with
  | some s => rfl
  | none =>
      simp only [Option.none_or, Option.map_none]
      split
      · rfl
      · rfl

theorem activity_unscoped (rows : List ((Uuid × Uuid) × Uuid)) (now : Time) :
    (rows.foldl (fun T entry => T.scope entry.1.1 none entry.2 now) T).activity k =
      if k ∈ rows.map (fun entry => entry.1.1) then (T.activity k).map (fun _ => now)
      else T.activity k := by
  induction rows generalizing T with
  | nil => rfl
  | cons entry rest ih =>
      rw [List.foldl_cons, ih, activity_scope]
      by_cases hfirst : k = entry.1.1
      · by_cases hrest : k ∈ rest.map fun entry => entry.1.1
        · simp [hfirst, Function.comp_def]
        · simp [hfirst, Function.comp_def]
      · rw [if_neg hfirst, List.map_cons]
        simp only [List.mem_cons, hfirst, false_or]

end SessionTables

section Steps

variable {env : Env} {m : Core Db World} {k : Uuid} {t : Time} {e : Event} {i : Nat}

/-- What the row says after an event it has from the event, or from before. -/
def Explains (k : Uuid) (d : Db) (e : Event) (T : SessionTables) : Prop :=
  ∀ t, T.activity k = some t →
    e.records k d = some t ∨ e.records k d = none ∧ d.sessionTables.activity k = some t

theorem explains_of_kept {d : Db} {T : SessionTables} (hnone : e.records k d = none)
    (hkept : T.activity k = d.sessionTables.activity k) : Explains k d e T :=
  fun _ ht => Or.inr ⟨hnone, hkept ▸ ht⟩

theorem explains_scope {d : Db} {T : SessionTables} {j : Uuid} {org : Option Uuid} {jti : Uuid}
    {now : Time} (hkept : T.activity k = d.sessionTables.activity k)
    (hrecords : e.records k d = if k = j then some now else none) :
    Explains k d e (T.scope j org jti now) := by
  intro t ht
  rw [SessionTables.activity_scope] at ht
  rw [hrecords]
  by_cases hk : k = j
  · rw [if_pos hk] at ht ⊢
    obtain ⟨_, _, hnow⟩ := Option.map_eq_some_iff.mp ht
    exact Or.inl (congrArg some hnow)
  · rw [if_neg hk, hkept] at ht
    exact Or.inr ⟨if_neg hk, ht⟩

theorem explains_created {args : CreateArgs} {found : List SessionMatch} {result : CreatedSession}
    (h : (Event.session (.created args found result)).Agrees m)
    (hnew : m.db.sessionTables.activity args.sessionId = none) :
    Explains k m.db (.session (.created args found result))
      ((Event.session (.created args found result)).change m.db).sessionTables := by
  intro t ht
  rw [tables_created h, SessionTables.activity_create] at ht
  have hevicted : ((overflow args found m.db).foldl (fun T row => evicted args.now row T)
      m.db.sessionTables).activity k = m.db.sessionTables.activity k :=
    SessionTables.activity_revocations _
  rw [hevicted] at ht
  change (if args.sessionId = k then some args.now else none) = some t ∨
    (if args.sessionId = k then some args.now else none) = none ∧ _
  by_cases hk : k = args.sessionId
  · subst hk
    rw [hnew, Option.none_or, if_pos rfl] at ht
    rw [if_pos rfl]
    exact Or.inl ht
  · rw [if_neg hk, Option.or_none] at ht
    rw [if_neg (Ne.symm hk)]
    exact Or.inr ⟨rfl, ht⟩

theorem explains_rotated {args : RotateArgs} {found : Option TokenMatch} {result : RotationResult}
    (h : (Event.session (.rotated args found result)).Agrees m) :
    Explains k m.db (.session (.rotated args found result))
      ((Event.session (.rotated args found result)).change m.db).sessionTables := by
  obtain ⟨change, halone, hchange⟩ := h.commits rfl
  rw [hchange]
  have hrotation := rotation_of_rotateMatch halone
  dsimp only at hrotation
  generalize (change m.db).sessionTables = T' at hrotation ⊢
  cases hrotation with
  | unknown | lost | revoked => exact explains_of_kept (by simp [Event.records]) rfl
  | reused =>
      exact explains_of_kept (by simp [Event.records]) (SessionTables.activity_revoke _ _ _ _)
  | ended _ _ hstatus =>
      exact explains_of_kept (by simp [Event.records, hstatus])
        (SessionTables.activity_revoke _ _ _ _)
  | rotated hpresented =>
      refine explains_scope rfl ?_
      simp [Event.records, hpresented.session, eq_comm]

theorem explains_scoped {args : ScopeArgs} {found : Option SessionMatch} {result : Option Uuid}
    (h : (Event.session (.scoped args found result)).Agrees m) :
    Explains k m.db (.session (.scoped args found result))
      ((Event.session (.scoped args found result)).change m.db).sessionTables := by
  obtain ⟨change, halone, hchange⟩ := h.commits rfl
  rw [hchange]
  rcases alone_scopeMatch halone with ⟨hresult, hsame⟩ | ⟨row, _, _, hfound, hresult, htables⟩
  · dsimp only at hresult
    subst hresult
    rw [hsame]
    exact explains_of_kept rfl rfl
  · dsimp only at hresult
    subst hresult
    rw [htables]
    refine explains_scope rfl ?_
    simp [Event.records, hfound, eq_comm]

theorem explains_offboarded {args : MemberArgs} {departure : Departure} {result : OffboardResult}
    (h : (Event.workspace (.offboarded args (some departure) (some result))).Agrees m) :
    Explains k m.db (.workspace (.offboarded args (some departure) (some result)))
      ((Event.workspace (.offboarded args (some departure) (some result))).change
        m.db).sessionTables := by
  obtain ⟨change, halone, hchange⟩ := h.commits rfl
  obtain ⟨_, htables⟩ := alone_offboardWrites halone
  rw [hchange, htables]
  intro t ht
  unfold unscoped at ht
  rw [SessionTables.activity_unscoped] at ht
  have hnames : (WorkspaceRepository.renamed args.call
      (departure.sessions.filterMap (scopedRow args m.db))).map (fun entry => entry.1.1) =
        (departure.sessions.filterMap (scopedRow args m.db)).map Prod.fst := by
    exact List.ext_getElem (by simp [WorkspaceRepository.renamed]) fun n _ _ => by
      simp [WorkspaceRepository.renamed]
  rw [hnames] at ht
  change (if _ then some args.now else none) = some t ∨
    (if _ then some args.now else none) = none ∧ _
  by_cases hk : k ∈ (departure.sessions.filterMap (scopedRow args m.db)).map Prod.fst
  · rw [if_pos hk] at ht ⊢
    obtain ⟨_, _, hnow⟩ := Option.map_eq_some_iff.mp ht
    exact Or.inl (congrArg some hnow)
  · rw [if_neg hk] at ht ⊢
    exact Or.inr ⟨rfl, ht⟩

/-- The other events leave the activity as it is, or delete the session. -/
theorem explains_other (h : e.Agrees m) (hnone : e.records k m.db = none)
    (hcreated : ∀ args found result, e ≠ .session (.created args found result))
    (hrotated : ∀ args found result, e ≠ .session (.rotated args found result))
    (hscoped : ∀ args found result, e ≠ .session (.scoped args found result))
    (hoffboarded : ∀ args departure result,
      e ≠ .workspace (.offboarded args (some departure) (some result))) :
    Explains k m.db e (e.change m.db).sessionTables := by
  have htables := tables_change h
  generalize (e.change m.db).sessionTables = T' at htables ⊢
  cases htables with
  | same => exact explains_of_kept hnone rfl
  | @created args found result => exact absurd rfl (hcreated args found result)
  | @rotated args found result => exact absurd rfl (hrotated args found result)
  | @«scoped» args found row => exact absurd rfl (hscoped args found _)
  | @offboarded args departure result => exact absurd rfl (hoffboarded args departure result)
  | revoked => exact explains_of_kept hnone (SessionTables.activity_revoke _ _ _ _)
  | revokedAll => exact explains_of_kept hnone (SessionTables.activity_revocations _)
  | @erased args email found result =>
      have hdeleted : ∀ (families : List Uuid) (T : SessionTables),
          (families.foldl (fun T f => if erasable args.userId m.db f then T.delete f else T)
            T).activity k = T.activity k ∨ (families.foldl (fun T f =>
              if erasable args.userId m.db f then T.delete f else T) T).activity k = none := by
        intro families
        induction families with
        | nil => exact fun T => Or.inl rfl
        | cons f rest ih =>
            intro T
            rw [List.foldl_cons]
            split
            · rcases ih (T.delete f) with hsame | hgone
              · rw [hsame]
                exact SessionTables.activity_delete f
              · exact Or.inr hgone
            · exact ih T
      intro t ht
      rcases hdeleted found.families m.db.sessionTables with hsame | hgone
      · exact Or.inr ⟨hnone, hsame ▸ ht⟩
      · rw [hgone] at ht
        cases ht

theorem explains_change (h : e.Agrees m)
    (hnew : ∀ args found result, e = .session (.created args found result) →
      m.db.sessionTables.activity args.sessionId = none) :
    Explains k m.db e (e.change m.db).sessionTables := by
  cases e with
  | session event =>
      cases event with
      | created args found result => exact explains_created h (hnew args found result rfl)
      | rotated args found result => exact explains_rotated h
      | «scoped» args found result => exact explains_scoped h
      | _ => exact explains_other h rfl (by simp) (by simp) (by simp) (by simp)
  | workspace event =>
      by_cases hoffboards : ∃ args departure result,
          event = .offboarded args (some departure) (some result)
      · obtain ⟨args, departure, result, rfl⟩ := hoffboards
        exact explains_offboarded h
      · have hnone : (Event.workspace event).records k m.db = none := by
          unfold Event.records
          split
          · rename_i heq
            cases heq
          · rename_i heq
            cases heq
          · rename_i heq
            cases heq
          · rename_i args departure result heq
            cases heq
            exact absurd ⟨args, departure, result, rfl⟩ hoffboards
          · rfl
        refine explains_other h hnone (by simp) (by simp) (by simp) ?_
        intro args departure result heq
        cases heq
        exact hoffboards ⟨args, departure, result, rfl⟩
  | _ => exact explains_other h rfl (by simp) (by simp) (by simp) (by simp)

/-- What the rows of a family keep of its lifetimes. -/
structure Lifetimes (T : SessionTables) : Prop where
  session : ∀ j s, T.sessions.get j = some s →
    s.expiresAt ≤ s.createdAt + seconds sessionAbsoluteSeconds
  token : ∀ j t family, T.tokens.get j = some t → T.families.get t.familyId = some family →
    min (t.issuedAt + seconds refreshFamilySeconds) family.absoluteExpiresAt ≤ t.expiresAt

/-- Upkeep does not change when a token was issued and when it expires. -/
theorem token_before {T T' : SessionTables}
    (hsteps : Relation.ReflTransGen SessionTables.Upkeep T T')
    {j : Uuid} {t' : RefreshToken} (hget : T'.tokens.get j = some t') :
    ∃ t, T.tokens.get j = some t ∧ t'.familyId = t.familyId ∧ t'.issuedAt = t.issuedAt ∧
      t'.expiresAt = t.expiresAt := by
  induction hsteps generalizing t' with
  | refl => exact ⟨t', hget, rfl, rfl, rfl⟩
  | tail _ hstep ih =>
      cases hstep with
      | revoke =>
          simp only [SessionTables.revoke, Table.get_update, Option.map_eq_some_iff] at hget
          obtain ⟨t₁, ht₁, rfl⟩ := hget
          obtain ⟨t, ht, hfamily, hissued, hexpires⟩ := ih ht₁
          refine ⟨t, ht, ?_⟩
          split
          · exact ⟨hfamily, hissued, hexpires⟩
          · exact ⟨hfamily, hissued, hexpires⟩
      | scope => exact ih hget
      | delete => exact ih (Table.get_delete_eq_some.mp hget).1

theorem Lifetimes.upkeep {T T' : SessionTables} (h : Lifetimes T)
    (hsteps : Relation.ReflTransGen SessionTables.Upkeep T T') : Lifetimes T' := by
  constructor
  · intro j s hget
    obtain ⟨s₀, hs₀, _, _, hcreated, hexpires, _⟩ :=
      (SessionTables.Descends.upkeep j hsteps).session s hget
    rw [hcreated, hexpires]
    exact h.session j s₀ hs₀
  · intro j t family hget hfamily
    obtain ⟨t₀, ht₀, howner, hissued, hexpires⟩ := token_before hsteps hget
    obtain ⟨family₀, hfamily₀, _, habsolute, _⟩ :=
      (SessionTables.Descends.upkeep _ hsteps).family family hfamily
    rw [howner] at hfamily₀
    rw [hissued, hexpires, habsolute]
    exact h.token j t₀ family₀ ht₀ hfamily₀

theorem Lifetimes.create {T : SessionTables} {args : CreateArgs} (h : Lifetimes T)
    (hrest : T.AtRest) (hnew : T.families.get args.familyId = none)
    (hsession : args.sessionExpiresAt ≤ args.now + seconds sessionAbsoluteSeconds)
    (htoken : args.familyExpiresAt ≤ args.refreshExpiresAt) : Lifetimes (T.create args) := by
  constructor
  · intro j s hget
    simp only [SessionTables.create, Table.get_add] at hget
    rcases Option.or_eq_some_iff.mp hget with hold | ⟨_, hmine⟩
    · exact h.session j s hold
    · split at hmine
      · cases hmine
        exact hsession
      · cases hmine
  · intro j t family hget hfamily
    simp only [SessionTables.create, Table.get_add] at hget hfamily
    rcases Option.or_eq_some_iff.mp hget with hold | ⟨_, hmine⟩
    · obtain ⟨family₀, hfamily₀⟩ := hrest.tokenFamily j t hold
      rw [hfamily₀, Option.some_or, Option.some.injEq] at hfamily
      subst hfamily
      exact h.token j t family₀ hold hfamily₀
    · split at hmine
      · cases hmine
        change (T.families.get args.familyId).or (if args.familyId = args.familyId then
          some (newFamily args) else none) = some family at hfamily
        rw [hnew, Option.none_or, if_pos rfl, Option.some.injEq] at hfamily
        subst hfamily
        exact (Nat.min_le_right _ _).trans htoken
      · cases hmine

theorem Lifetimes.renew {T : SessionTables} {args : RotateArgs} {j : Uuid} {token : RefreshToken}
    {family : RefreshTokenFamily} (h : Lifetimes T)
    (hfamily : T.families.get token.familyId = some family)
    (htoken : args.replacementExpiresAt = args.now + seconds refreshFamilySeconds) :
    Lifetimes (T.renew args j token family) := by
  constructor
  · exact h.session
  · intro k t family' hget hfamily'
    simp only [SessionTables.renew, Table.get_add, Table.get_update] at hget
    rcases Option.or_eq_some_iff.mp hget with hold | ⟨_, hmine⟩
    · obtain ⟨t₀, ht₀, heq⟩ := Option.map_eq_some_iff.mp hold
      have hkept : t.familyId = t₀.familyId ∧ t.issuedAt = t₀.issuedAt ∧
          t.expiresAt = t₀.expiresAt := by
        split at heq
        · cases heq
          exact ⟨rfl, rfl, rfl⟩
        · cases heq
          exact ⟨rfl, rfl, rfl⟩
      rw [hkept.2.1, hkept.2.2]
      exact h.token k t₀ family' ht₀ (hkept.1 ▸ hfamily')
    · split at hmine
      · cases hmine
        have hsame : family' = family := Option.some.inj (hfamily'.symm.trans hfamily)
        subst hsame
        change min (args.now + _) _ ≤ min args.replacementExpiresAt _
        rw [htoken]
      · cases hmine

end Steps

section Runs

variable {env : Env} {c m : Core Db World} {k : Uuid} {t : Time} {e : Event} {i : Nat}

/-- The clock readings that a login uses. -/
theorem Creates.expiry (h : History env c m) (hempty : c.store.log = []) {args : CreateArgs}
    {found : List SessionMatch} (hcreates : Creates env i (trace i m.store.log) args found) :
    args.sessionExpiresAt ≤ args.now + seconds sessionAbsoluteSeconds ∧
      args.familyExpiresAt ≤ args.refreshExpiresAt := by
  generalize htrace : trace i m.store.log = t at hcreates
  cases hcreates with
  | @intro token client fingerprint ip workflow now stored found hready =>
      refine ⟨?_, Nat.le_refl _⟩
      obtain ⟨m₀, hm₀, htrace₀, _, hagrees, _⟩ := h.recorded hempty
        (show trace i m.store.log = [_] ++ .clock stored :: .clock now :: _ from htrace)
      have htold : stored = m₀.store.now := hagrees.tells
      have hearlier : now ≤ m₀.store.now := by
        refine hm₀.clock_le hempty (i := i) (mem_trace_iff.mp ?_)
        rw [htrace₀]
        exact List.mem_cons_self
      exact Nat.add_le_add_right (htold ▸ hearlier) _

/-- What the three tables say about the activity of every session. -/
structure Clocked (c m : Core Db World) : Prop where
  lifetimes : Lifetimes m.db.sessionTables
  recorded : ∀ k t, m.db.sessionTables.activity k = some t →
    recordedAt k c.db m.store.log = some t

/-- The identifiers of a login are new. -/
theorem new_of_creates (h : SessionInvariant m) {args : CreateArgs} {found : List SessionMatch}
    (hcreates : Creates env i (trace i m.store.log) args found) :
    m.db.sessionTables.families.get args.familyId = none ∧
      m.db.sessionTables.activity args.sessionId = none := by
  obtain ⟨hnone, hfamily, hsession, _⟩ := hcreates.inserts
  have hunnamed := fun n => h.unnamed hnone (n := n)
  simp only [SessionTables.Named, not_or, Option.not_isSome_iff_eq_none] at hunnamed
  rw [hfamily, hsession]
  refine ⟨(hunnamed 3).1, ?_⟩
  unfold SessionTables.activity
  rw [(hunnamed 4).2.2]
  rfl

theorem Clocked.event (hinit : Initial c) (h : History env c m) (hbefore : Clocked c m)
    (hfollows : e.Follows env i (trace i m.store.log)) (hagrees : e.Agrees m) :
    Clocked c (e.apply i m) := by
  have hinvariant := sessionInvariant_of_history hinit h
  constructor
  · have heffect := effect_change hagrees
    change Lifetimes (e.change m.db).sessionTables
    generalize (e.change m.db).sessionTables = T' at heffect ⊢
    cases heffect with
    | upkeep hsteps => exact hbefore.lifetimes.upkeep hsteps
    | @created args found result T hsteps _ =>
        obtain ⟨hsession, htoken⟩ := Creates.expiry h hinit.log hfollows
        refine (hbefore.lifetimes.upkeep hsteps).create (hinvariant.atRest.upkeep hsteps) ?_
          hsession htoken
        cases hfamily : T.families.get args.familyId with
        | none => rfl
        | some family =>
            obtain ⟨_, hold, _⟩ := (SessionTables.Descends.upkeep _ hsteps).family family hfamily
            rw [(new_of_creates hinvariant hfollows).1] at hold
            cases hold
    | rotated hpresented hrotatable _ =>
        have hexpires : ∀ {args : RotateArgs} {found : Option TokenMatch} {t : List Event},
            Rotates env i t args found →
            args.replacementExpiresAt = args.now + seconds refreshFamilySeconds := by
          intro args found t hrotates
          cases hrotates with
          | intro => rfl
        exact (hbefore.lifetimes.renew hrotatable.owned (hexpires hfollows)).upkeep
          (.single .scope)
  · intro k t ht
    rw [Event.log_apply]
    change (e.records k (replay c.db m.store.log)).or (recordedAt k c.db m.store.log) = some t
    rw [← h.db_eq hinit.log]
    have hexplains : Explains k m.db e (e.change m.db).sessionTables := by
      refine explains_change hagrees ?_
      rintro args found result rfl
      exact (new_of_creates hinvariant hfollows).2
    rcases hexplains t ht with hnow | ⟨hnone, hold⟩
    · rw [hnow]
      rfl
    · rw [hnone]
      exact hbefore.recorded k t hold

theorem clocked_of_history (hinit : Initial c) (h : History env c m) : Clocked c m := by
  refine Ledger.Leads.preserves (P := Clocked c) h ⟨⟨?_, ?_⟩, ?_⟩ ?_ ?_
  · intro j s hget
    change c.db.sessions.get j = some s at hget
    rw [hinit.sessions, Table.get_empty] at hget
    cases hget
  · intro j t family hget
    change c.db.tokens.get j = some t at hget
    rw [hinit.tokens, Table.get_empty] at hget
    cases hget
  · intro k t hactivity
    change (c.db.sessions.get k).map _ = some t at hactivity
    rw [hinit.sessions, Table.get_empty] at hactivity
    cases hactivity
  · rintro m i e hm hP _ ⟨hfollows, hagrees⟩
    exact hP.event hinit hm hfollows hagrees
  · rintro m n _ hP
    exact ⟨hP.lifetimes, hP.recorded⟩

theorem alone_presented {args : RotateArgs} {found : TokenMatch} {token : RefreshToken}
    {row : Locked} {d : Db} (h : Presented args d.sessionTables found token row) :
    (rotateMatch args (some found)).alone d id =
      (rotateLocked args found.tokenId token row).alone d id := by
  have hfind : (d.tokens.select fun _ t => t.familyId == found.familyId).find?
      (fun entry => entry.1 == found.tokenId) = some (found.tokenId, token) :=
    Table.find?_select.mpr ⟨rfl, h.known, by simpa using h.tokenFamily⟩
  have hfamily : d.families.get found.familyId = some row.family := by
    rw [← h.sessionFamily]
    exact h.stored.family
  have hsession : d.sessions.get found.sessionId = some row.session := by
    rw [← h.session]
    exact h.stored.session
  have hrow : row = ⟨found.sessionId, row.session, row.family⟩ := by
    rw [← h.session]
  rw [rotateMatch_alone, hfind, hfamily, hsession, hrow]
  simp [h.hash, h.sessionFamily]

/-- With a current token only the limits decide whether the session has expired. -/
theorem status_expired_iff {args : RotateArgs} {found : TokenMatch} {token : RefreshToken}
    {row : Locked} {d : Db} {result : RotationResult} {change : Db → Db}
    (hcurrent : Current args found token row d)
    (halone : (rotateMatch args (some found)).alone d id = .ok (result, change)) :
    result.status = .expired ↔ expired args token row = true := by
  rw [alone_presented hcurrent.presented] at halone
  unfold rotateLocked at halone
  rw [if_neg (by simp [hcurrent.unused]), if_neg (by simp [hcurrent.unrevoked,
    hcurrent.familyActive, hcurrent.sessionActive])] at halone
  split at halone
  · rename_i hexpired
    rw [Tx.alone_bind_ok (alone_revokeLocked _ _ _ _ _)] at halone
    cases halone
    exact ⟨fun _ => hexpired, fun _ => rfl⟩
  · rename_i hlive
    refine ⟨fun hstatus => ?_, fun hexpired => absurd hexpired hlive⟩
    split at halone
    · rw [Tx.alone_bind_ok (alone_revokeLocked _ _ _ _ _)] at halone
      cases halone
      cases hstatus
    · change Tx.alone d _ (reserve _ _ >>= _) = _ at halone
      obtain ⟨_, _, _, hrest⟩ := Tx.alone_bind_eq_ok halone
      cases hrest
      cases hstatus

/-- A token of a session that is still short of its limits. -/
theorem expires_after {now created issued session family token day month : Nat}
    (hsession : session ≤ created + day) (hissued : created ≤ issued) (hdays : day ≤ month)
    (htoken : min (issued + month) family ≤ token) (hnow : now < session) (hnow' : now < family) :
    now < token := by
  omega

/-- The record of a session that is presented is its last activity. -/
theorem recordedAt_of_current (hinit : Initial c) (h : History env c m) {args : RotateArgs}
    {found : TokenMatch} {token : RefreshToken} {row : Locked}
    (hcurrent : Current args found token row m.db) :
    recordedAt row.sessionId c.db m.store.log = some row.session.lastActivityAt := by
  refine (clocked_of_history hinit h).recorded _ _ ?_
  unfold SessionTables.activity
  rw [hcurrent.presented.stored.session]
  rfl

/-- A refresh with a current token, short of the limits of the session and the family, is
answered by the last activity that was written down. -/
theorem expired_iff_recorded (hinit : Initial c) (h : History env c m) {args : RotateArgs}
    {found : TokenMatch} {result : RotationResult} {token : RefreshToken} {row : Locked}
    (hfollows : (Event.session (.rotated args (some found) result)).Follows env i
      (trace i m.store.log))
    (hagrees : (Event.session (.rotated args (some found) result)).Agrees m)
    (hcurrent : Current args found token row m.db) (hsession : args.now < row.session.expiresAt)
    (hfamily : args.now < row.family.absoluteExpiresAt) :
    result.status = .expired ↔ ∃ last, recordedAt row.sessionId c.db m.store.log = some last ∧
      last + seconds idleTimeoutSeconds ≤ args.now := by
  have hclocked := clocked_of_history hinit h
  have hidle : args.idleTimeout = idleTimeoutSeconds := by
    have hrotates : Rotates env i (trace i m.store.log) args (some found) := hfollows
    generalize trace i m.store.log = t at hrotates
    cases hrotates with
    | intro => rfl
  obtain ⟨change, halone, _⟩ := hagrees.commits rfl
  have hstored := hcurrent.presented.stored
  have htoken : args.now < token.expiresAt := by
    have hlifetime := hclocked.lifetimes.session _ _ hstored.session
    have hfamily' : m.db.sessionTables.families.get token.familyId = some row.family := by
      rw [hcurrent.presented.tokenFamily, ← hcurrent.presented.sessionFamily]
      exact hstored.family
    have hexpires := hclocked.lifetimes.token _ _ _ hcurrent.presented.known hfamily'
    exact expires_after hlifetime hcurrent.issued (by decide) hexpires hsession hfamily
  rw [status_expired_iff hcurrent halone, recordedAt_of_current hinit h hcurrent]
  simp only [expired, Bool.or_eq_true, decide_eq_true_eq, hidle, Option.some.injEq]
  constructor
  · rintro (((hpast | hpast) | hpast) | hidled)
    · exact absurd hpast (Nat.not_le.mpr htoken)
    · exact absurd hpast (Nat.not_le.mpr hfamily)
    · exact absurd hpast (Nat.not_le.mpr hsession)
    · exact ⟨_, rfl, hidled⟩
  · rintro ⟨_, rfl, hidled⟩
    exact Or.inr hidled

/-- A session that is in use is refreshed exactly if, within the idle limit, something has been
done that writes its activity down. -/
theorem refresh_of_attended (hinit : Initial c) {s : Config schema World AuthError Result}
    (h : (application env).Reachable c s) {later earlier : List (Nat × Event)} {args : RotateArgs}
    {found : TokenMatch} {result : RotationResult} {token : RefreshToken} {row : Locked}
    (hlog : s.core.store.log =
      later ++ (i, .session (.rotated args (some found) result)) :: earlier)
    (hcurrent : Current args found token row (replay c.db earlier))
    (hsession : args.now < row.session.expiresAt)
    (hfamily : args.now < row.family.absoluteExpiresAt) :
    (Attended row.sessionId earlier args.now → result.status ≠ .expired) ↔
      (Attended row.sessionId earlier args.now →
        Recorded row.sessionId c.db earlier args.now) := by
  obtain ⟨m, hm, rfl, hfollows, hagrees, _⟩ :=
    (history_of_reachable hinit.log h).around hinit.log hlog
  rw [← hm.db_eq hinit.log] at hcurrent
  have hiff := expired_iff_recorded hinit hm hfollows hagrees hcurrent hsession hfamily
  unfold Recorded
  rw [recordedAt_of_current hinit hm hcurrent] at hiff ⊢
  simp only [Option.some.injEq, exists_eq_left'] at hiff ⊢
  rw [ne_eq, hiff, Nat.not_le]

end Runs

/-- A refresh with a current token, short of the limits, with this answer; the session has been
in use until then. -/
def refreshedInUse (d : Db) (status : RotationStatus) (e : Event)
    (earlier : List (Nat × Event)) : Bool :=
  match e with
  | .session (.rotated args (some found) result) =>
      match (replay d earlier).tokens.get found.tokenId,
          (replay d earlier).sessions.get found.sessionId,
          (replay d earlier).families.get found.familyId with
      | some token, some session, some family =>
          decide (((token.tokenHash = args.tokenHash ∧ token.familyId = found.familyId ∧
            session.familyId = found.familyId) ∧ (token.usedAt = none ∧ token.revokedAt = none ∧
            family.revokedAt = none ∧ session.revokedAt = none ∧
            session.createdAt ≤ token.issuedAt)) ∧ (args.now < session.expiresAt ∧
            args.now < family.absoluteExpiresAt) ∧ result.status = status) &&
            (attendedAt found.sessionId earlier).any fun last =>
              decide (args.now < last + seconds idleTimeoutSeconds)
      | _, _, _ => false
  | _ => false

theorem current_of_refreshedInUse {d : Db} {status : RotationStatus} {e : Event}
    {earlier : List (Nat × Event)} (h : refreshedInUse d status e earlier = true) :
    ∃ args found result token row, e = .session (.rotated args (some found) result) ∧
      Current args found token row (replay d earlier) ∧ args.now < row.session.expiresAt ∧
      args.now < row.family.absoluteExpiresAt ∧ Attended row.sessionId earlier args.now ∧
      result.status = status := by
  unfold refreshedInUse at h
  split at h
  · rename_i args found result
    split at h
    · rename_i token session family htoken hsession hfamily
      simp only [Bool.and_eq_true, decide_eq_true_eq, Option.any_eq_true] at h
      obtain ⟨⟨⟨⟨hhash, howner, hmember⟩, hunused, hunrevoked, hactive, hlive, hissued⟩,
        ⟨hshort, hshort'⟩, hstatus⟩, last, hlast, hgap⟩ := h
      have hstored : Stored ⟨found.sessionId, session, family⟩ (replay d earlier).sessionTables :=
        ⟨hsession, by rw [show (session.familyId : Uuid) = _ from hmember]; exact hfamily⟩
      exact ⟨args, found, result, token, ⟨found.sessionId, session, family⟩, rfl,
        ⟨⟨htoken, hhash, howner, hstored, rfl, hmember⟩, hunused, hunrevoked, hactive, hlive,
          hissued⟩, hshort, hshort', ⟨last, hlast, hgap⟩, hstatus⟩
    · cases h
  · cases h

/-- What Ann's access token says. -/
def annClaims : AccessClaims :=
  ⟨.given 1, .drawn 1 4, .drawn 1 3, .drawn 1 2, 1000000, 901000000, .web, ["password"], none,
    none, []⟩

/-- Ann logs in, makes a request after a while and refreshes her session after another one. -/
def visitMoves (wait n : Nat) : List SampleMove :=
  signIn 0 "ann" ++ [.tick (seconds wait)] ++ perform 2 (.authenticate annClaims) 7 ++
    [.tick (seconds wait)] ++ perform 3 (.refresh (.drawn 1 0) .web "phone") n

theorem refresh_of_attended_soon :
    ∃ s, (application sampleEnv).Reachable sampleCore s ∧ ∃ later i args found result earlier,
        ∃ row : Locked,
      s.core.store.log = later ++ (i, .session (.rotated args (some found) result)) :: earlier ∧
        Attended row.sessionId earlier args.now ∧
        ((Attended row.sessionId earlier args.now → result.status ≠ .expired) ↔
          (Attended row.sessionId earlier args.now →
            Recorded row.sessionId sampleCore.db earlier args.now)) := by
  obtain ⟨s, hreach, hrun⟩ := Service.reachable_of_run
    (show ((application sampleEnv).run (Service.start sampleCore) (visitMoves 400 16)).map (fun s =>
        anyEntry (fun _ => refreshedInUse sampleCore.db .rotated) s.core.store.log) = some true by
      decide +kernel)
  obtain ⟨later, i, e, earlier, hlog, hentry⟩ := exists_of_anyEntry hrun
  obtain ⟨args, found, result, token, row, rfl, hcurrent, hshort, hshort', hattended, _⟩ :=
    current_of_refreshedInUse hentry
  exact ⟨s, hreach, later, i, args, found, result, earlier, row, hlog, hattended,
    refresh_of_attended sampleCore_initial hreach hlog hcurrent hshort hshort'⟩

/-- With longer gaps, each still shorter than the idle limit, the session is lost. -/
theorem attended_expired :
    ∃ s, (application sampleEnv).Reachable sampleCore s ∧
      ∃ later i args found result earlier token, ∃ row : Locked,
        s.core.store.log = later ++ (i, .session (.rotated args (some found) result)) :: earlier ∧
        Current args found token row (replay sampleCore.db earlier) ∧
        args.now < row.session.expiresAt ∧ args.now < row.family.absoluteExpiresAt ∧
        Attended row.sessionId earlier args.now ∧ result.status = .expired := by
  obtain ⟨s, hreach, hrun⟩ := Service.reachable_of_run
    (show ((application sampleEnv).run (Service.start sampleCore) (visitMoves 800 12)).map (fun s =>
        anyEntry (fun _ => refreshedInUse sampleCore.db .expired) s.core.store.log) = some true by
      decide +kernel)
  obtain ⟨later, i, e, earlier, hlog, hentry⟩ := exists_of_anyEntry hrun
  obtain ⟨args, found, result, token, row, rfl, hcurrent, hshort, hshort', hattended, hstatus⟩ :=
    current_of_refreshedInUse hentry
  exact ⟨s, hreach, later, i, args, found, result, earlier, token, row, hlog, hcurrent, hshort,
    hshort', hattended, hstatus⟩

end AuthCore
