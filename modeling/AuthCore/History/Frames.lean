/-
What the events of each repository leave alone.  A repository writes its own
tables; everything outside of them is the same after its commits.
-/
import AuthCore.History.Refinement

namespace AuthCore

open Interleave

/-- Whatever the commit of an event keeps at each of its writes, the event
keeps. -/
theorem Event.steps_change {R : Db → Db → Prop} {e : Event}
    (h : ∀ commit, e.commit = some commit → commit.body.Guarantees R) (d : Db) :
    Relation.ReflTransGen R d (e.change d) := by
  unfold Event.change
  cases hcommit : e.commit with
  | none => exact .refl
  | some commit => exact (h commit hcommit).commit d

theorem Event.keeps_change {γ : Type} {π : Db → γ} {e : Event}
    (h : ∀ commit, e.commit = some commit → commit.body.Guarantees (Tx.Keeps π)) (d : Db) :
    π (e.change d) = π d :=
  Tx.keeps_of_reflTransGen (Event.steps_change h d)

theorem Event.change_of_none {e : Event} (h : e.commit = none) (d : Db) : e.change d = d := by
  unfold Event.change
  rw [h]

/-- The key of the store that an event may write. -/
def Event.touches : Event → Option CacheKey
  | taken key _ => some key
  | put key _ _ => some key
  | removed key => some key
  | counted route subject _ _ => some (.rateLimit route subject)
  | otpStored user purpose _ => some (.otp user purpose)
  | otpExpires user purpose => some (.otp user purpose)
  | otpTried user purpose _ _ _ => some (.otp user purpose)
  | _ => none

theorem Event.cache_stored {e : Event} {key : CacheKey} (h : e.touches ≠ some key) (w : World) :
    (e.stored w).cache key = w.cache key := by
  cases e with
  | taken other value =>
      have hne : key ≠ other := by rintro rfl; exact h rfl
      simp [Event.stored, Cache.remove, hne]
  | put other value ttl =>
      have hne : key ≠ other := by rintro rfl; exact h rfl
      simp [Event.stored, Cache.put, hne]
  | removed other =>
      have hne : key ≠ other := by rintro rfl; exact h rfl
      simp [Event.stored, Cache.remove, hne]
  | counted route subject window count =>
      have hne : key ≠ .rateLimit route subject := by rintro rfl; exact h rfl
      simp only [Event.stored, Redis.count]
      split
      · simp [Cache.put, hne]
      · simp [Cache.put, hne]
  | otpStored user purpose hash =>
      have hne : key ≠ .otp user purpose := by rintro rfl; exact h rfl
      simp [Event.stored, Redis.setOtp, Cache.put, hne]
  | otpExpires user purpose =>
      have hne : key ≠ .otp user purpose := by rintro rfl; exact h rfl
      simp only [Event.stored, Redis.expireOtp]
      split
      · rfl
      · simp [Cache.put, hne]
  | otpTried user purpose candidate attempts outcome =>
      have hne : key ≠ .otp user purpose := by rintro rfl; exact h rfl
      simp only [Event.stored, Redis.tryOtp]
      split
      · rfl
      · split
        · simp [Cache.remove, hne]
        · split
          · simp [Cache.remove, hne]
          · simp [Cache.put, hne]
  | _ => rfl

theorem Event.issued_stored (e : Event) (w : World) :
    (e.stored w).issued = w.issued ∨
      ∃ claims, e = .signed claims ∧ (e.stored w).issued = claims :: w.issued := by
  cases e with
  | signed claims => exact Or.inr ⟨claims, rfl, rfl⟩
  | counted route subject window count =>
      simp only [Event.stored, Redis.count]
      split <;> exact Or.inl rfl
  | otpExpires user purpose =>
      simp only [Event.stored, Redis.expireOtp]
      split <;> exact Or.inl rfl
  | otpTried user purpose candidate attempts outcome =>
      simp only [Event.stored, Redis.tryOtp]
      split
      · exact Or.inl rfl
      · split
        · exact Or.inl rfl
        · split <;> exact Or.inl rfl
  | _ => exact Or.inl rfl

section Runs

variable {env : Env} {c c' : Core Db World}

/-- The database that a log leads to. -/
def replay (d : Db) (log : List (Nat × Event)) : Db :=
  log.foldr (fun entry d => entry.2.change d) d

@[simp]
theorem replay_cons (d : Db) (i : Nat) (e : Event) (log : List (Nat × Event)) :
    replay d ((i, e) :: log) = e.change (replay d log) :=
  rfl

/-- The database of a run is the one its log leads to. -/
theorem History.db_eq (h : History env c c') (hlog : c.store.log = []) :
    c'.db = replay c.db c'.store.log := by
  refine Ledger.Leads.preserves (P := fun m => m.db = replay c.db m.store.log) h ?_ ?_ ?_
  · rw [hlog]
    rfl
  · intro m i e _ hm _ _
    change e.change m.db = replay c.db ((ledger env).log ((ledger env).apply i e m).store)
    rw [(ledger env).log_apply, hm]
    rfl
  · intro m n _ hm
    exact hm

theorem History.now_le (h : History env c c') : c.store.now ≤ c'.store.now := by
  refine Ledger.Leads.preserves (P := fun m => c.store.now ≤ m.store.now) h le_rfl ?_ ?_
  · intro m i e _ hm _ _
    change c.store.now ≤ (e.stored m.store).now
    rw [Event.now_stored]
    exact hm
  · intro m n _ hm
    exact Nat.le_add_right_of_le hm

theorem Event.log_apply (i : Nat) (e : Event) (m : Core Db World) :
    (e.apply i m).store.log = (i, e) :: m.store.log := by
  change (i, e) :: (e.stored m.store).log = _
  rw [Event.log_stored]

/-- Induction over a stretch of a run, along with what was recorded in it. -/
theorem History.stretch {P : Core Db World → List (Nat × Event) → Prop} (h : History env c c')
    (hstart : P c [])
    (hevent : ∀ m between i e, History env c m → m.store.log = between ++ c.store.log →
      e.Follows env i (trace i m.store.log) → e.Agrees m → P m between →
      P (e.apply i m) ((i, e) :: between))
    (hpass : ∀ m between n, History env c m → P m between →
      P ⟨m.db, { m.store with now := m.store.now + n }⟩ between) :
    ∃ between, c'.store.log = between ++ c.store.log ∧ P c' between := by
  refine Ledger.Leads.preserves
    (P := fun m => ∃ between, m.store.log = between ++ c.store.log ∧ P m between) h
    ⟨[], rfl, hstart⟩ ?_ ?_
  · rintro m i e hm ⟨between, hlog, hP⟩ _ ⟨hfollows, hagrees⟩
    refine ⟨(i, e) :: between, ?_, hevent m between i e hm hlog hfollows hagrees hP⟩
    change (e.apply i m).store.log = _
    rw [Event.log_apply, hlog]
    rfl
  · rintro m n hm ⟨between, hlog, hP⟩
    exact ⟨between, hlog, hpass m between n hm hP⟩

/-- The same with what was recorded given. -/
theorem History.over {P : Core Db World → List (Nat × Event) → Prop} (h : History env c c')
    {between : List (Nat × Event)} (hlog : c'.store.log = between ++ c.store.log)
    (hstart : P c [])
    (hevent : ∀ m between i e, History env c m → m.store.log = between ++ c.store.log →
      e.Follows env i (trace i m.store.log) → e.Agrees m → P m between →
      P (e.apply i m) ((i, e) :: between))
    (hpass : ∀ m between n, History env c m → P m between →
      P ⟨m.db, { m.store with now := m.store.now + n }⟩ between) : P c' between := by
  obtain ⟨between', hlog', hP⟩ := h.stretch hstart hevent hpass
  rw [hlog, List.append_cancel_right_eq] at hlog'
  rwa [hlog']

theorem History.log_suffix (h : History env c c') : c.store.log <:+ c'.store.log :=
  Ledger.Leads.log_suffix h

theorem History.log_split (h : History env c c') :
    ∃ between, c'.store.log = between ++ c.store.log := by
  obtain ⟨between, hlog⟩ := Ledger.Leads.log_suffix h
  exact ⟨between, hlog.symm⟩

theorem History.event (h : History env c c') {i : Nat} {e : Event}
    (hfollows : e.Follows env i (trace i c'.store.log)) (hagrees : e.Agrees c') :
    History env c (e.apply i c') :=
  Ledger.Leads.event h trivial ⟨hfollows, hagrees⟩

theorem History.trans {c'' : Core Db World} (h : History env c c') (h' : History env c' c'') :
    History env c c'' :=
  Ledger.Leads.trans h h'

/-- An entry of the log with the states around it. -/
theorem History.around (h : History env c c') (hlog : c.store.log = [])
    {later earlier : List (Nat × Event)} {i : Nat} {e : Event}
    (hentry : c'.store.log = later ++ (i, e) :: earlier) :
    ∃ m, History env c m ∧ m.store.log = earlier ∧ e.Follows env i (trace i earlier) ∧
      e.Agrees m ∧ History env (e.apply i m) c' := by
  obtain ⟨m, hm, rfl, ⟨hfollows, hagrees⟩, hrest⟩ := Ledger.History.entry h hlog hentry
  exact ⟨m, hm, rfl, hfollows, hagrees, hrest⟩

/-- What each entry of a part of the log preserves, the whole part does; `P` also
sees the part before the entry. -/
theorem History.along {P : List (Nat × Event) → Db → Prop} (h : History env c c')
    (hempty : c.store.log = []) {later between earlier : List (Nat × Event)}
    (hlog : c'.store.log = later ++ (between ++ earlier)) (hstart : P [] (replay c.db earlier))
    (hevent : ∀ m i e after before, between = after ++ (i, e) :: before → History env c m →
      m.store.log = before ++ earlier → e.Follows env i (trace i m.store.log) → e.Agrees m →
      P before m.db → P ((i, e) :: before) (e.change m.db)) :
    P between (replay c.db (between ++ earlier)) := by
  induction between generalizing later with
  | nil => exact hstart
  | cons entry rest ih =>
      obtain ⟨i, e⟩ := entry
      obtain ⟨m, hm, hlog', hfollows, hagrees, _⟩ := h.around hempty
        (show c'.store.log = later ++ (i, e) :: (rest ++ earlier) by simp [hlog])
      have hrest := @ih (later ++ [(i, e)]) (by simp [hlog]) fun m' j e' after before heq =>
        hevent m' j e' ((i, e) :: after) before (by rw [heq, List.cons_append])
      rw [← hlog'] at hfollows
      rw [← hlog', ← hm.db_eq hempty] at hrest
      rw [List.cons_append, ← hlog', replay_cons, ← hm.db_eq hempty]
      exact hevent m i e [] rest rfl hm hlog' hfollows hagrees hrest

theorem History.through {P : Db → Prop} (h : History env c c') (hempty : c.store.log = [])
    {later between earlier : List (Nat × Event)}
    (hlog : c'.store.log = later ++ (between ++ earlier)) (hstart : P (replay c.db earlier))
    (hevent : ∀ m i e, (i, e) ∈ between → History env c m →
      e.Follows env i (trace i m.store.log) → e.Agrees m → P m.db → P (e.change m.db)) :
    P (replay c.db (between ++ earlier)) := by
  refine h.along (P := fun _ => P) hempty hlog hstart ?_
  intro m i e after before heq hm _ hfollows hagrees hP
  exact hevent m i e (heq ▸ List.mem_append_right _ List.mem_cons_self) hm hfollows hagrees hP

/-- What holds when a call asks its question `q` and what each entry since then
preserves. -/
theorem History.since {P : Db → Prop} (h : History env c c') (hempty : c.store.log = [])
    {m : Core Db World} (hm : History env c m) {waiting : List (Nat × Event)} {i : Nat}
    {q : Event} (hlog : c'.store.log = waiting ++ (i, q) :: m.store.log) (hquestion : q.commit = none)
    (hstart : P m.db)
    (hevent : ∀ l₁ k e l₂ m', waiting = l₁ ++ (k, e) :: l₂ → e.Agrees m' → P m'.db →
      P (e.change m'.db)) : P c'.db := by
  rw [h.db_eq hempty, hlog]
  refine h.through hempty (show c'.store.log = [] ++ (waiting ++ _) from hlog) ?_ ?_
  · rw [replay_cons, Event.change_of_none hquestion, ← hm.db_eq hempty]
    exact hstart
  · intro m' k e hmem _ _ hagrees hP
    obtain ⟨l₁, l₂, heq⟩ := List.append_of_mem hmem
    exact hevent l₁ k e l₂ m' heq hagrees hP

/-- What a call recorded is an entry of the log with the states around it. -/
theorem History.recorded (h : History env c c') (hlog : c.store.log = [])
    {i : Nat} {e : Event} {after before : List Event}
    (htrace : trace i c'.store.log = after ++ e :: before) :
    ∃ m, History env c m ∧ trace i m.store.log = before ∧ e.Follows env i before ∧
      e.Agrees m ∧ History env (e.apply i m) c' := by
  obtain ⟨later, earlier, hentry, _, rfl⟩ := log_of_trace htrace
  obtain ⟨m, hm, rfl, hfollows, hagrees, hrest⟩ := h.around hlog hentry
  exact ⟨m, hm, rfl, hfollows, hagrees, hrest⟩

/-- The clock of a state is not behind any reading in its log. -/
theorem History.clock_le (h : History env c c') (hlog : c.store.log = []) {i : Nat} {now : Time}
    (hmem : (i, .clock now) ∈ c'.store.log) : now ≤ c'.store.now := by
  obtain ⟨earlier, later, hsplit⟩ := List.append_of_mem hmem
  obtain ⟨m, _, _, _, hagrees, hrest⟩ := h.around hlog hsplit
  have htells : now = m.store.now := hagrees.tells
  exact htells ▸ hrest.now_le

/-- Access tokens are what calls have signed. -/
theorem History.signed_of_issued (h : History env c c') (hissued : c.store.issued = [])
    {claims : AccessClaims} (hmem : claims ∈ c'.store.issued) :
    ∃ i, (i, .signed claims) ∈ c'.store.log := by
  refine Ledger.Leads.preserves (P := fun m => claims ∈ m.store.issued →
    ∃ i, (i, Event.signed claims) ∈ m.store.log) h ?_ ?_ ?_ hmem
  · intro hmem
    rw [hissued] at hmem
    cases hmem
  · intro m i e _ ih _ _ hmem
    change claims ∈ (e.stored m.store).issued at hmem
    change ∃ j, (j, Event.signed claims) ∈ (e.apply i m).store.log
    rw [Event.log_apply]
    rcases e.issued_stored m.store with hsame | ⟨other, rfl, hnew⟩
    · obtain ⟨j, hj⟩ := ih (hsame ▸ hmem)
      exact ⟨j, List.mem_cons_of_mem _ hj⟩
    · rw [hnew] at hmem
      rcases List.mem_cons.mp hmem with rfl | hold
      · exact ⟨i, List.mem_cons_self⟩
      · obtain ⟨j, hj⟩ := ih hold
        exact ⟨j, List.mem_cons_of_mem _ hj⟩
  · intro m n _ ih hmem
    exact ih hmem

theorem History.issued_mono (h : History env c c') {claims : AccessClaims}
    (hmem : claims ∈ c.store.issued) : claims ∈ c'.store.issued := by
  refine Ledger.Leads.preserves (P := fun m => claims ∈ m.store.issued) h hmem ?_ ?_
  · intro m i e _ ih _ _
    change claims ∈ (e.stored m.store).issued
    rcases e.issued_stored m.store with hsame | ⟨other, _, hnew⟩
    · rw [hsame]
      exact ih
    · rw [hnew]
      exact List.mem_cons_of_mem _ ih
  · intro m n _ ih
    exact ih

/-- The store holds `key` at least until `time`. -/
def Lasts (key : CacheKey) (time : Time) (w : World) : Prop :=
  ∃ value expiry, w.cache key = some (value, some expiry) ∧ time ≤ expiry

theorem Lasts.isSome {key : CacheKey} {time : Time} {w : World} (h : Lasts key time w)
    (hnow : w.now < time) : (w.cache.get w.now key).isSome = true := by
  obtain ⟨value, expiry, hcache, hexpiry⟩ := h
  simp [Cache.get, hcache, lt_of_lt_of_le hnow hexpiry]

/-- A key that is only ever written again, and for the same time, stays. -/
theorem Lasts.later {key : CacheKey} {time : Time} (ttl : Nat) (h : Lasts key time c.store)
    (htime : time ≤ c.store.now + seconds ttl)
    (hwritten : ∀ (i : Nat) (t : List Event) (e : Event), e.Follows env i t →
      e.touches = some key → ∃ value, e = .put key value ttl)
    (hlater : History env c c') : Lasts key time c'.store := by
  refine (Ledger.Leads.preserves (P := fun m => Lasts key time m.store ∧
    time ≤ m.store.now + seconds ttl) hlater ⟨h, htime⟩ ?_ ?_).1
  · rintro m i e _ ⟨hlasts, htime⟩ _ ⟨hfollows, _⟩
    change Lasts key time ((e.stored m.store).record i e) ∧ time ≤ (e.stored m.store).now + _
    rw [Event.now_stored]
    refine ⟨?_, htime⟩
    by_cases htouches : e.touches = some key
    · obtain ⟨value, rfl⟩ := hwritten i _ e hfollows htouches
      exact ⟨value, _, by simp [Event.stored, World.record, Cache.put], htime⟩
    · obtain ⟨value, expiry, hcache, hexpiry⟩ := hlasts
      exact ⟨value, expiry, (Event.cache_stored htouches _).trans hcache, hexpiry⟩
  · rintro m n _ ⟨hlasts, htime⟩
    refine ⟨hlasts, htime.trans ?_⟩
    exact Nat.add_le_add_right (Nat.le_add_right _ _) _

/-- What has been verified had been signed. -/
theorem History.issued_of_verified (h : History env c c') (hlog : c.store.log = []) {i : Nat}
    {claims : AccessClaims} (hmem : (i, .verified claims true) ∈ c'.store.log) :
    claims ∈ c'.store.issued := by
  obtain ⟨later, earlier, hsplit⟩ := List.append_of_mem hmem
  obtain ⟨m, _, _, _, hagrees, hrest⟩ := h.around hlog hsplit
  refine hrest.issued_mono ?_
  have htells : true = verifies claims m.store := hagrees.tells
  simp only [verifies, Bool.true_eq, Bool.and_eq_true, decide_eq_true_eq] at htells
  exact htells.1.1

end Runs

section Sessions

open SessionRepository

variable {R : Db → Db → Prop}

theorem guarantees_lockJoined (condition : Session → RefreshTokenFamily → Bool)
    (found : SessionMatch) : (lockJoined condition found).Guarantees R := by
  refine (guarantees_lockRow R _).bind fun family => ?_
  refine (guarantees_lockRow R _).bind fun session => ?_
  split
  · split <;> trivial
  · trivial

/-- The database without the tables of the session repository. -/
def Db.outsideSessions (d : Db) : Db :=
  { d with families := ∅, tokens := ∅, sessions := ∅ }

theorem keeps_revokeLocked (row : Locked) (now : Time) (reason : String) :
    (revokeLocked row now reason).Guarantees (Tx.Keeps Db.outsideSessions) :=
  ⟨fun _ => rfl, fun _ => rfl, fun _ => rfl, trivial⟩

theorem keeps_insertSession (args : CreateArgs) (found : List SessionMatch) :
    (insertSession args found).Guarantees (Tx.Keeps Db.outsideSessions) := by
  refine (Tx.guarantees_collect (guarantees_lockJoined _) _).bind fun rows => ?_
  refine Tx.Guarantees.bind (Tx.guarantees_each ?_ _) fun _ => ?_
  · exact fun row => ⟨fun _ => rfl, fun _ => rfl, fun _ => rfl, trivial⟩
  · refine ⟨fun _ => rfl, fun _ => rfl, ?_⟩
    exact (guarantees_reserve _ _ _).bind fun _ => ⟨fun _ => rfl, trivial⟩

theorem keeps_rotateMatch (args : RotateArgs) (found : Option TokenMatch) :
    (rotateMatch args found).Guarantees (Tx.Keeps Db.outsideSessions) := by
  cases found with
  | none => trivial
  | some found =>
      refine (guarantees_lockRow _ _).bind fun family => ?_
      refine (guarantees_lockRow _ _).bind fun session => ?_
      dsimp only
      split
      · split
        · unfold rotateLocked
          split
          · exact (keeps_revokeLocked _ _ _).bind fun _ => trivial
          · split
            · trivial
            · split
              · exact (keeps_revokeLocked _ _ _).bind fun _ => trivial
              · split
                · exact (keeps_revokeLocked _ _ _).bind fun _ => trivial
                · refine ⟨fun _ => rfl, ?_⟩
                  exact (guarantees_reserve _ _ _).bind fun _ =>
                    ⟨fun _ => rfl, fun _ => rfl, trivial⟩
        · trivial
      · trivial

theorem SessionEvent.keeps (event : SessionEvent) {commit : Commit}
    (h : event.commit = some commit) :
    commit.body.Guarantees (Tx.Keeps Db.outsideSessions) := by
  cases event with
  | created args found result =>
      cases h
      exact keeps_insertSession args found
  | rotated args found result =>
      cases h
      exact keeps_rotateMatch args found
  | revoked args found result =>
      cases h
      cases found with
      | none => trivial
      | some found =>
          refine (guarantees_lockJoined _ _).bind fun locked => ?_
          split
          · trivial
          · exact (keeps_revokeLocked _ _ _).bind fun _ => trivial
  | revokedAll args found results =>
      cases h
      refine (Tx.guarantees_collect (guarantees_lockJoined _) _).bind fun rows => ?_
      exact (Tx.guarantees_each (fun row => keeps_revokeLocked row _ _) rows).bind fun _ => trivial
  | «scoped» args found result =>
      cases h
      cases found with
      | none => trivial
      | some found =>
          refine (guarantees_lockJoined _ _).bind fun locked => ?_
          split
          · trivial
          · exact ⟨fun _ => rfl, trivial⟩
  | _ => cases h

end Sessions

section Workspaces

open WorkspaceRepository

/-- The database without the tables of the workspace repository. -/
def Db.outsideWorkspaces (d : Db) : Db :=
  { d with organizations := ∅, bindings := ∅, invitations := ∅, audit := [] }

theorem guarantees_revokeInvitation {R : Db → Db → Prop} (condition : Invitation → Bool)
    (hset : ∀ d id g, R d ((DbChange.setInvitation id g).apply d)) (id : Uuid) :
    (revokeInvitation condition id).Guarantees R := by
  refine (guarantees_lockRow R _).bind fun row => ?_
  split
  · trivial
  · split
    · exact ⟨fun d => hset d _ _, trivial⟩
    · trivial

theorem guarantees_revokeBinding {R : Db → Db → Prop} {user org : Uuid} {now : Time}
    (hrevoke : ∀ d id row, row.userId = user → row.orgId = org →
      R d ((DbChange.revokeBinding id row now).apply d)) (id : Uuid) :
    (revokeBinding user org now id).Guarantees R := by
  refine (guarantees_lockRow R _).bind fun row => ?_
  split
  · trivial
  · rename_i row hrow
    split
    · rename_i hmatch
      simp only [Bool.and_eq_true, beq_iff_eq] at hmatch
      exact ⟨fun d => hrevoke d id row hmatch.1.1 hmatch.1.2, trivial⟩
    · trivial

theorem guarantees_lockScoped {R : Db → Db → Prop} (args : MemberArgs) (id : Uuid) :
    (lockScoped args id).Guarantees R := by
  refine (guarantees_lockRow R _).bind fun session => ?_
  split
  · trivial
  · split <;> trivial

theorem WorkspaceEvent.keeps (event : WorkspaceEvent) {commit : Commit}
    (h : event.commit = some commit)
    (hstays : ∀ args departure result, event ≠ .offboarded args departure result) :
    commit.body.Guarantees (Tx.Keeps Db.outsideWorkspaces) := by
  unfold WorkspaceEvent.commit at h
  split at h
  · cases h
    refine Tx.Guarantees.bind (guarantees_write fun _ => rfl) fun _ => ?_
    refine Tx.Guarantees.bind (Tx.guarantees_each ?_ _) fun _ => ?_
    · exact guarantees_grant (fun _ _ _ => rfl) _ _ _ _
    · exact ⟨fun _ => rfl, trivial⟩
  · cases h
    refine Tx.Guarantees.bind (Tx.guarantees_each ?_ _) fun _ => ?_
    · exact guarantees_revokeInvitation _ fun _ _ _ => rfl
    · exact ⟨fun _ => rfl, fun _ => rfl, trivial⟩
  · cases h
    exact guarantees_revokeInvitation _ (fun _ _ _ => rfl) _
  · cases h
    refine Tx.Guarantees.bind (Tx.Guarantees.bind (Tx.guarantees_each ?_ _) ?_) fun _ => ?_
    · exact guarantees_grant (fun _ _ _ => rfl) _ _ _ _
    · exact fun _ => ⟨fun _ => rfl, trivial⟩
    · split
      · exact ⟨fun _ => rfl, trivial⟩
      · trivial
  · cases h
    refine Tx.Guarantees.bind (Tx.Guarantees.bind (Tx.guarantees_collect ?_ _) ?_) fun _ => ?_
    · exact guarantees_revokeBinding fun _ _ _ _ _ => rfl
    · exact fun _ => Tx.guarantees_each (guarantees_grant (fun _ _ _ => rfl) _ _ _ _) _
    · split
      · exact ⟨fun _ => rfl, trivial⟩
      · trivial
  · exact absurd rfl (hstays _ _ _)
  · cases h

/-- What an offboarding leaves alone. -/
theorem keeps_offboardWrites (args : MemberArgs) (departure : Departure) :
    (offboardWrites args departure).Guarantees
      (Tx.Keeps fun d => { d with bindings := ∅, sessions := ∅, audit := [] }) := by
  refine (Tx.guarantees_collect (guarantees_revokeBinding fun _ _ _ _ _ => rfl) _).bind fun _ => ?_
  refine Tx.Guarantees.bind ?_ fun _ => ⟨fun _ => rfl, trivial⟩
  refine (Tx.guarantees_collect (guarantees_lockScoped args) _).bind fun rows => ?_
  refine Tx.Guarantees.bind (Tx.guarantees_each ?_ _) fun _ => trivial
  exact fun _ => guarantees_write fun _ => rfl

end Workspaces

section Accounts

open PrivacyRepository

/-- The database without the tables that account events write, erasures
apart. -/
def Db.outsideAccounts (d : Db) : Db :=
  { d with users := ∅, requests := ∅, exports := ∅, artifacts := ∅, audit := [] }

theorem AccountEvent.keeps (event : AccountEvent) {commit : Commit}
    (h : event.commit = some commit)
    (hstays : ∀ args email found result, event ≠ .erased args (.erased email found) result) :
    commit.body.Guarantees (Tx.Keeps Db.outsideAccounts) := by
  unfold AccountEvent.commit at h
  split at h
  · cases h
    refine (guarantees_lockRow _ _).bind fun row => ?_
    split
    · trivial
    · split
      · trivial
      · exact ⟨fun _ => rfl, fun _ => rfl, trivial⟩
  · cases h
    exact (guarantees_reserve _ _ _).bind fun _ => ⟨fun _ => rfl, fun _ => rfl, trivial⟩
  · cases h
    exact ⟨fun _ => rfl, trivial⟩
  · exact absurd rfl (hstays _ _ _ _)
  · cases h
    refine (guarantees_lockRow _ _).bind fun row => ?_
    split
    · trivial
    · split
      · exact ⟨fun _ => rfl, trivial⟩
      · trivial
  · cases h
    exact (guarantees_reserve _ _ _).bind fun _ => ⟨fun _ => rfl, fun _ => rfl, trivial⟩
  · cases h
    refine (guarantees_lockRow _ _).bind fun row => ?_
    split
    · trivial
    · split
      · exact (guarantees_reserve _ _ _).bind fun _ =>
          ⟨fun _ => rfl, fun _ => rfl, fun _ => rfl, trivial⟩
      · trivial
  · cases h
    refine (guarantees_lockRow _ _).bind fun row => ?_
    split
    · trivial
    · split
      · exact ⟨fun _ => rfl, trivial⟩
      · trivial
  · cases h

end Accounts

section Logins

/-- The database without the tables of the login repository. -/
def Db.outsideLogins (d : Db) : Db :=
  { d with users := ∅, identities := ∅, organizations := ∅, devices := ∅, audit := [] }

theorem guarantees_noteDevice {R : Db → Db → Prop} {args : SignalArgs}
    (hadd : ∀ d id row, R d ((DbChange.addDevice id row).apply d))
    (htouch : ∀ d id, R d ((DbChange.touchDevice id args.ip args.now).apply d))
    (found : Option Uuid) : (LoginRepository.noteDevice args found).Guarantees R := by
  have hunknown : (LoginRepository.noteDevice.unknown args).Guarantees R :=
    (guarantees_reserve _ _ _).bind fun _ => ⟨fun d => hadd d _ _, trivial⟩
  cases found with
  | none => exact hunknown
  | some id =>
      refine (guarantees_lockRow _ _).bind fun row => ?_
      split
      · split
        · exact ⟨fun d => htouch d _, trivial⟩
        · exact hunknown
      · exact hunknown

theorem guarantees_storePasswordHash {R : Db → Db → Prop} {hash : String}
    (h : ∀ d id, R d ((DbChange.setPasswordHash id hash).apply d)) (user : Uuid)
    (found : Option Uuid) : (LoginRepository.storePasswordHash user hash found).Guarantees R := by
  cases found with
  | none => trivial
  | some id =>
      refine (guarantees_lockRow _ _).bind fun row => ?_
      split
      · trivial
      · split
        · exact guarantees_write fun d => h d id
        · trivial

theorem LoginEvent.keeps (event : LoginEvent) {commit : Commit}
    (h : event.commit = some commit) :
    commit.body.Guarantees (Tx.Keeps Db.outsideLogins) := by
  cases event with
  | signalled args found result =>
      cases h
      exact guarantees_noteDevice (fun _ _ _ => rfl) (fun _ _ => rfl) found
  | passwordUpdated user hash found =>
      cases h
      exact guarantees_storePasswordHash (fun _ _ => rfl) user found
  | provisioned args result =>
      cases h
      refine (guarantees_newUser _ _).bind fun _ => (guarantees_reserve _ _ _).bind fun _ => ?_
      refine ⟨fun _ => rfl, fun _ => rfl, ?_⟩
      exact (guarantees_reserve _ _ _).bind fun _ => ⟨fun _ => rfl, fun _ => rfl, trivial⟩
  | _ => cases h

/-- The database without the tables of the factor repository. -/
def Db.outsideFactors (d : Db) : Db :=
  { d with mfaDevices := ∅, credentials := ∅, identities := ∅ }

theorem guarantees_changeFactor {R : Db → Db → Prop} {id : Uuid} {g : MFADevice → MFADevice}
    (condition : MFADevice → Bool) (hset : ∀ d, R d ((DbChange.setFactor id g).apply d)) :
    (MFARepository.changeFactor id condition g).Guarantees R := by
  refine (guarantees_lockRow _ _).bind fun row => ?_
  split
  · trivial
  · split
    · exact ⟨hset, trivial⟩
    · trivial

/-- The writes of the factor repository, links apart. -/
structure FactorWrites (R : Db → Db → Prop) (owner : Uuid → Prop) : Prop where
  addFactor : ∀ d id row, owner row.userId → R d ((DbChange.addFactor id row).apply d)
  setFactor : ∀ d id g, (∀ row, (g row).userId = row.userId) →
    R d ((DbChange.setFactor id g).apply d)
  addCredential : ∀ d id row, R d ((DbChange.addCredential id row).apply d)
  setCredential : ∀ d id g, R d ((DbChange.setCredential id g).apply d)

/-- The user that an event adds a factor for. -/
def MFAEvent.enrols : MFAEvent → Uuid → Prop
  | pendingTotpCreated owner _ _ _ _ _, u => owner = u
  | backupStored owner _ _ _ _, u => owner = u
  | passkeyCreated owner _ _ _ _ _ _, u => owner = u
  | _, _ => False

theorem useCode_userId (candidate : Digest) (now : Time) (row : MFADevice) :
    (MFARepository.useCode candidate now row).userId = row.userId := by
  unfold MFARepository.useCode
  split <;> rfl

theorem MFAEvent.guarantees {R : Db → Db → Prop} (event : MFAEvent)
    (hwrites : FactorWrites R event.enrols)
    (hlink : ∀ owner provider subject id, event = .linked owner provider subject id →
      ∀ d, R d ((DbChange.addIdentity id ⟨owner, provider, subject, none, true⟩).apply d))
    {commit : Commit} (h : event.commit = some commit) : commit.body.Guarantees R := by
  cases event with
  | pendingTotpCreated owner secret label id now found =>
      cases h
      refine Tx.Guarantees.bind (Tx.guarantees_each ?_ _) fun _ =>
        guarantees_write fun d => hwrites.addFactor d _ _ rfl
      intro id
      refine (guarantees_lockRow _ _).bind fun row => ?_
      split
      · trivial
      · split
        · exact guarantees_write fun d => hwrites.setFactor d _ _ fun _ => rfl
        · trivial
  | backupStored owner hashes id now found =>
      cases h
      cases found with
      | none => exact guarantees_write fun d => hwrites.addFactor d _ _ rfl
      | some factor =>
          refine Tx.Guarantees.bind
            (guarantees_changeFactor _ fun d => hwrites.setFactor d _ _ fun _ => rfl)
            fun changed => ?_
          split
          · trivial
          · exact guarantees_write fun d => hwrites.addFactor d _ _ rfl
  | backupConsumed owner candidate now found result =>
      cases h
      cases found with
      | none => trivial
      | some factor =>
          exact guarantees_changeFactor _ fun d => hwrites.setFactor d _ _ (useCode_userId _ _)
  | passkeyCreated owner label credential publicKey signCount id now =>
      cases h
      refine ⟨fun d => hwrites.addFactor d _ _ rfl, (guarantees_lockRow _ _).bind fun taken => ?_⟩
      split
      · trivial
      · exact guarantees_write fun d => hwrites.addCredential d _ _
  | counterUpdated credential previous new backupState result =>
      cases h
      refine (guarantees_lockRow _ _).bind fun row => ?_
      split
      · trivial
      · split
        · exact ⟨fun d => hwrites.setCredential d _ _, trivial⟩
        · trivial
  | linked owner provider subject id =>
      cases h
      exact (guarantees_reserve _ _ _).bind fun _ =>
        guarantees_write (hlink owner provider subject id rfl)
  | totpActivated owner id step now result =>
      cases h
      exact guarantees_changeFactor _ fun d => hwrites.setFactor d _ _ fun _ => rfl
  | totpAdvanced id previous step now result =>
      cases h
      exact guarantees_changeFactor _ fun d => hwrites.setFactor d _ _ fun _ => rfl
  | factorRevoked owner id now result =>
      cases h
      exact guarantees_changeFactor _ fun d => hwrites.setFactor d _ _ fun _ => rfl
  | _ => cases h

theorem MFAEvent.keeps (event : MFAEvent) {commit : Commit} (h : event.commit = some commit) :
    commit.body.Guarantees (Tx.Keeps Db.outsideFactors) :=
  event.guarantees ⟨fun _ _ _ _ => rfl, fun _ _ _ _ => rfl, fun _ _ _ => rfl, fun _ _ _ => rfl⟩
    (fun _ _ _ _ _ _ => rfl) h

end Logins

section Recovery

open RegistrationRepository RecoveryRepository

/-- The database without the tables of registration and recovery. -/
def Db.outsideRecovery (d : Db) : Db :=
  { d with
    users := ∅, identities := ∅, mfaDevices := ∅, organizations := ∅, history := ∅,
    ephemeral := ∅, contactChanges := ∅, governed := ∅, audit := [] }

theorem guarantees_useUp {R : Db → Db → Prop} {args : MailArgs}
    (h : ∀ d id, R d ((DbChange.useMailed id args.now).apply d)) (id : Uuid) :
    (useUp args id).Guarantees R := by
  refine (guarantees_lockRow R _).bind fun token => ?_
  split
  · trivial
  · split
    · exact guarantees_write fun d => h d _
    · trivial

theorem guarantees_lockMailed (R : Db → Db → Prop) (hash : Digest)
    (purposes : List TokenPurpose) (now : Time) (found : Option Uuid) :
    (lockMailed hash purposes now found).Guarantees R := by
  cases found with
  | none => trivial
  | some id =>
      refine (guarantees_lockRow R _).bind fun token => ?_
      split
      · trivial
      · split <;> trivial

theorem guarantees_markVerified {R : Db → Db → Prop} {user : Uuid} {provider : IdentityProvider}
    (h : ∀ d id, R d ((DbChange.setVerified id).apply d)) (id : Uuid) :
    (markVerified user provider id).Guarantees R := by
  refine (guarantees_lockRow R _).bind fun identity => ?_
  split
  · trivial
  · split
    · exact guarantees_write fun d => h d _
    · trivial

theorem guarantees_cancelContactChange {R : Db → Db → Prop} {args : ContactArgs}
    (h : ∀ d id applied,
      R d ((DbChange.closeContactChange args.userId id .cancelled applied).apply d)) (id : Uuid) :
    (cancelContactChange args id).Guarantees R := by
  refine (guarantees_lockRow R _).bind fun request => ?_
  split
  · trivial
  · split
    · exact guarantees_write fun d => h d _ _
    · trivial

theorem guarantees_lockLogin (R : Db → Db → Prop) (user : Uuid) (contactType : ContactType)
    (id : Uuid) : (lockLogin user contactType id).Guarantees R := by
  refine (guarantees_lockRow R _).bind fun identity => ?_
  split
  · trivial
  · split <;> trivial

theorem guarantees_moveLogin {R : Db → Db → Prop} {user : Uuid} {contactType : ContactType}
    {value : String} (h : ∀ d id row, R d ((DbChange.setSubject id row value).apply d))
    (ids : List Uuid) : (moveLogin user contactType value ids).Guarantees R := by
  refine (Tx.guarantees_collect (guarantees_lockLogin R _ _) _).bind fun rows => ?_
  match rows with
  | [] => trivial
  | [row] =>
      exact (guarantees_reserve R _ _).bind fun _ => guarantees_write fun d => h d _ _
  | _ :: _ :: _ => trivial

/-- The write of a governed reset that revokes a factor. -/
def FactorRevoking (R : Db → Db → Prop) : Prop :=
  ∀ d id now, R d ((DbChange.setFactor id (revokedFactor now)).apply d)

theorem guarantees_revokeFactor {R : Db → Db → Prop} {user : Uuid} {now : Time}
    (h : FactorRevoking R) (id : Uuid) :
    (RecoveryRepository.revokeFactor user now id).Guarantees R :=
  Tx.Guarantees.bind (guarantees_changeFactor _ fun d => h d _ _) fun _ => trivial

/-- The writes of registration and password recovery; `new` are the identities
that are added. -/
structure RecoveryWrites (R : Db → Db → Prop) (new : Identity → Prop)
    (mail : Uuid → EphemeralToken → Prop) : Prop where
  addUser : ∀ d id row, R d ((DbChange.addUser id row).apply d)
  addOrganization : ∀ d id row, R d ((DbChange.addOrganization id row).apply d)
  addIdentity : ∀ d id row, new row → R d ((DbChange.addIdentity id row).apply d)
  addHistory : ∀ d id row, R d ((DbChange.addHistory id row).apply d)
  deleteHistory : ∀ d id ids, R d ((DbChange.deleteHistory id ids).apply d)
  addMailed : ∀ d id row, mail id row → R d ((DbChange.addMailed id row).apply d)
  useMailed : ∀ d id now, R d ((DbChange.useMailed id now).apply d)
  bumpUser : ∀ d id g, R d ((DbChange.bumpUser id g).apply d)
  setPasswordHash : ∀ d id hash, R d ((DbChange.setPasswordHash id hash).apply d)
  setVerified : ∀ d id, R d ((DbChange.setVerified id).apply d)
  audit : ∀ d entry, R d ((DbChange.addAudit entry).apply d)

/-- The writes of a contact change. -/
structure ContactWrites (R : Db → Db → Prop) : Prop where
  addContactChange : ∀ d id row, R d ((DbChange.addContactChange id row).apply d)
  proveContact : ∀ d id proof now, R d ((DbChange.proveContact id proof now).apply d)
  closeContactChange : ∀ d user id state applied,
    R d ((DbChange.closeContactChange user id state applied).apply d)
  setContact : ∀ d id contactType old new,
    R d ((DbChange.setContact id contactType old new).apply d)
  setSubject : ∀ d id row subject, R d ((DbChange.setSubject id row subject).apply d)

/-- The writes of a governed request. -/
structure GovernedWrites (R : Db → Db → Prop) : Prop where
  addGoverned : ∀ d id row, R d ((DbChange.addGoverned id row).apply d)
  setGoverned : ∀ d id g, R d ((DbChange.setGoverned id g).apply d)

/-- The events of a contact change. -/
def RecoveryEvent.movesContact : RecoveryEvent → Bool
  | contactStarted .. => true
  | contactVerified .. => true
  | _ => false

/-- The events of a governed request. -/
def RecoveryEvent.isGoverned : RecoveryEvent → Bool
  | resetInitiated .. => true
  | resetApproved .. => true
  | resetExecuted .. => true
  | _ => false

def RecoveryEvent.isExecution : RecoveryEvent → Bool
  | resetExecuted .. => true
  | _ => false

/-- The identity that an event inserts along with its user. -/
def RecoveryEvent.registers : RecoveryEvent → Identity → Prop
  | emailRegistered args, row => row.userId = .drawn args.call 0 ∧ row.provider = .password
  | phoneRegistered args, row => row.userId = .drawn args.call 0 ∧ row.provider = .phone
  | _, _ => False

/-- The token that an event inserts. -/
def RecoveryEvent.mails : RecoveryEvent → Uuid → EphemeralToken → Prop
  | emailRegistered args, id, row => id = .drawn args.call 4 ∧ row.purpose = .emailVerify
  | mailed args _, id, row =>
      id = args.tokenId ∧ row = ⟨args.userId, args.tokenHash, args.purpose, args.expiresAt, none⟩
  | _, _, _ => False

section Writes

variable {R : Db → Db → Prop} {new : Identity → Prop} {mail : Uuid → EphemeralToken → Prop}
  (hwrites : RecoveryWrites R new mail)
include hwrites

theorem guarantees_insertEmailAccount (args : EmailArgs)
    (hnew : ∀ row, row.userId = .drawn args.call 0 → row.provider = .password → new row)
    (hmail : ∀ row : EphemeralToken, row.purpose = .emailVerify → mail (.drawn args.call 4) row) :
    (insertEmailAccount args).Guarantees R := by
  refine (guarantees_newUser _ _).bind fun _ => (guarantees_reserve _ _ _).bind fun _ => ?_
  refine ⟨fun d => hwrites.addUser d _ _, fun d => hwrites.addOrganization d _ _,
    (guarantees_reserve _ _ _).bind fun _ => ?_⟩
  refine ⟨fun d => hwrites.addIdentity d _ _ (hnew _ rfl rfl), fun d => hwrites.addHistory d _ _,
    (guarantees_reserve _ _ _).bind fun _ => ?_⟩
  exact ⟨fun d => hwrites.addMailed d _ _ (hmail _ rfl), fun d => hwrites.audit d _, trivial⟩

theorem guarantees_insertPhoneAccount (args : PhoneArgs)
    (hnew : ∀ row, row.userId = .drawn args.call 0 → row.provider = .phone → new row) :
    (insertPhoneAccount args).Guarantees R := by
  refine (guarantees_newUser _ _).bind fun _ => (guarantees_reserve _ _ _).bind fun _ => ?_
  refine ⟨fun d => hwrites.addUser d _ _, fun d => hwrites.addOrganization d _ _,
    (guarantees_reserve _ _ _).bind fun _ => ?_⟩
  exact ⟨fun d => hwrites.addIdentity d _ _ (hnew _ rfl rfl), fun d => hwrites.audit d _, trivial⟩

theorem guarantees_insertMailed (args : MailArgs) (found : List Uuid)
    (hmail : mail args.tokenId
      ⟨args.userId, args.tokenHash, args.purpose, args.expiresAt, none⟩) :
    (insertMailed args found).Guarantees R := by
  refine (Tx.guarantees_each (guarantees_useUp fun d _ => hwrites.useMailed d _ _) _).bind
    fun _ => ?_
  exact (guarantees_reserve _ _ _).bind fun _ =>
    ⟨fun d => hwrites.addMailed d _ _ hmail, fun d => hwrites.audit d _, trivial⟩

theorem guarantees_verifyMailed (hash : Digest) (now : Time) (found : Option Uuid) :
    (verifyMailed hash now found).Guarantees R := by
  refine (guarantees_lockMailed _ _ _ _ _).bind fun locked => ?_
  split
  · trivial
  · refine ⟨fun d => hwrites.useMailed d _ _, (guarantees_lockRow _ _).bind fun view => ?_⟩
    split
    · refine Tx.Guarantees.bind (guarantees_write fun d => hwrites.bumpUser d _ _) fun _ => ?_
      refine (Tx.guarantees_each (guarantees_markVerified fun d _ => hwrites.setVerified d _)
        _).bind fun _ => ?_
      exact ⟨fun d => hwrites.audit d _, trivial⟩
    · trivial

theorem guarantees_activatePhone (user : Uuid) : (activatePhone user).Guarantees R := by
  refine (guarantees_lockRow _ _).bind fun view => ?_
  split
  · refine ⟨fun d => hwrites.bumpUser d _ _, ?_⟩
    split
    · trivial
    · exact (guarantees_markVerified (fun d _ => hwrites.setVerified d _) _).bind fun _ =>
        ⟨fun d => hwrites.audit d _, trivial⟩
  · trivial

theorem guarantees_resetWith (known : String → Bool) (args : ResetArgs) (found : Option Uuid) :
    (resetWith known args found).Guarantees R := by
  refine (guarantees_lockMailed _ _ _ _ _).bind fun locked => ?_
  split
  · trivial
  · refine (guarantees_lockRow _ _).bind fun view => ?_
    split
    · refine (guarantees_lockRow _ _).bind fun identity => ?_
      unfold resetIdentity
      split
      · trivial
      · split
        · trivial
        · exact ⟨fun d => hwrites.useMailed d _ _, fun d => hwrites.setPasswordHash d _ _,
            fun d => hwrites.addHistory d _ _, fun d => hwrites.deleteHistory d _ _,
            fun d => hwrites.bumpUser d _ _, fun d => hwrites.audit d _, trivial⟩
    · trivial

theorem guarantees_unlock (target actor : Uuid) :
    (RecoveryRepository.unlock target actor).Guarantees R := by
  refine (guarantees_lockRow _ _).bind fun view => ?_
  split
  · trivial
  · exact ⟨fun d => hwrites.bumpUser d _ _, fun d => hwrites.audit d _, trivial⟩

theorem guarantees_startContactChange (hcontact : ContactWrites R) (args : ContactArgs) :
    (startContactChange (pure ()) args).Guarantees R := by
  refine (guarantees_lockRow _ _).bind fun view => ?_
  unfold startLocked
  split
  · trivial
  · refine (Tx.guarantees_each (guarantees_cancelContactChange fun d _ _ =>
      hcontact.closeContactChange d _ _ _ _) _).bind fun _ => ?_
    exact ⟨fun d => hcontact.addContactChange d _ _, fun d => hwrites.audit d _, trivial⟩

omit hwrites in
theorem guarantees_proveContactChange (hcontact : ContactWrites R)
    (haudit : ∀ d entry, R d ((DbChange.addAudit entry).apply d)) (args : ProofArgs) :
    (proveContactChange args).Guarantees R := by
  refine (guarantees_lockRow _ _).bind fun request => ?_
  split
  · trivial
  · split
    · trivial
    · split
      · trivial
      · refine ⟨fun d => hcontact.proveContact d _ _ _, ?_⟩
        dsimp only
        split
        · refine (guarantees_lockRow _ _).bind fun view => ?_
          split
          · trivial
          · refine Tx.Guarantees.bind ?_ fun _ => trivial
            refine (guarantees_reserve _ _ _).bind fun _ =>
              ⟨fun d => hcontact.setContact d _ _ _ _, ?_⟩
            exact (guarantees_moveLogin (fun d _ _ => hcontact.setSubject d _ _ _) _).bind fun _ =>
              ⟨fun d => hcontact.closeContactChange d _ _ _ _, fun d => haudit d _, trivial⟩
        · trivial

theorem guarantees_initiateWith (hgoverned : GovernedWrites R) (args : InitiateArgs)
    (user : Option User) : (initiateWith args user).Guarantees R := by
  unfold initiateWith
  split
  · trivial
  · refine (guarantees_lockRow _ _).bind fun taken => ?_
    split
    · trivial
    · exact ⟨fun d => hgoverned.addGoverned d _ _, fun d => hwrites.audit d _, trivial⟩

theorem guarantees_approveWith (hgoverned : GovernedWrites R) (args : GovernedArgs) :
    (approveWith (fun _ => pure ()) args).Guarantees R := by
  refine (guarantees_lockRow _ _).bind fun request => ?_
  unfold approveLocked
  split
  · trivial
  · split
    · trivial
    · split
      · trivial
      · exact ⟨fun d => hgoverned.setGoverned d _ _, fun d => hwrites.audit d _, trivial⟩

theorem guarantees_executeWith (hgoverned : GovernedWrites R) (hrevoke : FactorRevoking R)
    (args : GovernedArgs) (found : List Uuid) :
    (executeWith none (fun row user => executeWrites args row user found) args).Guarantees R := by
  refine (guarantees_lockRow _ _).bind fun request => ?_
  unfold executeLocked
  split
  · trivial
  · split
    · trivial
    · split
      · trivial
      · refine (guarantees_lockRow _ _).bind fun view => ?_
        unfold executeTarget targetChanged
        split
        · exact ⟨fun d => hgoverned.setGoverned d _ _, trivial⟩
        · split
          · refine (Tx.guarantees_each (guarantees_revokeFactor hrevoke) _).bind fun _ => ?_
            exact ⟨fun d => hwrites.bumpUser d _ _, fun d => hgoverned.setGoverned d _ _,
              fun d => hwrites.audit d _, trivial⟩
          · exact ⟨fun d => hgoverned.setGoverned d _ _, trivial⟩

end Writes

theorem RecoveryEvent.guarantees {R : Db → Db → Prop} (event : RecoveryEvent)
    (hwrites : RecoveryWrites R event.registers event.mails)
    (hcontact : event.movesContact = true → ContactWrites R)
    (hgoverned : event.isGoverned = true → GovernedWrites R)
    (hrevoke : event.isExecution = true → FactorRevoking R) {commit : Commit}
    (h : event.commit = some commit) : commit.body.Guarantees R := by
  unfold RecoveryEvent.commit at h
  split at h
  · cases h
    exact guarantees_insertEmailAccount hwrites _ (fun _ huser hprovider => ⟨huser, hprovider⟩)
      fun _ hpurpose => ⟨rfl, hpurpose⟩
  · cases h
    exact guarantees_insertPhoneAccount hwrites _ fun _ huser hprovider => ⟨huser, hprovider⟩
  · cases h
    exact guarantees_insertMailed hwrites _ _ ⟨rfl, rfl⟩
  · cases h
    exact guarantees_verifyMailed hwrites _ _ _
  · cases h
    exact guarantees_activatePhone hwrites _
  · cases h
    exact guarantees_resetWith hwrites _ _ _
  · cases h
    exact guarantees_startContactChange hwrites (hcontact rfl) _
  · cases h
    exact guarantees_proveContactChange (hcontact rfl) hwrites.audit _
  · cases h
    exact guarantees_unlock hwrites _ _
  · cases h
    exact guarantees_initiateWith hwrites (hgoverned rfl) _ _
  · cases h
    exact guarantees_approveWith hwrites (hgoverned rfl) _
  · cases h
    exact guarantees_executeWith hwrites (hgoverned rfl) (hrevoke rfl) _ _
  · cases h

theorem RecoveryEvent.keeps (event : RecoveryEvent) {commit : Commit}
    (h : event.commit = some commit) :
    commit.body.Guarantees (Tx.Keeps Db.outsideRecovery) := by
  refine event.guarantees ⟨fun _ _ _ => rfl, fun _ _ _ => rfl, fun _ _ _ _ => rfl,
    fun _ _ _ => rfl, fun _ _ _ => rfl, fun _ _ _ _ => rfl, fun _ _ _ => rfl, fun _ _ _ => rfl,
    fun _ _ _ => rfl, fun _ _ => rfl, fun _ _ => rfl⟩ ?_ ?_ (fun _ _ _ _ => rfl) h
  · exact fun _ => ⟨fun _ _ _ => rfl, fun _ _ _ _ => rfl, fun _ _ _ _ _ => rfl,
      fun _ _ _ _ _ => rfl, fun _ _ _ _ => rfl⟩
  · exact fun _ => ⟨fun _ _ _ => rfl, fun _ _ _ => rfl⟩

end Recovery

/-- A part of the database that sessions, workspaces, logins and factors leave
alone. -/
structure Aside {γ : Type} (π : Db → γ) : Prop where
  sessions : ∀ d : Db, π d.outsideSessions = π d
  workspaces : ∀ d : Db, π d.outsideWorkspaces = π d
  offboarding : ∀ d : Db, π { d with bindings := ∅, sessions := ∅, audit := [] } = π d
  logins : ∀ d : Db, π d.outsideLogins = π d
  factors : ∀ d : Db, π d.outsideFactors = π d
  audit : ∀ (d : Db) entry, π ((DbChange.addAudit entry).apply d) = π d

theorem Event.keeps_part {γ : Type} {π : Db → γ} {π' : Db → Db} {e : Event}
    (h : ∀ commit, e.commit = some commit → commit.body.Guarantees (Tx.Keeps π'))
    (hπ : ∀ d, π (π' d) = π d) (d : Db) : π (e.change d) = π d := by
  have hsame := congrArg π (Event.keeps_change h d)
  rwa [hπ, hπ] at hsame

theorem Event.keeps_workspace {γ : Type} {π : Db → γ} (event : WorkspaceEvent)
    (hworkspaces : ∀ d : Db, π d.outsideWorkspaces = π d)
    (hoffboarding : ∀ d : Db, π { d with bindings := ∅, sessions := ∅, audit := [] } = π d)
    (d : Db) : π ((Event.workspace event).change d) = π d := by
  by_cases hstays : ∀ args departure result, event ≠ .offboarded args departure result
  · exact Event.keeps_part (e := .workspace event)
      (fun commit hcommit => event.keeps hcommit hstays) hworkspaces d
  · simp only [not_forall, ne_eq, not_not] at hstays
    obtain ⟨args, departure, result, rfl⟩ := hstays
    refine Event.keeps_part (fun commit hcommit => ?_) hoffboarding d
    cases departure with
    | none => cases hcommit
    | some departure =>
        cases result with
        | none => cases hcommit
        | some result =>
            cases hcommit
            exact keeps_offboardWrites args departure

theorem Aside.change {γ : Type} {π : Db → γ} (h : Aside π) {e : Event} (d : Db)
    (haccount : ∀ event, e = .account event → π (e.change d) = π d)
    (hrecovery : ∀ event, e = .recovery event → π (e.change d) = π d) :
    π (e.change d) = π d := by
  cases e with
  | session event =>
      exact Event.keeps_part (e := .session event) (fun commit hcommit => event.keeps hcommit)
        h.sessions d
  | workspace event => exact Event.keeps_workspace event h.workspaces h.offboarding d
  | account event => exact haccount event rfl
  | login event =>
      exact Event.keeps_part (e := .login event) (fun commit hcommit => event.keeps hcommit)
        h.logins d
  | mfa event =>
      exact Event.keeps_part (e := .mfa event) (fun commit hcommit => event.keeps hcommit)
        h.factors d
  | recovery event => exact hrecovery event rfl
  | audited entry => exact h.audit d entry
  | _ => rfl

end AuthCore
