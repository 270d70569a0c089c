/-
What the store holds was put there.  A workflow is handed from token to token,
so what is said of the workflow that a security check ends with goes back to the
login that started it.
-/
import AuthCore.History.Frames

namespace AuthCore

open Interleave

variable {env : Env} {c c' : Core Db World}

/-- The keys that only `put` writes a value to. -/
def CacheKey.isPlain : CacheKey → Bool
  | otp .. => false
  | rateLimit .. => false
  | _ => true

theorem Event.put_of_cached {e : Event} {key : CacheKey} {w : World}
    {entry : key.Value × Option Time} (hkey : key.isPlain = true)
    (htouches : e.touches = some key) (h : (e.stored w).cache key = some entry) :
    ∃ ttl, e = .put key entry.1 ttl ∧ entry.2 = some (w.now + seconds ttl) := by
  cases e with
  | taken other value =>
      cases htouches
      simp [Event.stored, Cache.remove] at h
  | removed other =>
      cases htouches
      simp [Event.stored, Cache.remove] at h
  | put other value ttl =>
      cases htouches
      have hentry : some (value, some (w.now + seconds ttl)) = some entry := by
        simpa [Event.stored, Cache.put] using h
      cases hentry
      exact ⟨ttl, rfl, rfl⟩
  | counted route subject window count =>
      cases htouches
      cases hkey
  | otpStored user purpose hash =>
      cases htouches
      cases hkey
  | otpExpires user purpose =>
      cases htouches
      cases hkey
  | otpTried user purpose candidate attempts outcome =>
      cases htouches
      cases hkey
  | _ => cases htouches

/-- What the store holds under a key was put there, and expires when it was put
there to. -/
theorem History.put_of_cached (h : History env c c') (hcache : ∀ key, c.store.cache key = none)
    {key : CacheKey} (hkey : key.isPlain = true) {entry : key.Value × Option Time}
    (hentry : c'.store.cache key = some entry) :
    ∃ i ttl m, History env c m ∧
      (Event.put key entry.1 ttl).Follows env i (trace i m.store.log) ∧
      entry.2 = some (m.store.now + seconds ttl) ∧
      History env ((Event.put key entry.1 ttl).apply i m) c' := by
  refine Ledger.Leads.preserves (P := fun n => n.store.cache key = some entry →
    ∃ i ttl m, History env c m ∧
      (Event.put key entry.1 ttl).Follows env i (trace i m.store.log) ∧
      entry.2 = some (m.store.now + seconds ttl) ∧
      History env ((Event.put key entry.1 ttl).apply i m) n) h ?_ ?_ ?_ hentry
  · intro hentry
    rw [hcache] at hentry
    cases hentry
  · intro n i e hn ih _ henabled hentry
    change (e.stored n.store).cache key = some entry at hentry
    by_cases htouches : e.touches = some key
    · obtain ⟨ttl, rfl, hexpiry⟩ := Event.put_of_cached hkey htouches hentry
      exact ⟨i, ttl, n, hn, henabled.1, hexpiry, Ledger.Leads.refl⟩
    · rw [Event.cache_stored htouches] at hentry
      obtain ⟨j, ttl, m, hm, hfollows, hexpiry, hrest⟩ := ih hentry
      exact ⟨j, ttl, m, hm, hfollows, hexpiry, hrest.event henabled.1 henabled.2⟩
  · intro n k hn ih hentry
    obtain ⟨j, ttl, m, hm, hfollows, hexpiry, hrest⟩ := ih hentry
    exact ⟨j, ttl, m, hm, hfollows, hexpiry, Ledger.Leads.pass k hrest⟩

theorem Cache.entry_of_get {cache : Cache} {now : Time} {key : CacheKey} {value : key.Value}
    (h : cache.get now key = some value) : ∃ expiry, cache key = some (value, expiry) := by
  unfold Cache.get at h
  split at h
  · cases h
  · rename_i entry hentry
    cases h
    exact ⟨none, hentry⟩
  · rename_i entry expiry hentry
    split at h
    · cases h
      exact ⟨some expiry, hentry⟩
    · cases h

/-- The event reads `value` from the store. -/
def Event.Reads (key : CacheKey) (value : key.Value) (e : Event) : Prop :=
  e = .got key (some value) ∨ e = .taken key (some value)

/-- What a call has read was put before. -/
theorem History.put_of_read (h : History env c c') (hlog : c.store.log = [])
    (hcache : ∀ key, c.store.cache key = none) {key : CacheKey} (hkey : key.isPlain = true)
    {value : key.Value} {i : Nat} {e : Event} (hmem : e ∈ trace i c'.store.log)
    (hreads : e.Reads key value) : ∃ j ttl, (j, .put key value ttl) ∈ c'.store.log := by
  obtain ⟨later, earlier, hsplit⟩ := List.append_of_mem (mem_trace_iff.mp hmem)
  obtain ⟨m, hm, _, _, hagrees, hrest⟩ := h.around hlog hsplit
  have hget : m.store.cache.get m.store.now key = some value := by
    rcases hreads with rfl | rfl
    · exact hagrees.tells.symm
    · exact hagrees.tells.symm
  obtain ⟨expiry, hentry⟩ := Cache.entry_of_get hget
  obtain ⟨j, ttl, m₀, _, _, _, hlater⟩ := hm.put_of_cached hcache hkey hentry
  refine ⟨j, ttl, ?_⟩
  have hput : (j, .put key value ttl) ∈ m.store.log := by
    refine hlater.log_suffix.subset ?_
    rw [Event.log_apply]
    exact List.mem_cons_self
  refine hrest.log_suffix.subset ?_
  rw [Event.log_apply]
  exact List.mem_cons_of_mem _ hput

/-- The workflow that a value of the store carries. -/
def CacheKey.carried : (key : CacheKey) → key.Value → Option Workflow
  | loginWorkflow _, workflow => some workflow
  | mfaChallenge _, challenge => some challenge.workflow
  | webauthnChallenge _, .register _ _ _ workflow => some workflow
  | webauthnChallenge _, .authenticate _ workflow => workflow
  | _, _ => none

theorem CacheKey.isPlain_of_carried {key : CacheKey} {value : key.Value} {workflow : Workflow}
    (h : key.carried value = some workflow) : key.isPlain = true := by
  cases key with
  | otp user purpose => cases h
  | rateLimit route subject => cases h
  | _ => rfl

/-- A call has the workflow from the store. -/
def Carries (workflow : Workflow) (t : List Event) : Prop :=
  ∃ (key : CacheKey) (value : key.Value) (e : Event), e ∈ t ∧ e.Reads key value ∧
    key.carried value = some workflow

theorem Checked.carries {i : Nat} {t : List Event} {user : Uuid} {workflow : Workflow}
    {method : String} (h : Checked env i t user workflow method) :
    Carries workflow t ∨ workflow = passkeyWorkflow user := by
  cases h with
  | @otp token _ _ consumed _ _ =>
      exact Or.inl ⟨.mfaChallenge token, consumed, _, List.mem_cons_self, Or.inr rfl, rfl⟩
  | @totp token _ _ consumed =>
      exact Or.inl ⟨.mfaChallenge token, consumed, _, List.mem_cons_self, Or.inr rfl, rfl⟩
  | @backup token _ _ consumed =>
      exact Or.inl ⟨.mfaChallenge token, consumed, _, List.mem_cons_self, Or.inr rfl, rfl⟩
  | @enrollTotp token _ _ consumed =>
      exact Or.inl ⟨.mfaChallenge token, consumed, .taken _ _, by simp, Or.inr rfl, rfl⟩
  | @enrollPasskey token _ label _ _ _ _ _ challenge =>
      exact Or.inl ⟨.webauthnChallenge token, .register user label challenge workflow,
        .taken _ _, by simp, Or.inr rfl, rfl⟩
  | @passkey token _ challenge =>
      exact Or.inl ⟨.webauthnChallenge token, .authenticate challenge (some workflow),
        .taken _ _, by simp, Or.inr rfl, rfl⟩
  | passkeyPrimary _ => exact Or.inr rfl
  | @password token =>
      exact Or.inl ⟨.loginWorkflow token, workflow, .taken _ _, by simp, Or.inr rfl, rfl⟩
  | @management token =>
      exact Or.inl ⟨.loginWorkflow token, workflow, .got _ _, by simp, Or.inl rfl, rfl⟩

/-- The account that a collision is about is one of a social provider. -/
def Workflow.Social (workflow : Workflow) : Prop :=
  ∀ provider subject, workflow.oidc = some (provider, subject) →
    LoginControl.isOidc provider = true

theorem Primary.social {i : Nat} {t : List Event} {workflow : Workflow}
    (h : Primary env i t workflow) : workflow.Social := by
  cases h with
  | decided =>
      intro provider subject heq
      cases heq
  | collision _ _ hoidc _ _ =>
      intro provider subject heq
      cases heq
      exact hoidc

/-- What is said of the workflow that a login starts, and of the one that a
security check ends with, is said of every workflow in the store. -/
theorem carried_of_put {Q : List (Nat × Event) → Workflow → Prop} (h : History env c c')
    (hlog : c.store.log = []) (hcache : ∀ key, c.store.cache key = none)
    (hmono : ∀ log entry workflow, Q log workflow → Q (entry :: log) workflow)
    (hprimary : ∀ m i workflow, History env c m →
      Primary env i (trace i m.store.log) workflow → Q m.store.log workflow)
    (hcompleted : ∀ log user method, Q log (MFAControl.completedWorkflow user method)) {i : Nat}
    {key : CacheKey} {value : key.Value} {ttl : Nat}
    (hput : (i, .put key value ttl) ∈ c'.store.log) {workflow : Workflow}
    (hcarried : key.carried value = some workflow) : Q c'.store.log workflow := by
  refine Ledger.Leads.preserves (P := fun m => ∀ i (key : CacheKey) (value : key.Value) ttl,
    (i, .put key value ttl) ∈ m.store.log → ∀ workflow, key.carried value = some workflow →
      Q m.store.log workflow) h ?_ ?_ ?_ i key value ttl hput workflow hcarried
  · intro i key value ttl hput
    rw [hlog] at hput
    cases hput
  · intro m i e hm ih _ henabled j key value ttl hput workflow hcarried
    have happly : (j, .put key value ttl) ∈ (i, e) :: m.store.log := by
      have hentry : (j, .put key value ttl) ∈ (e.apply i m).store.log := hput
      rwa [Event.log_apply] at hentry
    change Q (e.apply i m).store.log workflow
    rw [Event.log_apply]
    refine hmono _ _ _ ?_
    rcases List.mem_cons.mp happly with heq | hold
    · cases heq
      have hread : ∀ (key : CacheKey) (value : key.Value) (e : Event),
          e ∈ trace i m.store.log → e.Reads key value → ∀ workflow,
          key.carried value = some workflow → Q m.store.log workflow := by
        intro key value e he hreads workflow hcarried
        obtain ⟨k, ttl, hput⟩ := History.put_of_read hm hlog hcache
          (CacheKey.isPlain_of_carried hcarried) he hreads
        exact ih k key value ttl hput workflow hcarried
      have hputs : Puts env i (trace i m.store.log) key value ttl := henabled.1
      cases key with
      | loginWorkflow token =>
          cases hcarried
          rcases hputs with ⟨_, hbegun⟩ | ⟨_, user, carried, method, _, _, rfl⟩
          · exact hprimary m i workflow hm hbegun
          · exact hcompleted _ user method
      | mfaChallenge token =>
          cases hcarried
          obtain ⟨token', taken, _, _, hmem, _⟩ := hputs.2.1
          exact hread (.loginWorkflow token') _ _ hmem (Or.inr rfl) _ rfl
      | webauthnChallenge token =>
          cases value with
          | register user label challenge workflow =>
              cases hcarried
              obtain ⟨token', taken, _, _, hmem, _⟩ := hputs.2.1
              exact hread (.loginWorkflow token') _ _ hmem (Or.inr rfl) _ rfl
          | authenticate challenge workflow =>
              cases hcarried
              obtain ⟨user, token', taken, _, _, hmem, _⟩ := hputs.2
              exact hread (.loginWorkflow token') _ _ hmem (Or.inr rfl) _ rfl
      | _ => cases hcarried
    · exact ih j key value ttl hold workflow hcarried
  · intro m n _ ih
    exact ih

/-- Every workflow in the store is about an account of a social provider, if
about any. -/
theorem social_of_put (h : History env c c') (hlog : c.store.log = [])
    (hcache : ∀ key, c.store.cache key = none) {i : Nat} {key : CacheKey} {value : key.Value}
    {ttl : Nat} (hput : (i, .put key value ttl) ∈ c'.store.log) {workflow : Workflow}
    (hcarried : key.carried value = some workflow) : workflow.Social := by
  refine carried_of_put (Q := fun _ workflow => workflow.Social) h hlog hcache ?_ ?_ ?_ hput
    hcarried
  · exact fun _ _ _ hsocial => hsocial
  · exact fun _ _ _ _ hprimary => hprimary.social
  · intro _ user method provider subject heq
    cases heq

/-- A linked identity is one of a social provider. -/
theorem linked_social (h : History env c c') (hlog : c.store.log = [])
    (hcache : ∀ key, c.store.cache key = none) {i : Nat} {owner : Uuid}
    {provider : IdentityProvider} {subject : String} {id : Uuid}
    (hfollows : (Event.mfa (.linked owner provider subject id)).Follows env i
      (trace i c'.store.log)) : LoginControl.isOidc provider = true := by
  obtain ⟨workflow, method, hchecked, _, hoidc⟩ := hfollows
  rcases hchecked.carries with ⟨key, value, e, he, hreads, hcarried⟩ | rfl
  · obtain ⟨j, ttl, hput⟩ := h.put_of_read hlog hcache
      (CacheKey.isPlain_of_carried hcarried) he hreads
    exact social_of_put h hlog hcache hput hcarried provider subject hoidc
  · cases hoidc

/-- The token that a key of the store belongs to. -/
def CacheKey.handle : CacheKey → Option Token
  | loginWorkflow token => some token
  | mfaChallenge token => some token
  | webauthnChallenge token => some token
  | _ => none

theorem Primary.fresh {i : Nat} {t : List Event} {workflow : Workflow}
    (h : Primary env i t workflow) : Fresh t := by
  cases h with
  | decided _ _ _ _ hfresh _ =>
      exact Fresh.append (s := [.mfa _, .login _, .login _]) (.of_all rfl) hfresh
  | collision _ _ _ hfresh _ =>
      exact Fresh.append (s := [.mfa _, .login _, .login _]) (.of_all rfl) hfresh

theorem Checked.fresh {i : Nat} {t : List Event} {user : Uuid} {workflow : Workflow}
    {method : String} (h : Checked env i t user workflow method) : Fresh t := by
  cases h with
  | enrollTotp _ _ hcodes =>
      refine Fresh.append ?_ (.of_all rfl)
      cases hcodes with
      | kept => exact .of_all rfl
      | stored => exact .of_all rfl
  | enrollPasskey hcodes =>
      refine Fresh.append ?_ (.of_all rfl)
      cases hcodes with
      | kept => exact .of_all rfl
      | stored => exact .of_all rfl
  | _ => exact .of_all rfl

/-- A call that puts a live token has drawn it, and has made nothing else
before. -/
theorem drawn_of_put {i : Nat} {t : List Event} {key : CacheKey} {value : key.Value} {ttl : Nat}
    {workflow : Workflow} (hcarried : key.carried value = some workflow)
    (h : (Event.put key value ttl).Follows env i t) :
    (∃ serial, key.handle = some (.drawn i serial)) ∧ Fresh t := by
  change Puts env i t key value ttl at h
  cases key with
  | loginWorkflow token =>
      rcases h with ⟨rfl, hprimary⟩ | ⟨rfl, _, _, _, hchecked, _, _⟩
      · exact ⟨⟨0, rfl⟩, hprimary.fresh⟩
      · exact ⟨⟨9, rfl⟩, hchecked.fresh⟩
  | mfaChallenge token =>
      obtain ⟨⟨serial, rfl⟩, ⟨_, _, _, _, _, hfresh⟩, _⟩ := h
      exact ⟨⟨serial, rfl⟩, hfresh⟩
  | webauthnChallenge token =>
      cases value with
      | register user label challenge workflow =>
          obtain ⟨⟨serial, rfl⟩, ⟨_, _, _, _, _, hfresh⟩, _⟩ := h
          exact ⟨⟨serial, rfl⟩, hfresh⟩
      | authenticate challenge workflow =>
          cases workflow with
          | none => cases hcarried
          | some workflow =>
              obtain ⟨⟨serial, rfl⟩, _, _, _, _, _, _, hfresh⟩ := h
              exact ⟨⟨serial, rfl⟩, hfresh⟩
  | _ => cases hcarried

theorem produces_of_carried {key : CacheKey} {value : key.Value} {ttl : Nat}
    {workflow : Workflow} (h : key.carried value = some workflow) :
    (Event.put key value ttl).produces = true := by
  cases key with
  | webauthnChallenge token =>
      cases value with
      | register => rfl
      | authenticate challenge workflow =>
          cases h
          rfl
  | loginWorkflow token => rfl
  | mfaChallenge token => rfl
  | _ => cases h

/-- No token is put twice. -/
theorem put_unique (h : History env c c') (hlog : c.store.log = []) {key : CacheKey}
    {value value' : key.Value} {workflow workflow' : Workflow} {i j ttl ttl' : Nat}
    (hput : (i, .put key value ttl) ∈ c'.store.log)
    (hput' : (j, .put key value' ttl') ∈ c'.store.log)
    (hcarried : key.carried value = some workflow)
    (hcarried' : key.carried value' = some workflow') : value = value' := by
  have hdrawn : ∀ {i ttl : Nat} {value : key.Value} {workflow : Workflow}
      {later earlier : List (Nat × Event)}, key.carried value = some workflow →
      c'.store.log = later ++ (i, .put key value ttl) :: earlier →
      (∃ serial, key.handle = some (.drawn i serial)) ∧ Fresh (trace i earlier) := by
    intro i ttl value workflow later earlier hcarried hsplit
    obtain ⟨_, _, _, hfollows, _, _⟩ := h.around hlog hsplit
    exact drawn_of_put hcarried hfollows
  obtain ⟨_, _, hsplit⟩ := List.append_of_mem hput
  obtain ⟨_, _, hsplit'⟩ := List.append_of_mem hput'
  obtain ⟨⟨serial, hhandle⟩, _⟩ := hdrawn hcarried hsplit
  obtain ⟨⟨serial', hhandle'⟩, _⟩ := hdrawn hcarried' hsplit'
  rw [hhandle] at hhandle'
  cases hhandle'
  rcases order_of_mem hput hput' with heq | ⟨_, _, hsplit, hmem⟩ | ⟨_, _, hsplit, hmem⟩
  · cases heq
    rfl
  · have hfresh := (hdrawn hcarried hsplit).2 _ (mem_trace_iff.mpr hmem)
    rw [produces_of_carried hcarried'] at hfresh
    cases hfresh
  · have hfresh := (hdrawn hcarried' hsplit).2 _ (mem_trace_iff.mpr hmem)
    rw [produces_of_carried hcarried] at hfresh
    cases hfresh

/-- Whoever reads a live token reads the same value. -/
theorem read_unique (h : History env c c') (hlog : c.store.log = [])
    (hcache : ∀ key, c.store.cache key = none) (key : CacheKey) {value value' : key.Value}
    {workflow workflow' : Workflow} {i j : Nat} {e e' : Event}
    (hmem : e ∈ trace i c'.store.log) (hmem' : e' ∈ trace j c'.store.log)
    (hreads : e.Reads key value) (hreads' : e'.Reads key value')
    (hcarried : key.carried value = some workflow)
    (hcarried' : key.carried value' = some workflow') : value = value' := by
  have hkey := CacheKey.isPlain_of_carried hcarried
  obtain ⟨_, _, hput⟩ := h.put_of_read hlog hcache hkey hmem hreads
  obtain ⟨_, _, hput'⟩ := h.put_of_read hlog hcache hkey hmem' hreads'
  exact put_unique h hlog hput hput' hcarried hcarried'

/-- Whoever exchanges a workflow does so for its user. -/
theorem user_of_exchanged (h : History env c c') (hlog : c.store.log = [])
    (hcache : ∀ key, c.store.cache key = none) {i : Nat} {user : Uuid} {consumed : Workflow}
    (hexchanged : Exchanged user consumed (trace i c'.store.log)) : consumed.userId = user := by
  obtain ⟨token, workflow, hgot, huser, htaken, _⟩ := hexchanged
  have hsame : workflow = consumed :=
    read_unique h hlog hcache (.loginWorkflow token) hgot htaken (Or.inl rfl) (Or.inr rfl)
      rfl rfl
  rw [← hsame, huser]

/-- The user that a stored challenge is for. -/
def CacheKey.challenged : (key : CacheKey) → key.Value → Option Uuid
  | mfaChallenge _, challenge => some challenge.userId
  | webauthnChallenge _, .register user _ _ _ => some user
  | _, _ => none

/-- A challenge is for the user of its workflow. -/
theorem user_of_challenge (h : History env c c') (hlog : c.store.log = [])
    (hcache : ∀ key, c.store.cache key = none) {i : Nat} {e : Event} (key : CacheKey)
    (value : key.Value) {workflow : Workflow} {user : Uuid} (hmem : e ∈ trace i c'.store.log)
    (hreads : e.Reads key value) (hcarried : key.carried value = some workflow)
    (huser : key.challenged value = some user) : workflow.userId = user := by
  obtain ⟨j, ttl, hput⟩ := h.put_of_read hlog hcache
    (CacheKey.isPlain_of_carried hcarried) hmem hreads
  obtain ⟨later, earlier, hsplit⟩ := List.append_of_mem hput
  obtain ⟨m, hm, rfl, hputs, _, _⟩ := h.around hlog hsplit
  change Puts env j (trace j m.store.log) key value ttl at hputs
  cases key with
  | mfaChallenge token =>
      cases hcarried
      cases huser
      exact user_of_exchanged hm hlog hcache hputs.2.1
  | webauthnChallenge token =>
      cases value with
      | register user' label challenge workflow' =>
          cases hcarried
          cases huser
          exact user_of_exchanged hm hlog hcache hputs.2.1
      | authenticate challenge workflow' => cases huser
  | _ => cases huser

/-- A security check is one for the user of the workflow that it completes. -/
theorem user_of_checked (h : History env c c') (hlog : c.store.log = [])
    (hcache : ∀ key, c.store.cache key = none) {i : Nat} {user : Uuid} {workflow : Workflow}
    {method : String} (hchecked : Checked env i (trace i c'.store.log) user workflow method) :
    workflow.userId = user := by
  have hverified : ∀ (token : Token) {payload consumed : Challenge},
      .got (.mfaChallenge token) (some payload) ∈ trace i c'.store.log →
      .taken (.mfaChallenge token) (some consumed) ∈ trace i c'.store.log →
      consumed.workflow.userId = payload.userId := by
    intro token payload consumed hgot htaken
    have hsame : payload = consumed :=
      read_unique h hlog hcache (.mfaChallenge token) hgot htaken (Or.inl rfl)
        (Or.inr rfl) rfl rfl
    subst hsame
    exact user_of_challenge h hlog hcache (.mfaChallenge token) payload hgot (Or.inl rfl) rfl
      rfl
  generalize htrace : trace i c'.store.log = t at hchecked hverified
  cases hchecked with
  | @otp token => exact hverified token (by simp) (by simp)
  | @totp token => exact hverified token (by simp) (by simp)
  | @backup token => exact hverified token (by simp) (by simp)
  | @enrollTotp token => exact hverified token (by simp) (by simp)
  | @enrollPasskey token _ label _ _ _ _ _ challenge =>
      exact user_of_challenge h hlog hcache (i := i) (e := .taken _ _) (.webauthnChallenge token)
        (.register user label challenge workflow) (by simp [htrace]) (Or.inr rfl) rfl rfl
  | passkey _ huser => exact huser
  | passkeyPrimary _ => rfl
  | @password token _ _ workflow' =>
      have hsame : workflow' = workflow :=
        read_unique h hlog hcache (i := i) (j := i) (.loginWorkflow token)
          (show .got _ _ ∈ _ by simp [htrace]) (show .taken _ _ ∈ _ by simp [htrace])
          (Or.inl rfl) (Or.inr rfl) rfl rfl
      rw [hsame]
  | management _ => rfl

end AuthCore
