/-
The tokens of the store that stand for a login under way: workflows, challenges
and enrolments.  Each is put once and taken at most once, before it expires.  A
call takes one and puts one at most, so the calls that hand workflows to each
other form chains, and a chain ends in one session at most.
-/
import AuthCore.Accounts.Workflows
import AuthCore.Sessions.Invariant
import Mathlib.Logic.Relation

namespace AuthCore

open Interleave

variable {env : Env} {c m m' : Core Db World} {i j k : Nat} {key : CacheKey}

/-- Nothing with a workflow is stored under the key. -/
def Spent (key : CacheKey) (cache : Cache) : Prop :=
  ∀ entry, cache key = some entry → key.carried entry.1 = none

/-- The clock readings of a stretch of a run lie between its ends. -/
theorem clocks_between (h : History env m m') {between : List (Nat × Event)}
    (hlog : m'.store.log = between ++ m.store.log) {t : Time} (hmem : (k, .clock t) ∈ between) :
    m.store.now ≤ t ∧ t ≤ m'.store.now := by
  refine History.over (P := fun n since => m.store.now ≤ n.store.now ∧
    ∀ k t, (k, .clock t) ∈ since → m.store.now ≤ t ∧ t ≤ n.store.now) h hlog ?_ ?_ ?_ |>.2 k t hmem
  · exact ⟨le_rfl, fun _ _ hmem => by cases hmem⟩
  · intro n since i e hn _ _ hagrees ⟨hle, hall⟩
    have hnow : (e.apply i n).store.now = n.store.now := Event.now_stored e n.store
    rw [hnow]
    refine ⟨hle, ?_⟩
    intro k t hmem
    rcases List.mem_cons.mp hmem with heq | hold
    · cases heq
      obtain rfl : t = n.store.now := hagrees.tells
      exact ⟨hle, le_rfl⟩
    · exact hall k t hold
  · intro n since d _ ⟨hle, hall⟩
    refine ⟨Nat.le_add_right_of_le hle, ?_⟩
    intro k t hmem
    exact ⟨(hall k t hmem).1, Nat.le_add_right_of_le (hall k t hmem).2⟩

theorem Cache.fresh_of_get {cache : Cache} {now : Time} {value : key.Value} {expiry : Time}
    (h : cache.get now key = some value) (hentry : cache key = some (value, some expiry)) :
    now < expiry := by
  by_contra hlate
  simp only [Cache.get, hentry, if_neg hlate] at h
  cases h

/-- A token that was put is never put again. -/
theorem not_put_again (h : History env c m) (hlog : c.store.log = []) {value value' : key.Value}
    {ttl ttl' : Nat} {workflow workflow' : Workflow} (hcarried : key.carried value = some workflow)
    (hput : (j, .put key value ttl) ∈ m.store.log)
    (hcarried' : key.carried value' = some workflow') :
    ¬(Event.put key value' ttl').Follows env i (trace i m.store.log) := by
  intro hfollows
  obtain ⟨later, earlier, hsplit⟩ := List.append_of_mem hput
  obtain ⟨_, _, _, hfirst, _, _⟩ := h.around hlog hsplit
  obtain ⟨⟨serial, hhandle⟩, _⟩ := drawn_of_put hcarried hfirst
  obtain ⟨⟨serial', hhandle'⟩, hfresh⟩ := drawn_of_put hcarried' hfollows
  rw [hhandle] at hhandle'
  cases hhandle'
  have hproduces := hfresh _ (mem_trace_iff.mpr hput)
  rw [produces_of_carried hcarried] at hproduces
  cases hproduces

/-- Once a token is out of the store it stays out, and no call reads it. -/
theorem Spent.over (h : History env c m) (hlog : c.store.log = []) {value : key.Value}
    {ttl : Nat} {workflow : Workflow} (hcarried : key.carried value = some workflow)
    (hput : (j, .put key value ttl) ∈ m.store.log) (hspent : Spent key m.store.cache)
    (h' : History env m m') {since : List (Nat × Event)}
    (hsince : m'.store.log = since ++ m.store.log) :
    Spent key m'.store.cache ∧ ∀ i e value' workflow', (i, e) ∈ since →
      key.carried value' = some workflow' → ¬e.Reads key value' := by
  refine History.over (P := fun n since => Spent key n.store.cache ∧
    ∀ i e value' workflow', (i, e) ∈ since → key.carried value' = some workflow' →
      ¬e.Reads key value') h' hsince ⟨hspent, ?_⟩ ?_ ?_
  · intro _ _ _ _ hmem
    cases hmem
  · intro n since i e hn _ hfollows hagrees ⟨hgone, hunread⟩
    refine ⟨?_, ?_⟩
    · intro entry hentry
      change (e.stored n.store).cache key = some entry at hentry
      by_cases htouches : e.touches = some key
      · obtain ⟨ttl, rfl, -⟩ :=
          Event.put_of_cached (CacheKey.isPlain_of_carried hcarried) htouches hentry
        cases hother : key.carried entry.1 with
        | none => rfl
        | some other =>
            exact absurd hfollows (not_put_again (h.trans hn) hlog hcarried
              (hn.log_suffix.subset hput) hother)
      · rw [Event.cache_stored htouches] at hentry
        exact hgone entry hentry
    · intro k e' value' workflow' hmem hcarried' hreads
      rcases List.mem_cons.mp hmem with heq | hold
      · cases heq
        have hget : n.store.cache.get n.store.now key = some value' := by
          rcases hreads with rfl | rfl
          · exact hagrees.tells.symm
          · exact hagrees.tells.symm
        obtain ⟨expiry, hentry⟩ := Cache.entry_of_get hget
        have hnone : key.carried value' = none := hgone _ hentry
        rw [hcarried'] at hnone
        cases hnone
      · exact hunread k e' value' workflow' hold hcarried' hreads
  · intro n since d _ hP
    exact hP

/-- What the store holds under a live token was put by a call, in time. -/
theorem History.put_of_taken (h : History env c m)
    (hcache : ∀ key, c.store.cache key = none) {value : key.Value} {workflow : Workflow}
    (hcarried : key.carried value = some workflow)
    (hget : m.store.cache.get m.store.now key = some value) :
    ∃ j ttl middle earlier, m.store.log = middle ++ (j, .put key value ttl) :: earlier ∧
      ∀ k k' t t', (k, .clock t) ∈ middle → (k', .clock t') ∈ middle →
        t' < t + seconds ttl := by
  obtain ⟨expiry, hentry⟩ := Cache.entry_of_get hget
  obtain ⟨j, ttl, x, hx, _, hexpiry, hrest⟩ :=
    h.put_of_cached hcache (CacheKey.isPlain_of_carried hcarried) hentry
  obtain rfl : expiry = some (x.store.now + seconds ttl) := hexpiry
  have hearly := Cache.fresh_of_get hget hentry
  obtain ⟨middle, hmiddle⟩ := hrest.log_split
  have hnow : ((Event.put key value ttl).apply j x).store.now = x.store.now :=
    Event.now_stored _ x.store
  refine ⟨j, ttl, middle, x.store.log, ?_, ?_⟩
  · rw [hmiddle, Event.log_apply]
  · intro k k' t t' hmem hmem'
    have hlow := (clocks_between hrest hmiddle hmem).1
    have hhigh := (clocks_between hrest hmiddle hmem').2
    rw [hnow] at hlow
    calc t' ≤ m.store.now := hhigh
      _ < x.store.now + seconds ttl := hearly
      _ ≤ t + seconds ttl := Nat.add_le_add_right hlow _

/-- A live token that has been taken is not read again. -/
theorem unread_since (h : History env c m) (hlog : c.store.log = [])
    (hcache : ∀ key, c.store.cache key = none) {value : key.Value} {workflow : Workflow}
    (hcarried : key.carried value = some workflow) {later earlier : List (Nat × Event)}
    (hsplit : m.store.log = later ++ (i, .taken key (some value)) :: earlier) :
    ∀ j e value' workflow', (j, e) ∈ later → key.carried value' = some workflow' →
      ¬e.Reads key value' := by
  obtain ⟨x, hx, rfl, hfollows, hagrees, hrest⟩ := h.around hlog hsplit
  obtain ⟨j, ttl, middle, first, hput, _⟩ :=
    hx.put_of_taken hcache hcarried hagrees.tells.symm
  have hspent : Spent key ((Event.taken key (some value)).apply i x).store.cache := by
    intro entry hentry
    change (x.store.cache.remove key) key = some entry at hentry
    simp [Cache.remove] at hentry
  have hmem : (j, .put key value ttl) ∈
      ((Event.taken key (some value)).apply i x).store.log := by
    rw [Event.log_apply, hput]
    simp
  refine (hspent.over (hx.event hfollows hagrees) hlog hcarried hmem hrest ?_).2
  rw [hsplit, Event.log_apply]

/-- Call `j` put a workflow into the store that call `i` took out. -/
def Hands (log : List (Nat × Event)) (j i : Nat) : Prop :=
  ∃ (key : CacheKey) (value : key.Value) (ttl : Nat) (workflow : Workflow),
    key.carried value = some workflow ∧ (j, .put key value ttl) ∈ log ∧
      (i, .taken key (some value)) ∈ log

/-- Call `k` is a login of the user by a password, a code, a provider or a passkey, with this
decision. -/
inductive Authenticates (env : Env) (log : List (Nat × Event)) (k : Nat) (user : Uuid) :
    LoginDecisionType → Prop
  | primary {workflow : Workflow} {ttl : Nat} {after before : List Event} :
      trace k log = after ++ .put (.loginWorkflow (.drawn k 0)) workflow ttl :: before →
      Primary env k before workflow → workflow.userId = user →
      Authenticates env log k user workflow.decision
  | passkey {token challenge : Token} {credential : String} {stored : StoredPasskey}
      {answer : Nat × Bool} :
      .taken (.webauthnChallenge token) (some (.authenticate challenge none)) ∈ trace k log →
      .mfa (.passkey (env.credentialId credential) (some stored)) ∈ trace k log →
      env.verifyAuthentication credential challenge stored = some answer →
      stored.userId = user → Authenticates env log k user .passkeyPrimary

theorem Hands.mono {log : List (Nat × Event)} {entry : Nat × Event} (h : Hands log j i) :
    Hands (entry :: log) j i := by
  obtain ⟨key, value, ttl, workflow, hcarried, hput, htaken⟩ := h
  exact ⟨key, value, ttl, workflow, hcarried, List.mem_cons_of_mem _ hput,
    List.mem_cons_of_mem _ htaken⟩

theorem hands_chain_mono {log : List (Nat × Event)} {entry : Nat × Event}
    (h : Relation.ReflTransGen (Hands log) j i) :
    Relation.ReflTransGen (Hands (entry :: log)) j i :=
  Relation.ReflTransGen.mono (fun _ _ => Hands.mono) _ _ h

theorem Authenticates.mono {log : List (Nat × Event)} {entry : Nat × Event} {user : Uuid}
    {decision : LoginDecisionType} (h : Authenticates env log k user decision) :
    Authenticates env (entry :: log) k user decision := by
  have hmem : ∀ {e : Event}, e ∈ trace k log → e ∈ trace k (entry :: log) := fun he =>
    mem_trace_iff.mpr (List.mem_cons_of_mem _ (mem_trace_iff.mp he))
  cases h with
  | @primary workflow ttl after before htrace hprimary huser =>
      have hlater : trace k (entry :: log) = (trace k [entry] ++ after) ++
          .put (.loginWorkflow (.drawn k 0)) workflow ttl :: before := by
        rw [← List.singleton_append, trace_append, htrace, List.append_assoc]
      exact .primary hlater hprimary huser
  | passkey htaken hstored hverified huser =>
      exact .passkey (hmem htaken) (hmem hstored) hverified huser

theorem taken_unique (h : History env c m) (hlog : c.store.log = [])
    (hcache : ∀ key, c.store.cache key = none) {value : key.Value} {workflow : Workflow}
    (hcarried : key.carried value = some workflow)
    (htaken : (i, .taken key (some value)) ∈ m.store.log)
    (htaken' : (j, .taken key (some value)) ∈ m.store.log) : i = j := by
  have hlast : ∀ {i j : Nat} {later earlier : List (Nat × Event)},
      m.store.log = later ++ (i, .taken key (some value)) :: earlier →
      (j, .taken key (some value)) ∉ earlier := by
    intro i j later earlier hsplit hmem
    obtain ⟨l₁, l₂, rfl⟩ := List.append_of_mem hmem
    have hfirst : m.store.log = (later ++ (i, .taken key (some value)) :: l₁) ++
        (j, .taken key (some value)) :: l₂ := by rw [hsplit, List.append_assoc, List.cons_append]
    exact unread_since h hlog hcache hcarried hfirst i _ value workflow (by simp) hcarried
      (Or.inr rfl)
  rcases order_of_mem htaken htaken' with heq | ⟨_, _, hsplit, hmem⟩ | ⟨_, _, hsplit, hmem⟩
  · cases heq
    rfl
  · exact absurd hmem (hlast hsplit)
  · exact absurd hmem (hlast hsplit)

/-- A call hands its workflow to one other at most. -/
theorem Hands.rightUnique (h : History env c m) (hlog : c.store.log = [])
    (hcache : ∀ key, c.store.cache key = none) : Relator.RightUnique (Hands m.store.log) := by
  rintro j i i' ⟨key, value, ttl, workflow, hcarried, hput, htaken⟩
    ⟨key', value', ttl', workflow', hcarried', hput', htaken'⟩
  have hfresh : ∀ {key : CacheKey} {value : key.Value} {ttl : Nat} {workflow : Workflow}
      {later earlier : List (Nat × Event)}, key.carried value = some workflow →
      m.store.log = later ++ (j, .put key value ttl) :: earlier → Fresh (trace j earlier) := by
    intro key value ttl workflow later earlier hcarried hsplit
    obtain ⟨_, _, _, hfollows, _, _⟩ := h.around hlog hsplit
    exact (drawn_of_put hcarried hfollows).2
  rcases order_of_mem hput hput' with heq | ⟨_, _, hsplit, hmem⟩ | ⟨_, _, hsplit, hmem⟩
  · cases heq
    exact taken_unique h hlog hcache hcarried htaken htaken'
  · have hproduces := hfresh hcarried hsplit _ (mem_trace_iff.mpr hmem)
    rw [produces_of_carried hcarried'] at hproduces
    cases hproduces
  · have hproduces := hfresh hcarried' hsplit _ (mem_trace_iff.mpr hmem)
    rw [produces_of_carried hcarried] at hproduces
    cases hproduces

/-- A completed check has taken the workflow it completes, or is a login of its own. -/
theorem taken_of_checked (h : History env c m) (hlog : c.store.log = [])
    (hcache : ∀ key, c.store.cache key = none) {user : Uuid} {workflow : Workflow}
    {method : String} (hchecked : Checked env i (trace i m.store.log) user workflow method) :
    (∃ (key : CacheKey) (value : key.Value), .taken key (some value) ∈ trace i m.store.log ∧
      key.carried value = some workflow) ∨
      Authenticates env m.store.log i user .passkeyPrimary := by
  generalize htrace : trace i m.store.log = t at hchecked
  cases hchecked with
  | @otp token _ _ consumed _ _ =>
      exact Or.inl ⟨.mfaChallenge token, consumed, List.mem_cons_self, rfl⟩
  | @totp token _ _ consumed =>
      exact Or.inl ⟨.mfaChallenge token, consumed, List.mem_cons_self, rfl⟩
  | @backup token _ _ consumed =>
      exact Or.inl ⟨.mfaChallenge token, consumed, List.mem_cons_self, rfl⟩
  | @enrollTotp token _ _ consumed =>
      exact Or.inl ⟨.mfaChallenge token, consumed, by simp, rfl⟩
  | @enrollPasskey token _ label _ _ _ _ _ challenge =>
      exact Or.inl ⟨.webauthnChallenge token, .register user label challenge workflow, by simp,
        rfl⟩
  | @passkey token _ challenge =>
      exact Or.inl ⟨.webauthnChallenge token, .authenticate challenge (some workflow), by simp,
        rfl⟩
  | @passkeyPrimary token credential challenge stored count backupState hverified =>
      have htaken : .taken (.webauthnChallenge token) (some (.authenticate challenge none)) ∈
          trace i m.store.log := by
        rw [htrace]
        simp
      have hstored : .mfa (.passkey (env.credentialId credential) (some stored)) ∈
          trace i m.store.log := by
        rw [htrace]
        simp
      exact Or.inr (.passkey htaken hstored hverified rfl)
  | @password token =>
      exact Or.inl ⟨.loginWorkflow token, workflow, by simp, rfl⟩
  | @management token _ _ consumed =>
      have hsame : workflow = consumed :=
        read_unique h hlog hcache (i := i) (j := i) (.loginWorkflow token)
          (show .got _ _ ∈ _ by simp [htrace]) (show .taken _ _ ∈ _ by simp [htrace])
          (Or.inl rfl) (Or.inr rfl) rfl rfl
      exact Or.inl ⟨.loginWorkflow token, consumed, by simp, by rw [hsame]; rfl⟩

/-- A chain of calls, from a login of the user, that ends in call `j`; the login was not decided
to be a collision unless the workflow still says so. -/
def Rooted (env : Env) (log : List (Nat × Event)) (workflow : Workflow) (j : Nat) : Prop :=
  ∃ k decision, Authenticates env log k workflow.userId decision ∧
    Relation.ReflTransGen (Hands log) k j ∧
    (decision = .collisionProofRequired → workflow.decision = .collisionProofRequired)

theorem Rooted.mono {log : List (Nat × Event)} {entry : Nat × Event} {workflow : Workflow}
    (h : Rooted env log workflow j) : Rooted env (entry :: log) workflow j := by
  obtain ⟨k, decision, hlogin, hchain, hcollision⟩ := h
  exact ⟨k, decision, hlogin.mono, hands_chain_mono hchain, hcollision⟩

/-- What a call takes is rooted, and so is what it makes of it. -/
theorem Rooted.handed {log : List (Nat × Event)} {source : CacheKey} {held : source.Value}
    {ttl : Nat} {carried workflow : Workflow} (h : Rooted env log carried j)
    (hput : (j, .put source held ttl) ∈ log) (htaken : .taken source (some held) ∈ trace i log)
    (hheld : source.carried held = some carried) (huser : carried.userId = workflow.userId)
    (hdecision : carried.decision = .collisionProofRequired →
      workflow.decision = .collisionProofRequired) : Rooted env log workflow i := by
  obtain ⟨k, decision, hlogin, hchain, hcollision⟩ := h
  exact ⟨k, decision, huser ▸ hlogin, hchain.tail
    ⟨source, held, ttl, carried, hheld, hput, mem_trace_iff.mp htaken⟩,
    fun heq => hdecision (hcollision heq)⟩

/-- Every workflow in the store comes from a login of its user. -/
theorem rooted_of_put (h : History env c m) (hlog : c.store.log = [])
    (hcache : ∀ key, c.store.cache key = none) {value : key.Value} {ttl : Nat}
    {workflow : Workflow} (hcarried : key.carried value = some workflow)
    (hput : (j, .put key value ttl) ∈ m.store.log) : Rooted env m.store.log workflow j := by
  refine Ledger.Leads.preserves (P := fun n => ∀ j (key : CacheKey) (value : key.Value) ttl
    workflow, key.carried value = some workflow → (j, .put key value ttl) ∈ n.store.log →
      Rooted env n.store.log workflow j) h ?_ ?_ ?_ j key value ttl workflow hcarried hput
  · intro j key value ttl workflow _ hput
    rw [hlog] at hput
    cases hput
  · intro n i e hn ih _ henabled j key value ttl workflow hcarried hput
    change (j, .put key value ttl) ∈ (e.apply i n).store.log at hput
    change Rooted env (e.apply i n).store.log workflow j
    rw [Event.log_apply] at hput ⊢
    rcases List.mem_cons.mp hput with heq | hold
    · obtain ⟨rfl, rfl⟩ := Prod.mk.inj heq
      -- the workflow comes from the token that this call has taken
      have hhanded : ∀ (source : CacheKey) (held : source.Value) (carried : Workflow),
          .taken source (some held) ∈ trace j n.store.log →
          source.carried held = some carried → carried.userId = workflow.userId →
          (carried.decision = .collisionProofRequired →
            workflow.decision = .collisionProofRequired) →
          Rooted env ((j, .put key value ttl) :: n.store.log) workflow j := by
        intro source held carried htaken hheld huser hdecision
        obtain ⟨k, ttl', hsource⟩ := History.put_of_read hn hlog hcache
          (CacheKey.isPlain_of_carried hheld) htaken (Or.inr rfl)
        exact ((ih k source held ttl' carried hheld hsource).handed hsource htaken hheld huser
          hdecision).mono
      have hputs : Puts env j (trace j n.store.log) key value ttl := henabled.1
      cases key with
      | loginWorkflow token =>
          cases hcarried
          rcases hputs with ⟨rfl, hprimary⟩ | ⟨rfl, user, carried, method, hchecked, hopen, rfl⟩
          · have hlast : trace j ((j, .put (.loginWorkflow (.drawn j 0)) workflow ttl) ::
                n.store.log) = [] ++ .put (.loginWorkflow (.drawn j 0)) workflow ttl ::
                  trace j n.store.log := trace_cons_self j _ _
            exact ⟨j, workflow.decision, .primary hlast hprimary rfl, .refl, id⟩
          · have huser := user_of_checked hn hlog hcache hchecked
            rcases taken_of_checked hn hlog hcache hchecked with
              ⟨source, held, htaken, hheld⟩ | hlogin
            · exact hhanded source held carried htaken hheld huser fun heq => absurd heq hopen
            · exact ⟨j, .passkeyPrimary, hlogin.mono, .refl, fun heq => by cases heq⟩
      | mfaChallenge token =>
          cases hcarried
          obtain ⟨token', _, _, _, htaken, _⟩ := hputs.2.1
          exact hhanded (.loginWorkflow token') _ _ htaken rfl rfl id
      | webauthnChallenge token =>
          cases value with
          | register user label challenge workflow =>
              cases hcarried
              obtain ⟨token', _, _, _, htaken, _⟩ := hputs.2.1
              exact hhanded (.loginWorkflow token') _ _ htaken rfl rfl id
          | authenticate challenge workflow =>
              cases hcarried
              obtain ⟨_, token', _, _, _, htaken, _⟩ := hputs.2
              exact hhanded (.loginWorkflow token') _ _ htaken rfl rfl id
      | _ => cases hcarried
    · exact (ih j key value ttl workflow hcarried hold).mono
  · intro n d _ ih
    exact ih

/-- A call that creates a session hands nothing on, and creates no other. -/
theorem created_last (h : History env c m) (hlog : c.store.log = []) {args : CreateArgs}
    {found : List SessionMatch} {result : CreatedSession}
    (hcreated : (i, .session (.created args found result)) ∈ m.store.log) :
    (¬∃ j, Hands m.store.log i j) ∧ ∀ args' found' result',
      (i, .session (.created args' found' result')) ∈ m.store.log →
        args' = args ∧ found' = found ∧ result' = result := by
  have hcreates : ∀ {args found result later earlier},
      m.store.log = later ++ (i, .session (.created args found result)) :: earlier →
      Creates env i (trace i earlier) args found := by
    intro args found result later earlier hsplit
    obtain ⟨_, _, _, hfollows, _, _⟩ := h.around hlog hsplit
    exact hfollows
  refine ⟨?_, ?_⟩
  · rintro ⟨j, key, value, ttl, workflow, hcarried, hput, _⟩
    rcases order_of_mem hcreated hput with heq | ⟨_, _, hsplit, hmem⟩ | ⟨_, _, hsplit, hmem⟩
    · cases heq
    · have hbefore := mem_trace_iff.mpr hmem
      have hfirst := hcreates hsplit
      generalize trace i _ = t at hbefore hfirst
      cases hfirst
      simp at hbefore
    · obtain ⟨_, _, _, hfollows, _, _⟩ := h.around hlog hsplit
      have hproduces := (drawn_of_put hcarried hfollows).2 _ (mem_trace_iff.mpr hmem)
      cases hproduces
  · intro args' found' result' hother
    rcases order_of_mem hcreated hother with heq | ⟨_, _, hsplit, hmem⟩ | ⟨_, _, hsplit, hmem⟩
    · cases heq
      exact ⟨rfl, rfl, rfl⟩
    · have hbefore := mem_trace_iff.mpr hmem
      have hfirst := hcreates hsplit
      generalize trace i _ = t at hbefore hfirst
      cases hfirst
      simp at hbefore
    · have hbefore := mem_trace_iff.mpr hmem
      have hfirst := hcreates hsplit
      generalize trace i _ = t at hbefore hfirst
      cases hfirst
      simp at hbefore

/-- Behind each session stands a login of its user that was no collision, whatever security
checks came in between, and no two sessions stand on one login. -/
theorem one_session_per_login (hinit : Initial c) {s : Config schema World AuthError Result}
    (h : (application env).Reachable c s) :
    (∀ i args found result, (i, .session (.created args found result)) ∈ s.core.store.log →
      ∃ k decision, Authenticates env s.core.store.log k args.userId decision ∧
        decision ≠ .collisionProofRequired ∧
        Relation.TransGen (Hands s.core.store.log) k i) ∧
    ∀ k i args found result i' args' found' result',
      (i, .session (.created args found result)) ∈ s.core.store.log →
      (i', .session (.created args' found' result')) ∈ s.core.store.log →
      Relation.TransGen (Hands s.core.store.log) k i →
      Relation.TransGen (Hands s.core.store.log) k i' →
      i' = i ∧ args' = args ∧ found' = found ∧ result' = result := by
  have hhistory := history_of_reachable hinit.log h
  refine ⟨?_, ?_⟩
  · intro i args found result hcreated
    obtain ⟨later, earlier, hsplit⟩ := List.append_of_mem hcreated
    obtain ⟨m, hm, rfl, hfollows, _, _⟩ := hhistory.around hinit.log hsplit
    have hcreates : Creates env i (trace i m.store.log) args found := hfollows
    generalize htrace : trace i m.store.log = t at hcreates
    cases hcreates with
    | @intro token client fingerprint ip workflow now stored found hready =>
        have htaken : .taken (.loginWorkflow token) (some workflow) ∈ trace i m.store.log := by
          rw [htrace]
          simp
        have hwhole : ∀ {entry}, entry ∈ m.store.log → entry ∈ s.core.store.log := by
          intro entry hmem
          rw [hsplit]
          exact List.mem_append_right _ (List.mem_cons_of_mem _ hmem)
        obtain ⟨j, ttl, hput⟩ := hm.put_of_read hinit.log hinit.cache (by rfl) htaken (Or.inr rfl)
        obtain ⟨k, decision, hlogin, hchain, hcollision⟩ :=
          rooted_of_put hhistory hinit.log hinit.cache (by rfl) (hwhole hput)
        refine ⟨k, decision, hlogin, ?_, .tail' hchain ⟨_, _, ttl, workflow, rfl, hwhole hput,
          hwhole (mem_trace_iff.mp htaken)⟩⟩
        intro heq
        have hstill := hcollision heq
        rw [hready] at hstill
        cases hstill
  · intro k i args found result i' args' found' result' hcreated hcreated' hchain hchain'
    obtain ⟨hend, hone⟩ := created_last hhistory hinit.log hcreated
    obtain ⟨hend', _⟩ := created_last hhistory hinit.log hcreated'
    have hsame : i' = i := by
      rcases hchain.to_reflTransGen.total_of_right_unique
          (Hands.rightUnique hhistory hinit.log hinit.cache) hchain'.to_reflTransGen with
        hon | hon
      · rcases hon.cases_head with heq | ⟨j, hhands, _⟩
        · exact heq.symm
        · exact absurd ⟨j, hhands⟩ hend
      · rcases hon.cases_head with heq | ⟨j, hhands, _⟩
        · exact heq
        · exact absurd ⟨j, hhands⟩ hend'
    subst hsame
    exact ⟨rfl, hone args' found' result' hcreated'⟩

/-- The event creates a session of the user. -/
def createsFor (user : Uuid) : Event → Bool
  | .session (.created args _ _) => args.userId == user
  | _ => false

theorem created_of_createsFor {user : Uuid} {e : Event} (h : createsFor user e = true) :
    ∃ args found result, e = .session (.created args found result) ∧ args.userId = user := by
  unfold createsFor at h
  split at h
  · exact ⟨_, _, _, rfl, beq_iff_eq.mp h⟩
  · cases h

theorem one_session_per_login_of_ann :
    ∃ k decision, decision ≠ .collisionProofRequired ∧
      Authenticates sampleEnv (reached (signIn 0 "ann")).core.store.log k (.given 1) decision := by
  have hcreated : (reached (signIn 0 "ann")).core.store.log.any
      (fun entry => createsFor (.given 1) entry.2) = true := by decide +kernel
  obtain ⟨⟨i, e⟩, hmem, hentry⟩ := List.any_eq_true.mp hcreated
  obtain ⟨args, found, result, rfl, huser⟩ := created_of_createsFor hentry
  obtain ⟨hlogin, _⟩ := one_session_per_login sampleCore_initial
    (reachable_reached (signIn 0 "ann") (by decide +kernel))
  obtain ⟨k, decision, hk, hopen, _⟩ := hlogin i args found result hmem
  exact ⟨k, decision, hopen, huser ▸ hk⟩

/-- How a call comes to grant a session: by a login from a device that is known and has kept its
address, or by a completed security check of the user. -/
inductive Grants (env : Env) (log : List (Nat × Event)) (j : Nat) (user : Uuid) : Prop
  | login {workflow : Workflow} {ttl : Nat} {args : SignalArgs} {found : Option Uuid}
      {signals : DeviceSignals} {after before : List Event} :
      trace j log = after ++ .put (.loginWorkflow (.drawn j 0)) workflow ttl :: before →
      Primary env j before workflow → .login (.signalled args found signals) ∈ before →
      args.userId = user → signals.known = true → signals.ipChanged = false →
      Grants env log j user
  | check {carried : Workflow} {method : String} {ttl : Nat} {after before : List Event} :
      trace j log = after ++
        .put (.loginWorkflow (.drawn j 9)) (MFAControl.completedWorkflow user method) ttl ::
          before →
      Checked env j before user carried method → carried.decision ≠ .collisionProofRequired →
      Grants env log j user

theorem signals_of_ready {signals : DeviceSignals}
    (h : LoginControl.decisionFor (LoginControl.riskLevel (LoginControl.riskScore signals)) =
      .sessionReady) : signals.known = true ∧ signals.ipChanged = false := by
  obtain ⟨known, trusted, ipChanged⟩ := signals
  revert h
  cases known <;> cases trusted <;> cases ipChanged <;> decide

/-- The workflow of a new session was put by a call that grants one. -/
theorem grants_of_ready {t : List Event} {token : Token} {workflow : Workflow} {ttl : Nat}
    {log : List (Nat × Event)} {after : List Event}
    (htrace : trace j log = after ++ .put (.loginWorkflow token) workflow ttl :: t)
    (hputs : Puts env j t (.loginWorkflow token) workflow ttl)
    (hready : workflow.decision = .sessionReady) : Grants env log j workflow.userId := by
  rcases hputs with ⟨rfl, hprimary⟩ | ⟨rfl, user, carried, method, hchecked, hopen, rfl⟩
  · have hagain := hprimary
    cases hprimary with
    | decided =>
        obtain ⟨hknown, hsame⟩ := signals_of_ready hready
        exact .login htrace hagain (List.mem_cons_of_mem _ (List.mem_cons_of_mem _
          List.mem_cons_self)) rfl hknown hsame
    | collision => cases hready
  · exact .check htrace hchecked hopen

/-- No session without a second look: each is created from a workflow that a login from a known
device with its old address has put, or a completed security check of the user. -/
theorem session_granted (hinit : Initial c) {s : Config schema World AuthError Result}
    (h : (application env).Reachable c s) {args : CreateArgs} {found : List SessionMatch}
    {result : CreatedSession}
    (hcreated : (i, .session (.created args found result)) ∈ s.core.store.log) :
    ∃ j, Hands s.core.store.log j i ∧ Grants env s.core.store.log j args.userId := by
  have hhistory := history_of_reachable hinit.log h
  obtain ⟨later, earlier, hsplit⟩ := List.append_of_mem hcreated
  obtain ⟨m, hm, rfl, hfollows, _, _⟩ := hhistory.around hinit.log hsplit
  have hcreates : Creates env i (trace i m.store.log) args found := hfollows
  have hwhole : ∀ {entry}, entry ∈ m.store.log → entry ∈ s.core.store.log := by
    intro entry hmem
    rw [hsplit]
    exact List.mem_append_right _ (List.mem_cons_of_mem _ hmem)
  generalize htrace : trace i m.store.log = t at hcreates
  cases hcreates with
  | @intro token client fingerprint ip workflow now stored found hready =>
      have htaken : .taken (.loginWorkflow token) (some workflow) ∈ trace i m.store.log := by
        rw [htrace]
        simp
      obtain ⟨j, ttl, hput⟩ := hm.put_of_read hinit.log hinit.cache (by rfl) htaken (Or.inr rfl)
      obtain ⟨l₁, l₂, hbefore⟩ := List.append_of_mem (hwhole hput)
      obtain ⟨x, _, rfl, hputs, _, _⟩ := hhistory.around hinit.log hbefore
      have hrecord : trace j s.core.store.log = trace j l₁ ++
          .put (.loginWorkflow token) workflow ttl :: trace j x.store.log := by
        rw [hbefore, trace_append, trace_cons_self]
      exact ⟨j, ⟨_, _, ttl, workflow, rfl, hwhole hput, hwhole (mem_trace_iff.mp htaken)⟩,
        grants_of_ready hrecord hputs hready⟩

theorem session_granted_to_ann :
    ∃ j, Grants sampleEnv (reached (signIn 0 "ann")).core.store.log j (.given 1) := by
  have hcreated : (reached (signIn 0 "ann")).core.store.log.any
      (fun entry => createsFor (.given 1) entry.2) = true := by decide +kernel
  obtain ⟨⟨i, e⟩, hmem, hentry⟩ := List.any_eq_true.mp hcreated
  obtain ⟨args, found, result, rfl, huser⟩ := created_of_createsFor hentry
  obtain ⟨j, _, hgrants⟩ := session_granted sampleCore_initial
    (reachable_reached (signIn 0 "ann") (by decide +kernel)) hmem
  exact ⟨j, huser ▸ hgrants⟩

end AuthCore
