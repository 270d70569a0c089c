/-
A reset and the logins around it.  The password of a reset stays the only one,
unless a login that has read the hash before the reset stores its own after it.
-/
import AuthCore.Accounts.PasswordHistory
import AuthCore.Accounts.ResetLinks
import AuthCore.Accounts.StateMachine

namespace AuthCore

open Interleave Relational RecoveryRepository

/-- The stored hash takes this password and no other. -/
def OnlyTakes (env : Env) (password : String) (stored : Option String) : Prop :=
  ∃ hash, stored = some hash ∧ ∀ candidate,
    env.passwordVerify hash candidate = true ↔ candidate = password

namespace Account

/-- An identity has its user, who has one password identity at most. -/
structure Sound (a : Account) : Prop where
  owned : a.row = none → ∀ id, a.login id = none
  single : ∀ id id' x x', a.login id = some x → a.login id' = some x' →
    x.provider = .password → x'.provider = .password → id = id'

/-- The password identities of the account take this password and no other. -/
def Opens (env : Env) (password : String) (a : Account) : Prop :=
  ∀ id x, a.login id = some x → x.provider = .password → OnlyTakes env password x.passwordHash

/-- Each identity is one that was there, under the same provider. -/
def Within (a a' : Account) : Prop :=
  ∀ id x', a'.login id = some x' → ∃ x, a.login id = some x ∧ x.provider = x'.provider

theorem Sound.within {a a' : Account} (h : a.Sound) (hwithin : a.Within a')
    (hrow : a'.row ≠ none) : a'.Sound where
  owned hnone := absurd hnone hrow
  single id id' x x' hx hx' hprovider hprovider' := by
    obtain ⟨y, hy, hsame⟩ := hwithin id x hx
    obtain ⟨y', hy', hsame'⟩ := hwithin id' x' hx'
    exact h.single id id' y y' hy hy' (hsame.trans hprovider) (hsame'.trans hprovider')

theorem within_of_map {a a' : Account} {g : Uuid → Identity → Identity}
    (h : ∀ id, a'.login id = (a.login id).map (g id))
    (hg : ∀ id x, (g id x).provider = x.provider) : a.Within a' := by
  intro id x' hx'
  rw [h] at hx'
  obtain ⟨x, hx, rfl⟩ := Option.map_eq_some_iff.mp hx'
  exact ⟨x, hx, (hg id x).symm⟩

end Account

section Steps

variable {u : Uuid} {a a' : Account} {e : Event}

theorem provider_withHash {hash : String} {p : Prop} [Decidable p] (x : Identity) :
    (if p then withHash hash x else x).provider = x.provider := by
  split
  · rfl
  · rfl

theorem AccountStep.sound (h : AccountStep u a e a') (hsound : a.Sound) : a'.Sound := by
  cases h with
  | same => exact hsound
  | @created _ _ row new _ hnone hrow _ hlogins =>
      refine ⟨fun habsent => absurd (hrow.symm.trans habsent) (by simp), ?_⟩
      have hnew : ∀ id x, a'.login id = some x → id = new := by
        intro id x hx
        rcases hlogins id x hx with hold | ⟨hid, _⟩
        · rw [hsound.owned hnone id] at hold
          cases hold
        · exact hid
      intro id id' x x' hx hx' _ _
      rw [hnew id x hx, hnew id' x' hx']
  | rehashed =>
      by_cases hrow : a.row = none
      · refine ⟨fun _ id => by simp [hsound.owned hrow id], ?_⟩
        intro id id' x x' hx
        simp [hsound.owned hrow id] at hx
      · refine hsound.within (Account.within_of_map (fun _ => rfl) ?_) hrow
        exact fun _ => provider_withHash
  | verified _ _ _ hnew hlogins =>
      refine hsound.within (fun id x' hx' => ?_) (by simp [hnew])
      rcases hlogins id with hsame | hverified
      · exact ⟨x', hsame ▸ hx', rfl⟩
      · rw [hverified] at hx'
        obtain ⟨x, hx, rfl⟩ := Option.map_eq_some_iff.mp hx'
        exact ⟨x, hx, rfl⟩
  | reset =>
      refine hsound.within (Account.within_of_map (fun _ => rfl) ?_) (by simp)
      exact fun _ => provider_withHash
  | contact _ _ _ hnew hlogins =>
      refine hsound.within (fun id x' hx' => ?_) (by simp [hnew])
      obtain ⟨x, hx, ⟨_, rfl⟩ | ⟨_, rfl⟩⟩ := hlogins id x' hx'
      · exact ⟨x, hx, rfl⟩
      · exact ⟨_, hx, rfl⟩
  | unlocked => exact hsound.within (fun id x hx => ⟨x, hx, rfl⟩) (by simp)
  | suspended => exact hsound.within (fun id x hx => ⟨x, hx, rfl⟩) (by simp)
  | executed => exact hsound.within (fun id x hx => ⟨x, hx, rfl⟩) (by simp)
  | erased _ _ hnew hlogins =>
      exact hsound.within (fun id x hx => ⟨x, hlogins id x hx, rfl⟩) (by simp [hnew])

/-- What leaves the password of an account alone: everything but another reset and the
new hash of a login. -/
theorem AccountStep.opens {env : Env} {password : String} (h : AccountStep u a e a')
    (hopens : a.Opens env password) (hsome : a.row ≠ none) (hreset : e.resetOf ≠ some u)
    (hrehash : ∀ hash found, e = .login (.passwordUpdated u hash found) →
      OnlyTakes env password (some hash)) : a'.Opens env password := by
  cases h with
  | same => exact hopens
  | created _ hnone => exact absurd hnone hsome
  | @rehashed hash found =>
      intro id x' hx' hprovider
      obtain ⟨x, hx, rfl⟩ := Option.map_eq_some_iff.mp hx'
      rw [provider_withHash] at hprovider
      split
      · exact hrehash hash found rfl
      · exact hopens id x hx hprovider
  | verified _ _ _ _ hlogins =>
      intro id x' hx' hprovider
      rcases hlogins id with hsame | hverified
      · exact hopens id x' (hsame ▸ hx') hprovider
      · rw [hverified] at hx'
        obtain ⟨x, hx, rfl⟩ := Option.map_eq_some_iff.mp hx'
        exact hopens id x hx hprovider
  | reset => exact absurd rfl hreset
  | contact _ _ _ _ hlogins =>
      intro id x' hx' hprovider
      obtain ⟨x, hx, ⟨_, rfl⟩ | ⟨_, rfl⟩⟩ := hlogins id x' hx'
      · exact hopens id x hx hprovider
      · exact hopens id _ hx hprovider
  | unlocked => exact hopens
  | suspended => exact hopens
  | executed => exact hopens
  | erased _ _ _ hlogins => exact fun id x hx => hopens id x (hlogins id x hx)

end Steps

section Runs

variable {env : Env} {c m : Core Db World} {u : Uuid} {i : Nat} {e : Event}

theorem sound_of_history (hinit : Initial c) (hstart : (c.db.account u).Sound)
    (h : History env c m) : (m.db.account u).Sound := by
  rw [h.db_eq hinit.log]
  have hwhole := h.through (P := fun d => (d.account u).Sound) hinit.log
    (show m.store.log = [] ++ (m.store.log ++ []) by simp) hstart
    fun m' i e _ hm' hfollows hagrees hsound =>
      (account_change hinit hm' hfollows hagrees u).sound hsound
  rwa [List.append_nil] at hwhole

/-- The row that a login reads has the hash of a password identity. -/
theorem login_of_identity {subject : String} {row : LoginIdentity} {d : Db}
    (h : some row = LoginRepository.identity .password subject d) :
    ∃ id x, (d.account row.userId).login id = some x ∧ x.provider = .password ∧
      row.passwordHash = x.passwordHash := by
  obtain ⟨before, entry, after, hselect, hfound, _⟩ := List.findSome?_eq_some_iff.mp h.symm
  have hmem : entry ∈ d.identities.select fun _ row => row.provider == .password &&
      row.providerSubject == subject := by
    rw [hselect]
    simp
  obtain ⟨hget, hmatch⟩ := Table.mem_select.mp hmem
  simp only [Bool.and_eq_true, beq_iff_eq] at hmatch
  split at hfound
  · cases hfound
  · split at hfound
    · cases hfound
      refine ⟨entry.1, entry.2, ?_, hmatch.1, rfl⟩
      change (d.identities.get entry.1).filter _ = some entry.2
      rw [hget]
      simp [Identity.isLocal, hmatch.1]
    · cases hfound

/-- A reset makes its password the only one. -/
theorem opens_of_reset (hhasher : HasherCorrect env) {args : ResetArgs} {found : Option Uuid}
    {user : RecoveryUser}
    (hfollows : (Event.recovery (.passwordReset args found (.updated, some user))).Follows env i
      (trace i m.store.log))
    (hagrees : (Event.recovery (.passwordReset args found (.updated, some user))).Agrees m)
    (hsound : (m.db.account user.userId).Sound) :
    (((Event.recovery (.passwordReset args found (.updated, some user))).change m.db).account
      user.userId).row ≠ none ∧
    (((Event.recovery (.passwordReset args found (.updated, some user))).change m.db).account
      user.userId).Opens env args.password := by
  obtain ⟨owner, row, identity, x, huser, _, _, hmine, hprovider, hself, _⟩ :=
    account_of_reset hagrees
  have howner : user.userId = owner := congrArg RecoveryUser.userId (Option.some.inj huser)
  subst howner
  rw [hself]
  refine ⟨by simp, fun id x' hx' hprovider' => ?_⟩
  obtain ⟨y, hy, rfl⟩ := Option.map_eq_some_iff.mp hx'
  rw [provider_withHash] at hprovider'
  obtain rfl := hsound.single id identity y x hy hmine hprovider' hprovider
  rw [if_pos rfl]
  change Resets env i (trace i m.store.log) args found at hfollows
  generalize trace i m.store.log = t at hfollows
  cases hfollows
  exact ⟨_, rfl, fun candidate => hhasher _ _ candidate⟩

/-- A login with another password stores its hash after the reset although it has read the
old one before it. -/
def StaleRehash (u : Uuid) (password : String) (between earlier : List (Nat × Event)) : Prop :=
  ∃ j hash found email other fingerprint ip subject row,
    (j, .login (.passwordUpdated u hash found)) ∈ between ∧
    (j, .login (.identity .password subject (some row))) ∈ earlier ∧
    (j, .called (.loginPassword email other fingerprint ip)) ∈ earlier ∧ other ≠ password

theorem empty_of_called (hinit : Initial c) (h : History env c m)
    {later earlier : List (Nat × Event)} {call : Call}
    (hlog : m.store.log = later ++ (i, .called call) :: earlier) : trace i earlier = [] := by
  obtain ⟨_, _, _, hfollows, _, _⟩ := h.around hinit.log hlog
  exact hfollows

/-- A call begins once. -/
theorem called_unique (hinit : Initial c) (h : History env c m) {call call' : Call}
    (hmem : (i, .called call) ∈ m.store.log) (hmem' : (i, .called call') ∈ m.store.log) :
    call = call' := by
  have hnone : ∀ {call call' : Call}, (∃ later earlier, m.store.log =
      later ++ (i, .called call) :: earlier ∧ (i, Event.called call') ∈ earlier) → False := by
    rintro call call' ⟨later, earlier, hlog, hearlier⟩
    have hempty := empty_of_called hinit h hlog
    rw [← mem_trace_iff, hempty] at hearlier
    cases hearlier
  rcases order_of_mem hmem hmem' with heq | hlater | hearlier
  · cases heq
    rfl
  · exact (hnone hlater).elim
  · exact (hnone hearlier).elim

/-- What a call records after a point, it does when it has begun after it. -/
theorem not_earlier (hinit : Initial c) (h : History env c m) {between earlier : List (Nat × Event)}
    {call : Call} {later : List (Nat × Event)} (hlog : m.store.log = later ++ (between ++ earlier))
    (hcalled : (i, .called call) ∈ between) : (i, e) ∉ earlier := by
  intro hmem
  obtain ⟨after, before, rfl⟩ := List.append_of_mem hcalled
  have hempty := empty_of_called hinit h (show m.store.log =
    (later ++ after) ++ (i, .called call) :: (before ++ earlier) by simp [hlog])
  have hin : e ∈ trace i (before ++ earlier) :=
    mem_trace_iff.mpr (List.mem_append_right _ hmem)
  rw [hempty] at hin
  cases hin

/-- Whatever call a login workflow is from, a password that it presents has been checked. -/
theorem checked_of_primary {t : List Event} {workflow : Workflow}
    (h : Primary env i t workflow) :
    ∃ call, .called call ∈ t ∧ PasswordChecked env call workflow.userId t := by
  have hlonger : ∀ {call user} {rest : List Event} (e₁ e₂ e₃ : Event),
      PasswordChecked env call user rest →
        PasswordChecked env call user (e₁ :: e₂ :: e₃ :: rest) := by
    intro call user rest e₁ e₂ e₃ hchecked email password fingerprint ip heq
    obtain ⟨row, hrow, hvalid⟩ := hchecked email password fingerprint ip heq
    exact ⟨row, by simp [hrow], hvalid⟩
  cases h with
  | decided _ hcall hchecked => exact ⟨_, by simp [hcall], hlonger _ _ _ hchecked⟩
  | collision hcall hchecked => exact ⟨_, by simp [hcall], hlonger _ _ _ hchecked⟩

/-- What holds between a reset and the next one: the password of the reset is the only one,
in the table and in what logins have read. -/
structure Unspoilt (env : Env) (u : Uuid) (password : String) (log : List (Nat × Event))
    (d : Db) : Prop where
  row : (d.account u).row ≠ none
  opens : (d.account u).Opens env password
  read : ∀ j email row, (j, .login (.identity .password email (some row))) ∈ log →
    row.userId = u → OnlyTakes env password row.passwordHash

theorem Unspoilt.change {password : String} {part earlier : List (Nat × Event)}
    (h : Unspoilt env u password part m.db) (hinit : Initial c) (hhasher : HasherCorrect env)
    (hm : History env c m) (hlog : m.store.log = part ++ earlier)
    (hfollows : e.Follows env i (trace i m.store.log)) (hagrees : e.Agrees m)
    (hreset : e.resetOf ≠ some u)
    (hfresh : ¬StaleRehash u password ((i, e) :: part) earlier) :
    Unspoilt env u password ((i, e) :: part) (e.change m.db) := by
  have hstep := account_change hinit hm hfollows hagrees u
  constructor
  case row =>
    obtain ⟨row, hrow⟩ := Option.ne_none_iff_exists'.mp h.row
    obtain ⟨row', hrow', _⟩ := hstep.row hrow
    rw [hrow']
    simp
  case opens =>
    refine hstep.opens h.opens h.row hreset ?_
    rintro hash found rfl
    change Rehashes env i (trace i m.store.log) u hash found at hfollows
    generalize htrace : trace i m.store.log = t at hfollows
    obtain @⟨email, other, fingerprint, ip, row, checks, _, hverify⟩ := hfollows
    have hmem : (i, .login (.identity .password (env.normalizeEmail email) (some row))) ∈
        part ++ earlier := by
      rw [← hlog, ← mem_trace_iff, htrace]
      simp
    suffices hsame : other = password by
      subst hsame
      exact ⟨_, rfl, fun candidate => hhasher _ _ candidate⟩
    rcases List.mem_append.mp hmem with hread | hstale
    · obtain ⟨stored, hstored, honly⟩ := h.read i _ row hread rfl
      rw [hstored] at hverify
      exact (honly other).mp hverify
    · by_contra hother
      have hcalled : (i, .called (.loginPassword email other fingerprint ip)) ∈
          part ++ earlier := by
        rw [← hlog, ← mem_trace_iff, htrace]
        simp
      rcases List.mem_append.mp hcalled with hlate | hcalled
      · exact not_earlier hinit hm (show _ = [] ++ (part ++ earlier) from hlog) hlate hstale
      · exact hfresh ⟨i, _, _, email, other, fingerprint, ip, _, row, List.mem_cons_self, hstale,
          hcalled, hother⟩
  case read =>
    intro j email row hmem huser
    rcases List.mem_cons.mp hmem with heq | hold
    · cases heq
      obtain ⟨id, x, hx, hprovider, hstored⟩ := login_of_identity hagrees.tells
      rw [hstored]
      exact h.opens id x (huser ▸ hx) hprovider
    · exact h.read j email row hold huser

/-- If no login that has read the password before a reset stores its own after it, the
password of the reset is the only one until the next reset: the stored hash takes it, and a
password login that begins after the reset passes with no other. -/
theorem reset_kept (hhasher : HasherCorrect env) (hinit : Initial c)
    (hstart : ∀ u, (c.db.account u).Sound) {s : Config schema World AuthError Result}
    (h : (application env).Reachable c s) {later between earlier : List (Nat × Event)}
    {args : ResetArgs} {found : Option Uuid} {user : RecoveryUser}
    (hlog : s.core.store.log = later ++
      (between ++ (i, .recovery (.passwordReset args found (.updated, some user))) :: earlier))
    (hlast : ∀ entry ∈ between, entry.2.resetOf ≠ some user.userId)
    (hfresh : ¬StaleRehash user.userId args.password between
      ((i, .recovery (.passwordReset args found (.updated, some user))) :: earlier)) :
    ((replay c.db (between ++
      (i, .recovery (.passwordReset args found (.updated, some user))) :: earlier)).account
        user.userId).Opens env args.password ∧
    ∀ j email password fingerprint ip workflow ttl,
      (j, .called (.loginPassword email password fingerprint ip)) ∈ between →
      (j, .put (.loginWorkflow (.drawn j 0)) workflow ttl) ∈ between →
      workflow.userId = user.userId → password = args.password := by
  have hhistory := history_of_reachable hinit.log h
  obtain ⟨m, hm, rfl, hfollows, hagrees, _⟩ := hhistory.around hinit.log
    (show _ = (later ++ between) ++ (i, .recovery (.passwordReset args found
      (.updated, some user))) :: earlier by rw [hlog, List.append_assoc])
  have hreset := opens_of_reset hhasher hfollows hagrees (sound_of_history hinit (hstart _) hm)
  have hunspoilt : Unspoilt env user.userId args.password between (replay c.db (between ++
      (i, .recovery (.passwordReset args found (.updated, some user))) :: m.store.log)) := by
    refine hhistory.along (P := fun part d => ¬StaleRehash user.userId args.password part
      ((i, .recovery (.passwordReset args found (.updated, some user))) :: m.store.log) →
        Unspoilt env user.userId args.password part d) hinit.log hlog ?_ ?_ hfresh
    · rintro -
      rw [replay_cons, ← hm.db_eq hinit.log]
      exact ⟨hreset.1, hreset.2, by simp⟩
    · intro m' k e' after before hsplit hm' hlog' hfollows' hagrees' hP hfresh'
      refine (hP ?_).change hinit hhasher hm' hlog' hfollows' hagrees' ?_ hfresh'
      · rintro ⟨j, hash, found', email, other, fingerprint, ip, subject, row, hmem, hrest⟩
        exact hfresh' ⟨j, hash, found', email, other, fingerprint, ip, subject, row,
          List.mem_cons_of_mem _ hmem, hrest⟩
      · exact hlast (k, e') (by simp [hsplit])
  refine ⟨hunspoilt.opens, ?_⟩
  intro j email password fingerprint ip workflow ttl hcalled hput huser
  obtain ⟨after, before, hsplit⟩ := List.append_of_mem hput
  obtain ⟨m', hm', hlog', hputs, _, _⟩ := hhistory.around hinit.log
    (show s.core.store.log = (later ++ after) ++ (j, .put (.loginWorkflow (.drawn j 0)) workflow
      ttl) :: (before ++ (i, .recovery (.passwordReset args found (.updated, some user))) ::
        m.store.log) by rw [hlog, hsplit]; simp)
  rw [← hlog'] at hputs
  rcases hputs with ⟨_, hprimary⟩ | ⟨htoken, _⟩
  · obtain ⟨call, hcall, hchecked⟩ := checked_of_primary hprimary
    have hmine : (j, .called (.loginPassword email password fingerprint ip)) ∈ m'.store.log := by
      rw [hlog']
      rw [hsplit] at hcalled
      rcases List.mem_append.mp hcalled with hlate | hnow
      · exact absurd List.mem_cons_self (not_earlier hinit hhistory
          (show s.core.store.log = later ++ (after ++ ((j, .put (.loginWorkflow (.drawn j 0))
            workflow ttl) :: (before ++ (i, .recovery (.passwordReset args found
              (.updated, some user))) :: m.store.log))) by rw [hlog, hsplit]; simp) hlate)
      · rcases List.mem_cons.mp hnow with heq | hbefore
        · cases heq
        · exact List.mem_append_left _ hbefore
    obtain rfl := called_unique hinit hm' (mem_trace_iff.mp hcall) hmine
    obtain ⟨row, hread, hrow, hvalid⟩ := hchecked email password fingerprint ip rfl
    rw [mem_trace_iff, hlog'] at hread
    have hnow : (j, .login (.identity .password (env.normalizeEmail email) (some row))) ∈
        between := by
      rcases List.mem_append.mp hread with hbefore | hearlier
      · simp [hsplit, hbefore]
      · exact absurd hearlier (not_earlier hinit hhistory hlog hcalled)
    obtain ⟨stored, hstored, honly⟩ := hunspoilt.read j _ row hnow (hrow.trans huser)
    rw [hstored] at hvalid
    exact (honly password).mp hvalid
  · cases htoken

end Runs

/-- Whether the event is a reset of Ann's password to "new". -/
def Event.renews : Event → Bool
  | recovery (.passwordReset args _ (.updated, some user)) =>
      args.password == "new" && user.userId == .given 1
  | _ => false

/-- Whether call `j` starts a login workflow of Ann. -/
def Event.lets (j : Nat) : Event → Bool
  | put (.loginWorkflow token) workflow _ => token == .drawn j 0 && workflow.userId == .given 1
  | _ => false

/-- Whether the event is a call that presents the password. -/
def Event.presents (password : String) : Event → Bool
  | called (.loginPassword _ other _ _) => other == password
  | _ => false

theorem reset_of_renews {e : Event} (h : e.renews = true) :
    ∃ args found user, e = .recovery (.passwordReset args found (.updated, some user)) ∧
      args.password = "new" ∧ user.userId = .given 1 := by
  unfold Event.renews at h
  split at h
  · simp only [Bool.and_eq_true, beq_iff_eq] at h
    exact ⟨_, _, _, rfl, h⟩
  · cases h

theorem put_of_lets {j : Nat} {e : Event} (h : e.lets j = true) :
    ∃ workflow ttl, e = .put (.loginWorkflow (.drawn j 0)) workflow ttl ∧
      workflow.userId = .given 1 := by
  unfold Event.lets at h
  split at h
  · simp only [Bool.and_eq_true, beq_iff_eq] at h
    rw [h.1]
    exact ⟨_, _, rfl, h.2⟩
  · cases h

theorem called_of_presents {password : String} {e : Event} (h : e.presents password = true) :
    ∃ email fingerprint ip, e = .called (.loginPassword email password fingerprint ip) := by
  unfold Event.presents at h
  split at h
  · rw [beq_iff_eq.mp h]
    exact ⟨_, _, _, rfl⟩
  · cases h

/-- Whether a login with the password is accepted after Ann's reset. -/
def letsIn (password : String) : List (Nat × Event) → Bool :=
  anyEntry fun j e before => e.lets j && anyEntry (fun k call first => k == j &&
    call.presents password && anyEntry (fun _ reset _ => reset.renews) first) before

theorem exists_of_letsIn {password : String} {log : List (Nat × Event)}
    (h : letsIn password log = true) :
    ∃ between i args found user earlier,
      log = between ++ (i, .recovery (.passwordReset args found (.updated, some user))) :: earlier ∧
      args.password = "new" ∧ user.userId = .given 1 ∧
      ∃ j email fingerprint ip workflow ttl,
        (j, .called (.loginPassword email password fingerprint ip)) ∈ between ∧
        (j, .put (.loginWorkflow (.drawn j 0)) workflow ttl) ∈ between ∧
        workflow.userId = .given 1 := by
  obtain ⟨later, j, e, before, rfl, hput⟩ := exists_of_anyEntry h
  obtain ⟨hlets, hbefore⟩ := Bool.and_eq_true_iff.mp hput
  obtain ⟨workflow, ttl, rfl, huser⟩ := put_of_lets hlets
  obtain ⟨middle, k, call, first, rfl, hcall⟩ := exists_of_anyEntry hbefore
  simp only [Bool.and_eq_true, beq_iff_eq] at hcall
  obtain ⟨⟨rfl, hpresents⟩, hreset⟩ := hcall
  obtain ⟨email, fingerprint, ip, rfl⟩ := called_of_presents hpresents
  obtain ⟨last, i, reset, earlier, rfl, hrenews⟩ := exists_of_anyEntry hreset
  obtain ⟨args, found, user, rfl, hpassword, huser'⟩ := reset_of_renews hrenews
  refine ⟨later ++ (k, .put (.loginWorkflow (.drawn k 0)) workflow ttl) :: (middle ++
    (k, .called (.loginPassword email password fingerprint ip)) :: last), i, args, found, user,
    earlier, by simp, hpassword, huser', k, email, fingerprint, ip, workflow, ttl, by simp,
    by simp, huser⟩

/-- The reset is the only one when the log has one only. -/
theorem only_reset {between earlier : List (Nat × Event)} {entry : Nat × Event}
    {p : Nat × Event → Bool} (hcount : (between ++ entry :: earlier).countP p = 1)
    (hentry : p entry = true) : ∀ other ∈ between, p other = false := by
  intro other hmem
  rw [List.countP_append, List.countP_cons_of_pos hentry] at hcount
  have hnone : between.countP p = 0 := by omega
  simpa using List.countP_eq_zero.mp hnone other hmem

/-- The hasher has new parameters: every stored hash is due for another. -/
def rehashEnv : Env :=
  { sampleEnv with passwordNeedsRehash := fun _ => true }

def rehashSteps (i n : Nat) : List (Move (application rehashEnv)) :=
  List.replicate n (.step i 0)

/-- Ann's password is reset while a login with the old one is on its way; another login with
the old one follows. -/
def rehashMoves : List (Move (application rehashEnv)) :=
  .call 0 (.requestPasswordReset "ann") :: rehashSteps 0 13 ++
    .call 1 (.loginPassword "ann" "pw" "phone" none) :: rehashSteps 1 4 ++
    .call 2 (.resetPassword (.drawn 0 0) "new") :: rehashSteps 2 22 ++ rehashSteps 1 17 ++
    .call 3 (.loginPassword "ann" "pw" "phone" none) :: rehashSteps 3 21

theorem hasherCorrect_rehashEnv : HasherCorrect rehashEnv :=
  hasherCorrect_sampleEnv

theorem owner_sampleCore {u id : Uuid} {x : Identity}
    (h : (sampleCore.db.account u).login id = some x) :
    id = u ∧ (sampleCore.db.account u).row ≠ none := by
  obtain ⟨hget, hmine⟩ := Option.filter_eq_some_iff.mp h
  simp only [Bool.and_eq_true, beq_iff_eq] at hmine
  obtain ⟨rfl, _⟩ := hmine
  change (((∅ : Table Uuid Identity).add (.given 1) _).add (.given 2) _).get id = some x at hget
  rcases Table.get_add_eq_some hget with hfirst | ⟨rfl, rfl⟩
  · rcases Table.get_add_eq_some hfirst with hempty | ⟨rfl, rfl⟩
    · rw [Table.get_empty] at hempty
      cases hempty
    · exact ⟨rfl, by decide⟩
  · exact ⟨rfl, by decide⟩

theorem sound_sampleCore (u : Uuid) : (sampleCore.db.account u).Sound where
  owned hnone id := by
    by_contra hlogin
    obtain ⟨x, hx⟩ := Option.ne_none_iff_exists'.mp hlogin
    exact (owner_sampleCore hx).2 hnone
  single id id' x x' hx hx' _ _ :=
    (owner_sampleCore hx).1.trans (owner_sampleCore hx').1.symm

/-- A login that was on its way brings the old password back. -/
theorem reset_undone :
    ∃ s, (application rehashEnv).Reachable sampleCore s ∧
      ∃ between i args found user earlier,
        s.core.store.log = between ++
          (i, .recovery (.passwordReset args found (.updated, some user))) :: earlier ∧
        (∀ entry ∈ between, entry.2.resetOf ≠ some user.userId) ∧
        ¬(s.core.db.account user.userId).Opens rehashEnv args.password ∧
        ∃ j email password fingerprint ip workflow ttl,
          (j, .called (.loginPassword email password fingerprint ip)) ∈ between ∧
          (j, .put (.loginWorkflow (.drawn j 0)) workflow ttl) ∈ between ∧
          workflow.userId = user.userId ∧ password ≠ args.password := by
  obtain ⟨s, hreach, hrun⟩ := Service.reachable_of_run
    (show ((application rehashEnv).run (Service.start sampleCore) rehashMoves).map
        (fun s : Config schema World AuthError Result =>
          letsIn "pw" s.core.store.log &&
            s.core.store.log.countP (fun entry => entry.2.resetOf == some (.given 1)) == 1 &&
            ((s.core.db.account (.given 1)).login (.given 1)).any fun x =>
              x.provider == .password && x.passwordHash == some "hashed pw") = some true by
      decide +kernel)
  simp only [Bool.and_eq_true, beq_iff_eq] at hrun
  obtain ⟨⟨hlets, hcount⟩, hstored⟩ := hrun
  obtain ⟨between, i, args, found, user, earlier, hlog, hnew, huser, j, email, fingerprint, ip,
    workflow, ttl, hcalled, hput, howner⟩ := exists_of_letsIn hlets
  refine ⟨s, hreach, between, i, args, found, user, earlier, hlog, ?_, ?_, j, email, "pw",
    fingerprint, ip, workflow, ttl, hcalled, hput, howner.trans huser.symm, by simp [hnew]⟩
  · intro entry hentry
    rw [hlog] at hcount
    simpa [huser] using only_reset hcount (by simp [Event.resetOf, huser]) entry hentry
  · intro hopens
    obtain ⟨x, hx, hprovider, hhash⟩ := by simpa [Option.any_eq_true] using hstored
    rw [huser] at hopens
    obtain ⟨hash, hsome, honly⟩ := hopens _ x hx hprovider
    rw [hhash] at hsome
    cases hsome
    exact absurd ((honly "pw").mp rfl) (by simp [hnew])

/-- Ann logs in with the new password after the reset. -/
def renewedMoves : List SampleMove :=
  mailLink 0 "ann" ++ useLink 1 (.drawn 0 0) "new" ++
    perform 2 (.loginPassword "ann" "new" "phone" none) 16

theorem reset_kept_new :
    ∃ s, (application sampleEnv).Reachable sampleCore s ∧
      ∃ between i args found user earlier,
        s.core.store.log = between ++
          (i, .recovery (.passwordReset args found (.updated, some user))) :: earlier ∧
        (s.core.db.account user.userId).Opens sampleEnv "new" := by
  obtain ⟨s, hreach, hrun⟩ := Service.reachable_of_run
    (show ((application sampleEnv).run (Service.start sampleCore) renewedMoves).map
        (fun s : Config schema World AuthError Result =>
          letsIn "new" s.core.store.log &&
            s.core.store.log.countP (fun entry => entry.2.resetOf == some (.given 1)) == 1 &&
            s.core.store.log.all fun entry => !entry.2.rehashes) = some true by
      decide +kernel)
  simp only [Bool.and_eq_true, beq_iff_eq, List.all_eq_true] at hrun
  obtain ⟨⟨hlets, hcount⟩, hnone⟩ := hrun
  obtain ⟨between, i, args, found, user, earlier, hlog, hnew, huser, _⟩ := exists_of_letsIn hlets
  have hkept := (reset_kept hasherCorrect_sampleEnv sampleCore_initial sound_sampleCore hreach
    (show s.core.store.log = [] ++ _ from hlog) ?_ ?_).1
  · rw [hnew, ← hlog, ← (history_of_reachable rfl hreach).db_eq rfl] at hkept
    exact ⟨s, hreach, between, i, args, found, user, earlier, hlog, hkept⟩
  · intro entry hentry
    rw [hlog] at hcount
    simpa [huser] using only_reset hcount (by simp [Event.resetOf, huser]) entry hentry
  · rintro ⟨j, hash, found', _, _, _, _, _, _, hmem, _⟩
    simpa [Event.rehashes] using
      hnone (j, .login (.passwordUpdated user.userId hash found')) (by simp [hlog, hmem])

end AuthCore
