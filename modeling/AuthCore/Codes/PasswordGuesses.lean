/-
Guesses of a password.  The lock of the address is checked before the password is compared, and
set after the fifth failure is counted; a login that succeeds clears the counter.
-/
import AuthCore.Codes.Guarded
import AuthCore.History.Logins
import AuthCore.Model.Sample

namespace AuthCore

open Interleave Throttle

/-- The comparison is the step after the identity is read: the password of the call against its
hash, or against the one that stands in for it. -/
def passwordGuess (env : Env) (address : String) : List Event → Option Bool
  | .login (.identity .password subject answer) :: t =>
      match t.getLast? with
      | some (.called (.loginPassword _ password _ _)) =>
          if subject = address then
            some (env.passwordVerify
              ((answer.bind (·.passwordHash)).getD env.dummyPasswordHash) password)
          else none
      | _ => none
  | _ => none

/-- The lock of a login address. -/
def loginGuard (env : Env) (address : String) : Guard where
  lock := .loginLock address
  route := "login_password"
  subject := .text address
  limits := ⟨LoginControl.passwordAttemptLimit, seconds LoginControl.passwordAttemptWindow,
    seconds loginLockTtlSeconds, by decide⟩
  windowSeconds := LoginControl.passwordAttemptWindow
  lockSeconds := loginLockTtlSeconds
  guess := passwordGuess env address
  clears := true
  window_eq := rfl
  ttl_eq := rfl
  lock_ne h := nomatch h

/-- The application with calls of `login_password` for one address only. -/
def passwordLogins (env : Env) (address : String) : Service schema World AuthError Result :=
  (application env).only fun call => ∃ email password fingerprint ip,
    env.normalizeEmail email = address ∧ call = .loginPassword email password fingerprint ip

section Calls

variable {env : Env} {address : String} {i : Nat} {t : List Event} {email password : String}
  {fingerprint : String} {ip : Option String}

theorem mute_quiet {e : Event} (h : ∀ t, (loginGuard env address).kind t e = .other)
    (htouches : e.touches = none) : (loginGuard env address).Mute e :=
  ⟨h, by simp [htouches], by simp [htouches]⟩

theorem rests_signals (args : SignalArgs) :
    (loginGuard env address).Rests i (LoginRepository.deviceSignals args) := by
  refine rests_txn (fun found => (lockOnly_noteDevice _ _).bind fun _ => trivial)
    (fun _ _ => ⟨rfl, fun _ => trivial⟩) (fun _ _ => ⟨rfl, fun _ => trivial⟩)
    (fun _ => mute_quiet (fun _ => rfl) rfl) (fun _ => mute_quiet (fun _ => rfl) rfl)
    fun result => ?_
  cases result with
  | ok _ => exact rests_pure _
  | error _ => exact rests_fail _

theorem rests_updatePasswordHash (user : Uuid) (hash : String) :
    (loginGuard env address).Rests i (LoginRepository.updatePasswordHash user hash) := by
  refine rests_txn (fun found => (lockOnly_storePasswordHash _ _ _).bind fun _ => trivial)
    (fun _ _ => ⟨rfl, fun _ => trivial⟩) (fun _ _ => ⟨rfl, fun _ => trivial⟩)
    (fun _ => mute_quiet (fun _ => rfl) rfl) (fun _ => mute_quiet (fun _ => rfl) rfl)
    fun result => ?_
  cases result with
  | ok _ => exact rests_pure _
  | error _ => exact rests_fail _

/-- What follows a right password means nothing to the lock. -/
theorem rests_primaryDecision (user : Uuid) (method : String) :
    (loginGuard env address).Rests i
      (LoginControl.primaryDecision env i user fingerprint ip method) := by
  unfold LoginControl.primaryDecision LoginRepository.fallbackMethods LoginControl.workflowDecision
  refine .bind (fun t => obeys_clock fun now => ?_) fun now => .bind (rests_signals _) fun _ =>
    .bind (.bind (rests_look (fun _ _ => ⟨rfl, fun _ => trivial⟩) fun _ => ?_) fun _ =>
      .bind (rests_look (fun _ _ => ⟨rfl, fun _ => trivial⟩) fun _ => ?_) fun _ => rests_pure _)
      fun _ => .bind (rests_set ?_) fun _ => .bind (rests_audit fun _ => ?_) fun _ => rests_pure _
  · exact (mute_quiet (fun _ => rfl) rfl).rests
  · exact mute_quiet (fun _ => rfl) rfl
  · exact mute_quiet (fun _ => rfl) rfl
  · exact mute_put (fun heq => nomatch heq) fun heq => nomatch heq
  · exact mute_quiet (fun _ => rfl) rfl

/-- Where the check of the lock leaves the call: past it, or on its way out. -/
def PastLock (env : Env) (address : String) (call : Event) (t : List Event) :
    Except AuthError Unit → Prop
  | .ok _ => (loginGuard env address).phase t = .checking ∧ t.getLast? = some call
  | .error _ => (loginGuard env address).phase t = .out ∨
      (loginGuard env address).phase t = .checking

theorem obeys_loginIsLocked {subject : String} {allowed : List Event → Event → Prop}
    {after : List Event → Except AuthError Bool → Prop}
    (h : ∀ value, allowed t (.got (.loginLock subject) value) ∧
      after (.got (.loginLock subject) value :: t) (.ok value.isSome)) :
    (conduct allowed).Obeys i after t (Redis.loginIsLocked subject) :=
  .bind (obeys_get h)

/-- The lock of the address is checked, then that of the network, which can be the same key. -/
theorem obeys_checkLoginLock {call : Event} (hout : (loginGuard env address).phase t = .out)
    (hcall : t.getLast? = some call) :
    (conduct (loginGuard env address).Allows).Obeys i (PastLock env address call) t
      (LoginControl.checkLoginLock address ip) := by
  unfold LoginControl.checkLoginLock
  refine .bind (obeys_loginIsLocked fun value => ?_)
  cases value with
  | some value =>
      obtain ⟨hallows, hphase⟩ := out_of_mute (t := t) mute_got_some hout
      exact ⟨hallows, Or.inl hphase⟩
  | none =>
      obtain ⟨hallows, hphase⟩ := allows_pass (Or.inl hout)
      have hcall' : ∀ {e : Event} {t : List Event}, t.getLast? = some call →
          (e :: t).getLast? = some call := by
        intro e t h
        rw [List.getLast?_cons, h]
        rfl
      refine ⟨hallows, ?_⟩
      rw [Conduct.then_ok, Option.isSome_none, if_neg Bool.false_ne_true]
      split
      · exact ⟨hphase, hcall' hcall⟩
      · rename_i other hnetwork
        refine .bind (obeys_loginIsLocked fun value => ?_)
        cases value with
        | some value =>
            obtain ⟨hallows', hphase'⟩ := out_of_mute mute_got_some hphase
            exact ⟨hallows', Or.inr hphase'⟩
        | none =>
            by_cases heq : other = address
            · subst heq
              obtain ⟨hallows', hphase'⟩ := allows_pass (Or.inr hphase)
              exact ⟨hallows', hphase', hcall' (hcall' hcall)⟩
            · have hmute : (loginGuard env address).Mute (.got (.loginLock other) none) :=
                mute_got fun hkey => heq (CacheKey.loginLock.inj hkey)
              obtain ⟨hallows', hphase'⟩ := out_of_mute hmute hphase
              exact ⟨hallows', hphase', hcall' (hcall' hcall)⟩

/-- A lock is set by a call that owes one or none. -/
theorem obeys_lockLogin {subject : String} {after : List Event → Except AuthError Unit → Prop}
    (h : (loginGuard env address).phase t = .out ∨
      subject = address ∧ (loginGuard env address).phase t = .owing)
    (hafter : ∀ t', (loginGuard env address).phase t' = .out → after t' (.ok ())) :
    (conduct (loginGuard env address).Allows).Obeys i after t (Redis.lockLogin subject) := by
  by_cases heq : subject = address
  · subst heq
    have hput := @allows_put (loginGuard env subject) t () (h.symm.imp And.right id)
    exact obeys_set ⟨hput.1, hafter _ hput.2⟩
  · have hmute : (loginGuard env address).Mute
        (.put (.loginLock subject) () loginLockTtlSeconds) :=
      mute_put (fun hkey => heq (CacheKey.loginLock.inj hkey)) fun hkey => nomatch hkey
    have hout : (loginGuard env address).phase t = .out := by
      rcases h with hout | ⟨hsame, _⟩
      · exact hout
      · exact absurd hsame heq
    exact obeys_set ⟨hmute.allows, hafter _ (hmute.phase.trans hout)⟩

/-- A failure is counted, and the fifth one sets the lock. -/
theorem obeys_recordPasswordFailure {identity : Option LoginIdentity}
    (h : (loginGuard env address).phase t = .checking ∨
      (loginGuard env address).phase t = .guessed) :
    (conduct (loginGuard env address).Allows).Obeys i
      (fun t' _ => (loginGuard env address).phase t' = .out) t
      (LoginControl.recordPasswordFailure address ip identity) := by
  unfold LoginControl.recordPasswordFailure
  generalize LoginControl.network ip = found
  refine .bind (obeys_count fun n => ?_)
  obtain ⟨hallows, hphase⟩ := allows_count (n := n) h
  refine ⟨hallows, ?_⟩
  have haudit : ∀ t', (loginGuard env address).phase t' = .out →
      (conduct (loginGuard env address).Allows).Obeys i
        (fun t' _ => (loginGuard env address).phase t' = .out) t'
        (LoginRepository.audit "PASSWORD_LOGIN_FAILED" "failure" (identity.map (·.userId))) :=
    fun t' hout => (rests_audit (fun _ => mute_quiet (fun _ => rfl) rfl) t').mono
      fun _ _ hsame => hsame.trans hout
  rcases found with _ | other
  · change (conduct _).Obeys _ _ _ (ite (LoginControl.passwordAttemptLimit ≤ n) _ _)
    split
    · rename_i hlast
      exact .bind (obeys_lockLogin (Or.inr ⟨rfl, hphase.trans (if_pos hlast)⟩) haudit)
    · rename_i hless
      exact haudit _ (hphase.trans (if_neg hless))
  · have hother : ∀ t' m, (loginGuard env address).phase t' = .out →
        (conduct (loginGuard env address).Allows).Obeys i
          (fun t' _ => (loginGuard env address).phase t' = .out) t'
          (if LoginControl.passwordAttemptLimit ≤ m then do
            Redis.lockLogin other
            LoginRepository.audit "PASSWORD_LOGIN_FAILED" "failure" (identity.map (·.userId))
          else LoginRepository.audit "PASSWORD_LOGIN_FAILED" "failure"
            (identity.map (·.userId))) := by
      intro t' m hout
      split
      · exact .bind (obeys_lockLogin (Or.inl hout) haudit)
      · exact haudit _ hout
    refine .bind (obeys_count fun m => ?_)
    have hmute : (loginGuard env address).Mute
        (.counted "login_password_ip" (.text other) LoginControl.passwordAttemptWindow m) :=
      mute_counted (fun heq => nomatch heq) fun heq => by
        have hroute : "login_password_ip" = "login_password" := (CacheKey.rateLimit.inj heq).1
        exact absurd hroute (by decide)
    refine ⟨hmute.allows, ?_⟩
    change (conduct _).Obeys _ _ _ (ite (LoginControl.passwordAttemptLimit ≤ n) _ _)
    split
    · rename_i hlast
      have howing := hmute.phase.trans (hphase.trans (if_pos hlast))
      exact .bind (obeys_lockLogin (Or.inr ⟨rfl, howing⟩) fun t' hout => hother t' m hout)
    · rename_i hless
      exact hother _ m (hmute.phase.trans (hphase.trans (if_neg hless)))

/-- The comparison of a password with the identity of the address. -/
theorem identity_guess (answer : Option LoginIdentity)
    (hcall : t.getLast? = some (.called (.loginPassword email password fingerprint ip))) :
    (loginGuard env address).kind t (.login (.identity .password address answer)) =
      .guess (env.passwordVerify
        ((answer.bind (·.passwordHash)).getD env.dummyPasswordHash) password) := by
  have hguess : (loginGuard env address).guess
      (.login (.identity .password address answer) :: t) = some (env.passwordVerify
        ((answer.bind (·.passwordHash)).getD env.dummyPasswordHash) password) := by
    unfold loginGuard passwordGuess
    dsimp only
    rw [hcall]
    exact if_pos rfl
  rw [Guard.kind_login, hguess]

/-- A call of `login_password` keeps the order of its steps. -/
theorem obeys_loginPassword (haddress : env.normalizeEmail email = address) :
    (conduct (loginGuard env address).Allows).Obeys i
      ((conduct (loginGuard env address).Allows).Ends .returned)
      [.called (.loginPassword email password fingerprint ip)]
      (LoginControl.loginPassword env i email password fingerprint ip) := by
  subst haddress
  unfold LoginControl.loginPassword
  refine Conduct.Obeys.bind ((obeys_checkLoginLock rfl rfl).mono fun t locked h => ?_)
  match locked, h with
  | .error _, h => exact ends_returned h _
  | .ok (), ⟨hphase, hcall⟩ =>
      refine Conduct.Obeys.bind (obeys_look (fun _ _ => ⟨rfl, fun _ => trivial⟩) fun answer => ?_)
      obtain ⟨hallows, hphase'⟩ := allows_guess (identity_guess answer hcall) hphase rfl
      refine ⟨hallows, ?_⟩
      have hfailed : ∀ identity,
          (conduct (loginGuard env (env.normalizeEmail email)).Allows).Obeys i
          ((conduct (loginGuard env (env.normalizeEmail email)).Allows).Ends Event.returned)
          (.login (.identity .password (env.normalizeEmail email) answer) :: t) (do
            LoginControl.recordPasswordFailure (env.normalizeEmail email) ip identity
            fail LoginControl.invalidCredentials) := by
        intro identity
        refine .bind ((obeys_recordPasswordFailure ?_).mono fun t' result hout => ?_)
        · rw [hphase']
          split
          · exact Or.inl rfl
          · exact Or.inr rfl
        · cases result with
          | ok _ => exact ends_returned (Or.inl hout) _
          | error _ => exact ends_returned (Or.inl hout) _
      cases answer with
      | none => exact hfailed none
      | some row =>
          change (conduct _).Obeys _ _ _ (ite _ _ _)
          split
          · exact hfailed (some row)
          · rename_i hvalid
            have hright : env.passwordVerify (((some row).bind (·.passwordHash)).getD
                env.dummyPasswordHash) password = true := by
              simp only [Bool.or_eq_true, not_or, Bool.not_eq_true] at hvalid
              simpa using hvalid.1.1
            rw [hright] at hphase'
            obtain ⟨hallows', hout⟩ := allows_removed hphase' rfl
            refine Conduct.Obeys.bind (obeys_delete ⟨hallows', ?_⟩)
            have hdecision : ∀ t', (loginGuard env (env.normalizeEmail email)).phase t' = .out →
                (conduct (loginGuard env (env.normalizeEmail email)).Allows).Obeys i
                  ((conduct (loginGuard env (env.normalizeEmail email)).Allows).Ends Event.returned)
                  t' (LoginControl.primaryDecision env i row.userId fingerprint ip "password") :=
              fun t' hout => (rests_primaryDecision _ _ t').mono
                fun _ result hsame => ends_returned (Or.inl (hsame.trans hout)) result
            change (conduct _).Obeys _ _ _ (ite _ _ _)
            split
            · refine .bind ((rests_updatePasswordHash _ _ _).mono fun t' result hsame => ?_)
              cases result with
              | ok _ => exact hdecision t' (hsame.trans hout)
              | error _ => exact ends_returned (Or.inl (hsame.trans hout)) _
            · exact hdecision _ hout

/-- The calls of `login_password` keep the order that the lock of the address asks for. -/
theorem governs_passwordLogins (env : Env) (address : String) :
    (conduct (loginGuard env address).Allows).Governs (passwordLogins env address) .returned := by
  refine ⟨?_, fun i result d w => ⟨rfl, trivial⟩, fun _ _ => rfl⟩
  rintro i ⟨_, email, password, fingerprint, ip, haddress, rfl⟩
  have hcalled : (loginGuard env address).Allows []
        (.called (.loginPassword email password fingerprint ip)) ∧
      (loginGuard env address).phase [.called (.loginPassword email password fingerprint ip)] =
        .out :=
    allows_other rfl rfl rfl
  exact ⟨.called (.loginPassword email password fingerprint ip), hcalled.1,
    fun _ _ => ⟨rfl, trivial⟩, obeys_loginPassword haddress⟩

end Calls

/-- Calls of `login_password` for one address that pass the check of its lock only while the
failures of the window and the calls between their check and their count are below the limit.
In the window nobody clears the counter: no login succeeds. -/
theorem wrong_passwords_bounded {env : Env} {address : String} {c : Core Db World}
    (hlog : c.store.log = []) {r s : Config schema World AuthError Result}
    (hbefore : Guarded (passwordLogins env address) (loginGuard env address).Careful
      (Service.start c) r)
    {m : Move (passwordLogins env address)} (hexec : (passwordLogins env address).exec r m = some s)
    {i n : Nat} (hcount : s.core.store.log =
      (i, .counted "login_password" (.text address) 60 n) :: r.core.store.log) :
    (r.core.store.cache.get r.core.store.now (.rateLimit "login_password" (.text address)) = none →
      ∀ s', Guarded (passwordLogins env address) (fun c c' =>
          (loginGuard env address).Careful c c' ∧ (loginGuard env address).Keeps c c') s s' →
        s'.core.store.now < s.core.store.now + seconds 60 →
        (loginGuard env address).wrongGuesses s'.core.store.log +
            (loginGuard env address).uncounted r.core.store.log ≤
          (loginGuard env address).wrongGuesses r.core.store.log + 5) ∧
    (5 ≤ n → ∀ s', Guarded (passwordLogins env address) (loginGuard env address).Careful s s' →
      (loginGuard env address).guesses s'.core.store.log =
          (loginGuard env address).guesses s.core.store.log ∨
        ∃ x y j value ttl, Guarded (passwordLogins env address) (fun _ _ => True) s x ∧
          y.core.store.log = (j, .put (.loginLock address) value ttl) :: x.core.store.log ∧
          Guarded (passwordLogins env address) (fun _ _ => True) y s' ∧
          y.core.store.now + seconds 900 ≤ s'.core.store.now) := by
  obtain ⟨hwindow, hlock⟩ := (loginGuard env address).bounds (governs_passwordLogins env address)
    rfl hlog hbefore hexec hcount
  exact ⟨fun hnone s' hrun =>
    hwindow hnone s' (hrun.mono fun _ _ h => ⟨h.1, fun _ => h.2⟩), hlock⟩

/-- Call `i` presents a wrong password for Ann's address and runs for `n` steps. -/
def guessPassword (i n : Nat) : List (Move (passwordLogins sampleEnv "ann")) :=
  .call i ⟨.loginPassword "ann" "guess" "phone" none, _, _, _, _, rfl, rfl⟩ ::
    List.replicate n (.step i 0)

abbrev addressGuard : Guard :=
  loginGuard sampleEnv "ann"

/-- Five calls one after the other, up to each count of the first and the fifth failure. -/
theorem five_wrong_passwords :
    (∃ r s s', (passwordLogins sampleEnv "ann").exec r (.step 0 0) = some s ∧
      Guarded (passwordLogins sampleEnv "ann")
        (fun c c' => addressGuard.Careful c c' ∧ addressGuard.Keeps c c') s s' ∧
      addressGuard.wrongGuesses s'.core.store.log + addressGuard.uncounted r.core.store.log ≤
        addressGuard.wrongGuesses r.core.store.log + 5) ∧
    ∃ r s s', (passwordLogins sampleEnv "ann").exec r (.step 4 0) = some s ∧
      Guarded (passwordLogins sampleEnv "ann") addressGuard.Careful s s' ∧
      addressGuard.guesses s'.core.store.log = addressGuard.guesses s.core.store.log := by
  have hopens : (chain (passwordLogins sampleEnv "ann")
      (fun c c' => addressGuard.careful c c' && addressGuard.keeps c c') sampleCore
      (guessPassword 0 2) (.step 0 0) (List.replicate 4 (.step 0 0) ++ guessPassword 1 7 ++
        guessPassword 2 7 ++ guessPassword 3 7 ++ guessPassword 4 7)).map (fun run =>
        (addressGuard.lastCount run.2.1.core.store.log,
          decide (run.2.1.core.store.log.length = run.1.core.store.log.length + 1),
          (run.1.core.store.cache.get run.1.core.store.now addressGuard.counter).isNone,
          decide (run.2.2.core.store.now < run.2.1.core.store.now + seconds 60))) =
        some (some (0, 1), true, true, true) := by
    decide +kernel
  have hlasts : (chain (passwordLogins sampleEnv "ann") addressGuard.careful sampleCore
      (guessPassword 0 7 ++ guessPassword 1 7 ++ guessPassword 2 7 ++ guessPassword 3 7 ++
        guessPassword 4 2)
      (.step 4 0) (.step 4 0 :: guessPassword 5 2)).map (fun run =>
        (addressGuard.lastCount run.2.1.core.store.log,
          decide (run.2.1.core.store.log.length = run.1.core.store.log.length + 1),
          run.2.2.core.store.now)) =
        some (some (4, 5), true, 1000000) := by
    decide +kernel
  have hgoverns := governs_passwordLogins sampleEnv "ann"
  constructor
  · obtain ⟨r, s, s', hbefore, hexec, hrun, hfacts⟩ := of_chain hopens fun c c' hcheck =>
      And.intro (careful_of_check (Bool.and_eq_true_iff.mp hcheck).1)
        (keeps_of_check (Bool.and_eq_true_iff.mp hcheck).2)
    obtain ⟨hcount, hfacts⟩ := Prod.mk.inj hfacts
    obtain ⟨hnew, hfacts⟩ := Prod.mk.inj hfacts
    obtain ⟨hnone, hwithin⟩ := Prod.mk.inj hfacts
    have hcareful := hbefore.mono fun _ _ h => h.1
    have horderly := hcareful.orderly hgoverns (Conduct.orderly_start rfl)
    have hlog := log_of_lastCount hgoverns horderly hexec hcount (of_decide_eq_true hnew)
    refine ⟨r, s, s', hexec, hrun, ?_⟩
    exact (wrong_passwords_bounded rfl hcareful hexec hlog).1 (Option.isNone_iff_eq_none.mp hnone)
      s' hrun (of_decide_eq_true hwithin)
  · obtain ⟨r, s, s', hbefore, hexec, hrun, hfacts⟩ := of_chain hlasts fun _ _ => careful_of_check
    obtain ⟨hcount, hfacts⟩ := Prod.mk.inj hfacts
    obtain ⟨hnew, hnow⟩ := Prod.mk.inj hfacts
    have horderly := hbefore.orderly hgoverns (Conduct.orderly_start rfl)
    have hlog := log_of_lastCount hgoverns horderly hexec hcount (of_decide_eq_true hnew)
    refine ⟨r, s, s', hexec, hrun, ?_⟩
    rcases (wrong_passwords_bounded rfl hbefore hexec hlog).2 (Nat.le_refl 5) s' hrun with
      hsame | ⟨_, _, _, _, _, _, _, _, hexpired⟩
    · exact hsame
    · have hnow' : s'.core.store.now = 1000000 := hnow
      rw [hnow'] at hexpired
      exact absurd (Nat.le_trans (Nat.le_add_left _ _) hexpired) (by decide)

/-- Seven calls pass the check of the lock before any of them counts its failure.  After the first
failure has opened the window six more wrong passwords are compared, two of them after the fifth
failure; no login succeeds and no time passes. -/
theorem wrong_passwords_past_the_lock : ∃ r s s' s'',
    Guarded (passwordLogins sampleEnv "ann") addressGuard.Keeps (Service.start sampleCore) r ∧
    (passwordLogins sampleEnv "ann").exec r (.step 0 0) = some s ∧
    Guarded (passwordLogins sampleEnv "ann") addressGuard.Keeps s s' ∧
    Guarded (passwordLogins sampleEnv "ann") addressGuard.Keeps s' s'' ∧
    r.core.store.cache.get r.core.store.now (.rateLimit "login_password" (.text "ann")) = none ∧
    addressGuard.lastCount s.core.store.log = some (0, 1) ∧
    addressGuard.lastCount s'.core.store.log = some (4, 5) ∧
    s''.core.store.now = r.core.store.now ∧
    addressGuard.wrongGuesses s''.core.store.log =
      addressGuard.wrongGuesses s.core.store.log + 6 ∧
    addressGuard.guesses s''.core.store.log = addressGuard.guesses s'.core.store.log + 2 := by
  have hrun : ((chain (passwordLogins sampleEnv "ann") addressGuard.keeps sampleCore
      (guessPassword 0 2 ++ guessPassword 1 1 ++ guessPassword 2 1 ++ guessPassword 3 1 ++
        guessPassword 4 1 ++ guessPassword 5 1 ++ guessPassword 6 1)
      (.step 0 0) [.step 1 0, .step 1 0, .step 2 0, .step 2 0, .step 3 0, .step 3 0, .step 4 0,
        .step 4 0]).bind fun run =>
        (guardedRun (passwordLogins sampleEnv "ann") addressGuard.keeps run.2.2
          [.step 4 0, .step 5 0, .step 6 0]).map fun last =>
        ((run.1.core.store.cache.get run.1.core.store.now addressGuard.counter).isNone,
          addressGuard.lastCount run.2.1.core.store.log,
          addressGuard.lastCount run.2.2.core.store.log,
          decide (last.core.store.now = run.1.core.store.now ∧
            addressGuard.wrongGuesses last.core.store.log =
              addressGuard.wrongGuesses run.2.1.core.store.log + 6 ∧
            addressGuard.guesses last.core.store.log =
              addressGuard.guesses run.2.2.core.store.log + 2))) =
      some (true, some (0, 1), some (4, 5), true) := by
    decide +kernel
  obtain ⟨⟨r, s, s'⟩, hchain, hlast⟩ := Option.bind_eq_some_iff.mp hrun
  obtain ⟨s'', hlast, hfacts⟩ := Option.map_eq_some_iff.mp hlast
  obtain ⟨hbefore, hexec, hmiddle⟩ := of_chain_eq hchain fun _ _ => keeps_of_check
  obtain ⟨hnone, hfacts⟩ := Prod.mk.inj hfacts
  obtain ⟨hfirst, hfacts⟩ := Prod.mk.inj hfacts
  obtain ⟨hfifth, hfacts⟩ := Prod.mk.inj hfacts
  exact ⟨r, s, s', s'', hbefore, hexec, hmiddle, guarded_of_run hlast fun _ _ => keeps_of_check,
    Option.isNone_iff_eq_none.mp hnone, hfirst, hfifth, of_decide_eq_true hfacts⟩

end AuthCore
