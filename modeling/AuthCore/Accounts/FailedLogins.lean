/-
Password logins as somebody without an account sees them: what a refused login
answers, counts and locks depends on the security store and the clock alone.
-/
import AuthCore.History.Alone
import AuthCore.Accounts.TwoRuns
import AuthCore.Model.Sample

namespace AuthCore

open Interleave

variable {i me : Nat} {providers : Providers}

namespace LoginControl

theorem alike_checkLoginLock (email : String) (ip : Option String) :
    Alike i providers (checkLoginLock email ip) (checkLoginLock email ip) := by
  unfold checkLoginLock
  refine Prog.Alike.bind alike_isSome fun locked => ?_
  cases locked with
  | true => exact Prog.alike_raise _
  | false =>
      cases network ip with
      | none => exact Prog.alike_pure _
      | some address =>
          refine Prog.Alike.bind alike_isSome fun locked => ?_
          cases locked with
          | true => exact Prog.alike_raise _
          | false => exact Prog.alike_pure _

/-- A failure is counted the same whoever the address belongs to. -/
theorem alike_recordPasswordFailure (email : String) (ip : Option String)
    (identity identity' : Option LoginIdentity) :
    Alike i providers (recordPasswordFailure email ip identity)
      (recordPasswordFailure email ip identity') := by
  have haudit : Alike i providers
      (LoginRepository.audit "PASSWORD_LOGIN_FAILED" "failure" (identity.map (·.userId)))
      (LoginRepository.audit "PASSWORD_LOGIN_FAILED" "failure" (identity'.map (·.userId))) :=
    alike_audit _ _ _ _
  -- A lock that may be set before the rest of the call.
  have hlock : ∀ (locks : Prop) [Decidable locks] (subject : String) (p q : Proc Unit),
      Alike i providers p q →
      Alike i providers (if locks then Redis.lockLogin subject >>= fun _ => p else p)
        (if locks then Redis.lockLogin subject >>= fun _ => q else q) := by
    intro locks _ subject p q hrest
    split
    · exact (alike_set _ _ _).bind fun _ => hrest
    · exact hrest
  unfold recordPasswordFailure
  refine (alike_count _ _ _).bind fun emailCount => ?_
  cases network ip with
  | none => exact hlock _ _ _ _ haudit
  | some address =>
      refine (alike_count _ _ _).bind fun ipCount => ?_
      exact hlock _ _ _ _ (hlock _ _ _ _ haudit)

/-- The identity does not log in with this password. -/
def refused (env : Env) (password : String) : Option LoginIdentity → Bool
  | none => true
  | some row => !env.passwordVerify (row.passwordHash.getD env.dummyPasswordHash) password ||
      !row.verified || row.state != .active

def refuse (email : String) (ip : Option String) (identity : Option LoginIdentity) :
    Proc Result := do
  recordPasswordFailure email ip identity
  fail invalidCredentials

def proceed (env : Env) (me : Nat) (email password fingerprint : String) (ip : Option String)
    (row : LoginIdentity) : Proc Result := do
  Redis.resetRateLimit "login_password" (.text email)
  if env.passwordNeedsRehash (row.passwordHash.getD env.dummyPasswordHash) then
    LoginRepository.updatePasswordHash row.userId (env.passwordHash password (.drawn me 2))
  primaryDecision env me row.userId fingerprint ip "password"

/-- A login once the identity has been looked up. -/
def judge (env : Env) (me : Nat) (email password fingerprint : String) (ip : Option String)
    (identity : Option LoginIdentity) : Proc Result :=
  if refused env password identity then
    refuse email ip identity
  else
    match identity with
    | none => refuse email ip identity
    | some row => proceed env me email password fingerprint ip row

theorem loginPassword_eq (env : Env) (me : Nat) (email password fingerprint : String)
    (ip : Option String) :
    loginPassword env me email password fingerprint ip =
      checkLoginLock (env.normalizeEmail email) ip >>= fun _ =>
        look (LoginRepository.identity .password (env.normalizeEmail email)) (fun answer =>
          .login (.identity .password (env.normalizeEmail email) answer)) >>=
        judge env me (env.normalizeEmail email) password fingerprint ip := by
  unfold loginPassword
  refine congrArg (Bind.bind (checkLoginLock (env.normalizeEmail email) ip)) (funext fun _ => ?_)
  refine congrArg (Bind.bind (look _ _)) (funext fun identity => ?_)
  cases identity with
  | none => rfl
  | some row =>
      have hsame : (decide ¬env.passwordVerify (row.passwordHash.getD env.dummyPasswordHash)
          password || decide ¬row.verified || decide (row.state ≠ .active)) =
            refused env password (some row) := by
        simp [refused, bne, decide_not, BEq.beq]
      change (if _ then _ else _) = judge env me _ password fingerprint ip (some row)
      unfold judge
      rw [← hsame]
      rfl

theorem succeeds_updatePasswordHash (user : Uuid) (hash : String) (c : Core Db World) :
    Succeeds i providers (LoginRepository.updatePasswordHash user hash) c := by
  have hstore : ∀ found, ∃ change,
      (LoginRepository.storePasswordHash user hash found).alone c.db id = .ok ((), change) := by
    intro found
    cases found with
    | none => exact ⟨_, rfl⟩
    | some id =>
        rw [storePasswordHash_alone]
        cases c.db.identities.get id with
        | none => exact ⟨_, rfl⟩
        | some row =>
            dsimp only
            split
            · exact ⟨_, rfl⟩
            · exact ⟨_, rfl⟩
  obtain ⟨change, hchange⟩ := hstore (LoginRepository.passwordIdentity user c.db)
  exact Prog.ends_txn (Tx.alone_bind_ok (f := fun _ => Tx.ret _) hchange) fun d =>
    Prog.ends_pure ⟨(), rfl⟩

/-- The device that a look-up finds is there, and one that it does not find can
be added. -/
theorem alone_noteDevice (args : SignalArgs) (d : Db) :
    ∃ signals change, (LoginRepository.noteDevice args
      (LoginRepository.findDevice args.userId args.fingerprintHash d)).alone d id =
        .ok (signals, change) := by
  cases hfind : LoginRepository.findDevice args.userId args.fingerprintHash d with
  | none =>
      have hnone : IndexKey.entries d (.device args.userId args.fingerprintHash) = [] := by
        simpa [LoginRepository.findDevice, IndexKey.entries] using hfind
      exact ⟨_, _, Tx.alone_bind_ok (alone_reserve_of_free hnone [] id)⟩
  | some id =>
      obtain ⟨⟨k, row⟩, hmem, hk⟩ := List.mem_map.mp (List.mem_of_head? hfind)
      obtain rfl : k = id := hk
      obtain ⟨hget, hrow⟩ := Relational.Table.mem_select.mp hmem
      rw [noteDevice_alone, hget]
      dsimp only
      rw [if_pos hrow]
      exact ⟨_, _, rfl⟩

theorem succeeds_deviceSignals (args : SignalArgs) (c : Core Db World) :
    Succeeds i providers (LoginRepository.deviceSignals args) c := by
  obtain ⟨signals, change, hnote⟩ := alone_noteDevice args c.db
  exact Prog.ends_txn (Tx.alone_bind_ok (f := fun signals => Tx.ret
    (LoginRepository.findDevice args.userId args.fingerprintHash c.db, signals)) hnote) fun d =>
      Prog.ends_pure ⟨_, rfl⟩

theorem succeeds_primaryDecision (env : Env) (user : Uuid) (fingerprint : String)
    (ip : Option String) (method : String) (c : Core Db World) :
    Succeeds i providers (primaryDecision env me user fingerprint ip method) c := by
  refine (succeeds_step (fun _ _ => rfl) c).bind fun now d => ?_
  refine (succeeds_deviceSignals _ d).bind fun signals d => ?_
  have hmethods : Succeeds i providers (LoginRepository.fallbackMethods user) d := by
    refine (succeeds_step (fun _ _ => rfl) d).bind fun identities d => ?_
    exact (succeeds_step (fun _ _ => rfl) d).bind fun factors d => Prog.ends_pure ⟨_, rfl⟩
  refine hmethods.bind fun methods d => ?_
  refine (succeeds_set _ _ _ d).bind fun _ d => ?_
  exact (succeeds_loginAudit _ _ _ d).bind fun _ d => Prog.ends_pure ⟨_, rfl⟩

/-- A login that is not refused is answered with a decision. -/
theorem succeeds_proceed (env : Env) (email password fingerprint : String)
    (ip : Option String) (row : LoginIdentity) (c : Core Db World) :
    Succeeds i providers (proceed env me email password fingerprint ip row) c := by
  refine (succeeds_delete _ c).bind fun _ d => ?_
  dsimp only
  split
  · refine (succeeds_updatePasswordHash _ _ d).bind fun _ d => ?_
    exact succeeds_primaryDecision env _ _ _ _ d
  · exact succeeds_primaryDecision env _ _ _ _ d

/-- The two outcomes of a login once the identity has been looked up. -/
theorem judge_cases (i me : Nat) (providers : Providers) (env : Env)
    (email password fingerprint : String) (ip : Option String) (identity : Option LoginIdentity) (c : Core Db World) :
    judge env me email password fingerprint ip identity = refuse email ip identity ∨
      Succeeds i providers (judge env me email password fingerprint ip identity) c := by
  unfold judge
  split
  · exact Or.inl rfl
  · cases identity with
    | none => exact Or.inl rfl
    | some row => exact Or.inr (succeeds_proceed env email password fingerprint ip row c)

theorem alike_refuse (email : String) (ip : Option String)
    (identity identity' : Option LoginIdentity) :
    Alike i providers (refuse email ip identity) (refuse email ip identity') :=
  (alike_recordPasswordFailure email ip identity identity').bind fun _ => Prog.alike_raise _

/-- Two logins that are both refused answer alike. -/
theorem judge_alike (env : Env) (email password fingerprint : String) (ip : Option String)
    (identity identity' : Option LoginIdentity) {c c' : Core Db World} (h : SameStore c c') :
    ∃ r d r' d',
      (judge env me email password fingerprint ip identity).solo i providers.allow c =
        some (r, d) ∧
      (judge env me email password fingerprint ip identity').solo i providers.allow c' =
        some (r', d') ∧
      (r.isOk = false → r'.isOk = false → r = r' ∧ SameStore d d') := by
  have hrefused : Alike i providers _ _ := alike_refuse email ip identity identity'
  obtain ⟨r, d, d', hsolo, hsolo', hd⟩ := hrefused c c' h
  rcases judge_cases i me providers env email password fingerprint
    ip identity c with hrefuse | ⟨_, e, hok, a, rfl⟩
  · rcases judge_cases i me providers env email password
      fingerprint ip identity' c' with hrefuse' | ⟨_, e', hok', a', rfl⟩
    · rw [hrefuse, hrefuse']
      exact ⟨r, d, r, d', hsolo, hsolo', fun _ _ => ⟨rfl, hd⟩⟩
    · rw [hrefuse]
      exact ⟨r, d, _, e', hsolo, hok', fun _ herror => by cases herror⟩
  · rcases judge_cases i me providers env email password
      fingerprint ip identity' c' with hrefuse' | ⟨_, e', hok', a', rfl⟩
    · rw [hrefuse']
      exact ⟨_, e, r, d', hok, hsolo', fun herror => by cases herror⟩
    · exact ⟨_, e, _, e', hok, hok', fun herror => by cases herror⟩

theorem loginPassword_alike (i me : Nat) (providers : Providers) (env : Env) (email password fingerprint : String)
    (ip : Option String) {c c' : Core Db World} (h : SameStore c c') :
    ∃ r d r' d',
      (loginPassword env me email password fingerprint ip).solo i providers.allow c =
        some (r, d) ∧
      (loginPassword env me email password fingerprint ip).solo i providers.allow c' =
        some (r', d') ∧
      (r.isOk = false → r'.isOk = false → r = r' ∧ SameStore d d') := by
  have hchecked : Alike i providers _ _ := alike_checkLoginLock (env.normalizeEmail email) ip
  obtain ⟨r, d, d', hsolo, hsolo', hd⟩ := hchecked c c' h
  simp only [loginPassword_eq, Prog.solo_bind, hsolo, hsolo', Option.bind_some]
  cases r with
  | error e => exact ⟨_, d, _, d', rfl, rfl, fun _ _ => ⟨rfl, hd⟩⟩
  | ok _ =>
      dsimp only
      rw [← Prog.solo_bind, ← Prog.solo_bind, look, solo_step (fun _ _ => rfl),
        solo_step (fun _ _ => rfl)]
      exact judge_alike env _ _ _ _ _ _ ⟨hd.cache, hd.now⟩

end LoginControl

/-- A password login and how long it comes after the one before it. -/
structure Attempt where
  wait : Nat
  email : String
  password : String
  fingerprint : String
  ip : Option String

/-- Password logins one after the other: each answer with the state after it. -/
def attempts (env : Env) (providers : Providers) :
    Nat → List Attempt → Core Db World → List (Except AuthError Result × Core Db World)
  | _, [], _ => []
  | i, a :: rest, c =>
      match (application env).solo providers.allow i
          (.loginPassword a.email a.password a.fingerprint a.ip)
          ⟨c.db, (application env).tick a.wait c.store⟩ with
      | none => []
      | some result => result :: attempts env providers (i + 1) rest result.2

/-- What somebody who made the attempts and looks at the store afterwards sees. -/
def observed (result : Except AuthError Result × Core Db World) :
    Except AuthError Result × Cache :=
  (result.1, result.2.store.cache)

theorem application_alike (env : Env) (providers : Providers) (i : Nat) (a : Attempt) {c c' : Core Db World}
    (h : SameStore c c') :
    ∃ r d r' d',
      (application env).solo providers.allow i
        (.loginPassword a.email a.password a.fingerprint a.ip)
        ⟨c.db, (application env).tick a.wait c.store⟩ = some (r, d) ∧
      (application env).solo providers.allow i
        (.loginPassword a.email a.password a.fingerprint a.ip)
        ⟨c'.db, (application env).tick a.wait c'.store⟩ = some (r', d') ∧
      (r.isOk = false → r'.isOk = false → r = r' ∧ SameStore d d') := by
  have hstart : SameStore
      ⟨c.db, (application env).onCall i (.loginPassword a.email a.password a.fingerprint a.ip)
        ((application env).tick a.wait c.store)⟩
      ⟨c'.db, (application env).onCall i (.loginPassword a.email a.password a.fingerprint a.ip)
        ((application env).tick a.wait c'.store)⟩ :=
    ⟨h.cache, congrArg (· + a.wait) h.now⟩
  obtain ⟨r, d, r', d', hsolo, hsolo', hsame⟩ := LoginControl.loginPassword_alike i i
    providers env a.email a.password a.fingerprint a.ip hstart
  refine ⟨r, _, r', _, congrArg (Option.map _) hsolo, congrArg (Option.map _) hsolo', ?_⟩
  intro herror herror'
  obtain ⟨rfl, hd⟩ := hsame herror herror'
  exact ⟨rfl, hd.cache, hd.now⟩

/-- Logins that all fail look the same whatever the database holds. -/
theorem failed_logins_alike (env : Env) (providers : Providers) (i : Nat)
    (tries : List Attempt) (c c' : Core Db World) (hstore : SameStore c c')
    (hfail : ∀ result ∈ attempts env providers i tries c, result.1.isOk = false)
    (hfail' : ∀ result ∈ attempts env providers i tries c', result.1.isOk = false) :
    (attempts env providers i tries c).length = tries.length ∧
      (attempts env providers i tries c).map observed =
        (attempts env providers i tries c').map observed := by
  induction tries generalizing i c c' with
  | nil => exact ⟨rfl, rfl⟩
  | cons a rest ih =>
      obtain ⟨r, d, r', d', hsolo, hsolo', hsame⟩ := application_alike env providers i
        a hstore
      simp only [attempts, hsolo, hsolo', List.mem_cons, forall_eq_or_imp] at hfail hfail' ⊢
      obtain ⟨rfl, hd⟩ := hsame hfail.1 hfail'.1
      obtain ⟨hlength, hrest⟩ := ih (i + 1) d d' hd hfail.2 hfail'.2
      constructor
      · simp [hlength]
      · simp [hrest, observed, hd.cache]

/-- Guesses at the password of one address until it is locked. -/
def sampleGuesses : List Attempt :=
  List.replicate 6 ⟨1000000, "ann", "guess", "phone", some "net"⟩

theorem failed_logins_alike_guesses :
    (attempts sampleEnv ⟨some true, some false, true⟩ 0 sampleGuesses sampleCore).length =
        sampleGuesses.length ∧
      (attempts sampleEnv ⟨some true, some false, true⟩ 0 sampleGuesses sampleCore).map observed =
        (attempts sampleEnv ⟨some true, some false, true⟩ 0 sampleGuesses
          (sampleStart (sampleDb []))).map observed :=
  failed_logins_alike sampleEnv ⟨some true, some false, true⟩ 0 sampleGuesses sampleCore
    (sampleStart (sampleDb [])) ⟨rfl, rfl⟩ (by decide +kernel) (by decide +kernel)

end AuthCore
