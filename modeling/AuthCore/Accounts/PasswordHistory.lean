/-
Passwords that have been used before.  A reset compares the new password with
the last five that are remembered, but it remembers four: the fifth last one is
forgotten when the current one is set.
-/
import AuthCore.Accounts.InTurn
import AuthCore.Accounts.PublicRequests
import AuthCore.History.Ordered
import AuthCore.History.Recoveries

namespace AuthCore

open Interleave Relational RecoveryRepository

/-- The hasher accepts the password it has hashed and no other. -/
def HasherCorrect (env : Env) : Prop :=
  ∀ password salt candidate,
    env.passwordVerify (env.passwordHash password salt) candidate = true ↔ candidate = password

/-- The identity whose password a link with this digest resets. -/
def resetTarget (hash : Digest) (d : Db) : Option Uuid :=
  (RegistrationRepository.findMailed hash resetPurposes d).bind fun id =>
    (d.ephemeral.get id).bind fun token => (d.userView token.userId).passwords.head?

/-- `sets` are the passwords set for the identity so far, the last one first, each
with its time: by its registration and by every reset.  What else happens leaves
its history alone. -/
inductive PasswordsSet (env : Env) (identity : Uuid) :
    List (Time × String) → Core Db World → Prop
  | registered {args : EmailArgs} {p : String} {s : Token} {i : Nat}
      {pass : World → Bool} {c c' : Core Db World} :
      identity = .drawn args.call 2 →
      args.passwordHash = env.passwordHash p s →
      (c.db.identityView identity).history = [] →
      c.db.history.get (.drawn args.call 3) = none →
      (RegistrationRepository.createEmailRegistration args).solo i pass c =
        some (.ok (.ok ()), c') →
      PasswordsSet env identity [(args.started, p)] c'
  | reset {args : ResetArgs} {s : Token} {i : Nat} {pass : World → Bool}
      {user : Option RecoveryUser} {sets : List (Time × String)} {c c' : Core Db World} :
      PasswordsSet env identity sets c →
      args.passwordHash = env.passwordHash args.password s →
      resetTarget args.tokenHash c.db = some identity →
      c.db.history.get args.historyId = none →
      (∀ entry ∈ sets, entry.1 < args.started) →
      (consumePasswordReset env args).solo i pass c = some (.ok (.updated, user), c') →
      PasswordsSet env identity ((args.started, args.password) :: sets) c'
  | other {sets : List (Time × String)} {c c' : Core Db World} :
      PasswordsSet env identity sets c →
      (c'.db.identityView identity).history = (c.db.identityView identity).history →
      PasswordsSet env identity sets c'

/-- A row of the history stands for a password that has been set. -/
def Remembers (env : Env) (row : Uuid × PasswordHistory) (entry : Time × String) : Prop :=
  row.2.createdAt = entry.1 ∧
    ∀ candidate, env.passwordVerify row.2.passwordHash candidate = true ↔ candidate = entry.2

/-- The history holds the last four passwords. -/
structure Kept (env : Env) (sets : List (Time × String)) (rows : List (Uuid × PasswordHistory)) :
    Prop where
  distinct : Distinct (fun row => row.2.createdAt) rows
  entries : List.Forall₂ (Remembers env) (latestFirst rows)
    (sets.take (passwordHistoryLimit - 1))

theorem mem_latestFirst {row : Uuid × PasswordHistory} {rows : List (Uuid × PasswordHistory)} :
    row ∈ latestFirst rows ↔ row ∈ rows := by
  rw [latestFirst, List.mem_reverse, mem_orderBy]

theorem Kept.time {env : Env} {sets : List (Time × String)}
    {rows : List (Uuid × PasswordHistory)} (h : Kept env sets rows)
    {row : Uuid × PasswordHistory} (hrow : row ∈ rows) :
    ∃ entry ∈ sets, row.2.createdAt = entry.1 := by
  obtain ⟨n, hn, hget⟩ := List.mem_iff_getElem.mp (mem_latestFirst.mpr hrow)
  have hlength := h.entries.length_eq
  have hentry := h.entries.get (i := n) (by omega) (by omega)
  simp only [List.get_eq_getElem, hget] at hentry
  exact ⟨_, List.mem_of_mem_take (List.getElem_mem _), hentry.1⟩

/-- The history after one more password. -/
theorem Kept.next {env : Env} {sets : List (Time × String)}
    {rows : List (Uuid × PasswordHistory)} (h : Kept env sets rows)
    {row : Uuid × PasswordHistory} {entry : Time × String} (hentry : Remembers env row entry)
    (hlast : ∀ older ∈ sets, older.1 < entry.1)
    (hkeys : ((row :: rows).map Prod.fst).Nodup) :
    Kept env (entry :: sets)
      ((row :: rows).filter fun kept => !(oldHistory (rows ++ [row])).contains kept.1) := by
  have hnewer : ∀ older ∈ rows, older.2.createdAt < row.2.createdAt := by
    intro older holder
    obtain ⟨set, hset, htime⟩ := h.time holder
    rw [htime, hentry.1]
    exact hlast set hset
  have hdistinct : Distinct (fun row => row.2.createdAt) (row :: rows) := by
    intro a ha b hb hab
    rcases List.mem_cons.mp ha with rfl | ha'
    · rcases List.mem_cons.mp hb with rfl | hb'
      · rfl
      · exact absurd hab (hnewer b hb').ne'
    · rcases List.mem_cons.mp hb with rfl | hb'
      · exact absurd hab (hnewer a ha').ne
      · exact h.distinct a ha' b hb' hab
  have hfirst : ∀ rows' : List (Uuid × PasswordHistory), rows'.Perm (row :: rows) →
      latestFirst rows' = row :: latestFirst rows := by
    intro rows' hperm
    rw [latestFirst, orderBy_of_last h.distinct hnewer hperm, List.reverse_append]
    rfl
  have hold : oldHistory (rows ++ [row]) =
      ((row :: latestFirst rows).drop (passwordHistoryLimit - 1)).map Prod.fst := by
    rw [oldHistory, hfirst _ List.perm_append_comm]
  have hnodup : ((row :: latestFirst rows).map Prod.fst).Nodup := by
    refine (List.Perm.nodup_iff (List.Perm.map _ ?_)).mp hkeys
    exact (((List.reverse_perm _).trans (perm_orderBy rows)).cons row).symm
  constructor
  · intro a ha b hb
    exact hdistinct a (List.mem_of_mem_filter ha) b (List.mem_of_mem_filter hb)
  · have hkept : latestFirst ((row :: rows).filter fun kept =>
        !(oldHistory (rows ++ [row])).contains kept.1) =
          (row :: latestFirst rows).take (passwordHistoryLimit - 1) := by
      rw [latestFirst, orderBy_filter hdistinct, ← List.filter_reverse]
      change (latestFirst (row :: rows)).filter _ = _
      rw [hfirst _ (.refl _), hold, filter_drop_keys hnodup]
    rw [hkept]
    have hall := List.forall₂_take (passwordHistoryLimit - 1) (.cons hentry h.entries)
    simpa [List.take_take, passwordHistoryLimit] using hall

section Resets

variable {env : Env} {identity : Uuid} {c c' : Core Db World} {i : Nat} {pass : World → Bool}

/-- A reset that got as far as the passwords of its identity. -/
theorem resetWith_judged {known : String → Bool} {args : ResetArgs} {d : Db}
    {outcome : PasswordResetOutcome} {user : Option RecoveryUser} {change : Db → Db}
    (h : (resetWith known args
      (RegistrationRepository.findMailed args.tokenHash resetPurposes d)).alone d id =
        .ok ((outcome, user), change))
    (htarget : resetTarget args.tokenHash d = some identity) (hvalid : outcome ≠ .invalid) :
    ∃ tokenId userId row, resettable row = true ∧
      (resetIdentity known args tokenId userId row identity (d.identityView identity).history).alone
        d id = .ok ((outcome, user), change) := by
  obtain ⟨locked, pending, hlock, hrest⟩ := Tx.alone_bind_eq_ok h
  obtain ⟨rfl, hlocked⟩ := alone_lockMailed hlock
  cases locked with
  | none =>
      cases hrest
      exact absurd rfl hvalid
  | some locked =>
      obtain ⟨tokenId, token⟩ := locked
      obtain ⟨hfound, htoken, -⟩ := hlocked tokenId token rfl
      rw [resetAccount_alone] at hrest
      split at hrest
      · rename_i row first rest hrow hpasswords
        obtain rfl : first = identity := by
          simpa [resetTarget, hfound, htoken, hpasswords] using htarget
        refine ⟨tokenId, token.userId, row, ?_, hrest⟩
        by_contra hnot
        change Tx.alone d id (resetIdentity known args tokenId token.userId row first
          (d.identityView first).history) = _ at hrest
        rw [resetIdentity, if_pos hnot] at hrest
        cases hrest
        exact hvalid rfl
      · cases hrest
        exact absurd rfl hvalid

/-- The verdict of a reset on the passwords it remembers, and the history it
leaves when it goes through. -/
theorem judged {known : String → Bool} {args : ResetArgs} {d : Db} {tokenId userId : Uuid}
    {row : User} {rows : List (Uuid × PasswordHistory)} {outcome : PasswordResetOutcome}
    {user : Option RecoveryUser} {change : Db → Db} (hresettable : resettable row = true)
    (h : (resetIdentity known args tokenId userId row identity rows).alone d id =
      .ok ((outcome, user), change)) :
    (outcome = .reused ∧ ∃ kept ∈ (latestFirst rows).take passwordHistoryLimit,
        known kept.2.passwordHash = true) ∨
    (outcome = .updated ∧
      (∀ kept ∈ (latestFirst rows).take passwordHistoryLimit,
        known kept.2.passwordHash = false) ∧
      (change d).history = (d.history.add args.historyId
        ⟨identity, args.passwordHash, args.started⟩).delete fun k kept =>
          kept.identityId == identity && (oldHistory (rows ++
            [(args.historyId, ⟨identity, args.passwordHash, args.started⟩)])).contains k) := by
  rw [resetIdentity, if_neg (by simpa using hresettable)] at h
  split at h
  · rename_i hknown
    cases h
    exact Or.inl ⟨rfl, by simpa using hknown⟩
  · rename_i hnew
    cases h
    refine Or.inr ⟨rfl, fun kept hkept => ?_, rfl⟩
    by_contra htrue
    exact hnew (List.any_eq_true.mpr ⟨kept, hkept, by simpa using htrue⟩)

theorem consume_alone {args : ResetArgs} {outcome : PasswordResetOutcome}
    {user : Option RecoveryUser}
    (h : (consumePasswordReset env args).solo i pass c = some (.ok (outcome, user), c')) :
    ∃ change, (resetWith (fun hash => env.passwordVerify hash args.password) args
      (RegistrationRepository.findMailed args.tokenHash resetPurposes c.db)).alone c.db id =
        .ok ((outcome, user), change) ∧ c'.db = change c.db := by
  rcases Prog.solo_txn_eq_some h with ⟨b, change, x, halone, hrest⟩ | ⟨fault, x, _, hrest⟩
  · change Tx.alone c.db id
      (resetWith (fun hash => env.passwordVerify hash args.password) args
        (RegistrationRepository.findMailed args.tokenHash resetPurposes c.db) >>= fun result =>
          Tx.ret (RegistrationRepository.findMailed args.tokenHash resetPurposes c.db, result)) =
        _ at halone
    obtain ⟨result, change', hreset, hreturn⟩ := Tx.alone_bind_eq_ok halone
    cases hreturn
    cases hrest
    exact ⟨change, hreset, rfl⟩
  · cases hrest

/-- Every state of a run of resets remembers the last four passwords. -/
theorem kept_of_passwordsSet (hhasher : HasherCorrect env) {sets : List (Time × String)}
    (h : PasswordsSet env identity sets c) :
    Kept env sets (c.db.identityView identity).history := by
  induction h with
  | @registered args password salt i pass c c' hidentity hhash hempty hnew hsolo =>
      rcases Prog.solo_txn_eq_some hsolo with ⟨_, change, x, halone, hrest⟩ | ⟨fault, x, _, hrest⟩
      · obtain ⟨-, rfl⟩ := alone_insertEmailAccount halone
        cases hrest
        have hhistory : ((registered args c.db).identityView identity).history =
            [(.drawn args.call 3, ⟨.drawn args.call 2, args.passwordHash, args.started⟩)] := by
          change (c.db.history.add (.drawn args.call 3)
            ⟨.drawn args.call 2, args.passwordHash, args.started⟩).select
              (fun _ row => row.identityId == identity) = _
          rw [Table.select_add_new hnew (by simp [hidentity])]
          exact congrArg _ hempty
        rw [hhistory]
        refine ⟨fun a ha b hb _ => ?_, ?_⟩
        · rw [List.mem_singleton.mp ha, List.mem_singleton.mp hb]
        · refine .cons ⟨rfl, fun candidate => ?_⟩ .nil
          rw [hhash]
          exact hhasher password salt candidate
      · cases hrest
  | @reset args salt i pass user sets c c' _ hhash htarget hnew hlast hsolo ih =>
      obtain ⟨change, halone, hdb⟩ := consume_alone hsolo
      obtain ⟨tokenId, userId, row, hresettable, hrun⟩ := resetWith_judged halone htarget (by simp)
      rcases judged hresettable hrun with ⟨hreused, _⟩ | ⟨_, _, hhistory⟩
      · cases hreused
      · have hadded : (c.db.history.add args.historyId
            ⟨identity, args.passwordHash, args.started⟩).select
              (fun _ row => row.identityId == identity) =
            (args.historyId, ⟨identity, args.passwordHash, args.started⟩) ::
              (c.db.identityView identity).history :=
          Table.select_add_new hnew (by simp)
        have hrows : (c'.db.identityView identity).history =
            ((args.historyId, ⟨identity, args.passwordHash, args.started⟩) ::
              (c.db.identityView identity).history).filter fun kept =>
                !(oldHistory ((c.db.identityView identity).history ++
                  [(args.historyId, ⟨identity, args.passwordHash, args.started⟩)])).contains
                    kept.1 := by
          rw [hdb]
          change (change c.db).history.select (fun _ row => row.identityId == identity) = _
          rw [hhistory, Table.select_delete_eq_filter, hadded]
          refine List.filter_congr fun kept hkept => ?_
          rw [← hadded] at hkept
          have hmine := (Table.mem_select.mp hkept).2
          rw [hmine, Bool.true_and]
        rw [hrows]
        refine ih.next ⟨rfl, fun candidate => ?_⟩ hlast ?_
        · rw [hhash]
          exact hhasher args.password salt candidate
        · rw [← hadded]
          exact Table.nodup_keys_select _ _
  | other _ hsame ih => rwa [hsame]

theorem known_of_remembers {rows : List (Uuid × PasswordHistory)}
    {entries : List (Time × String)} (h : List.Forall₂ (Remembers env) rows entries)
    (password : String) :
    (∃ kept ∈ rows, env.passwordVerify kept.2.passwordHash password = true) ↔
      password ∈ entries.map Prod.snd := by
  induction h with
  | nil => simp
  | cons hremembers _ ih =>
      simp only [List.mem_cons, exists_eq_or_imp, List.map_cons, hremembers.2]
      exact or_congr Iff.rfl ih

/-- A password is known to the history exactly if it is one of the last four. -/
theorem known_iff {sets : List (Time × String)} {rows : List (Uuid × PasswordHistory)}
    (h : Kept env sets rows) (password : String) :
    (∃ kept ∈ (latestFirst rows).take passwordHistoryLimit,
        env.passwordVerify kept.2.passwordHash password = true) ↔
      password ∈ (sets.map Prod.snd).take (passwordHistoryLimit - 1) := by
  have hlength := h.entries.length_eq
  have hshort : (latestFirst rows).take passwordHistoryLimit = latestFirst rows := by
    refine List.take_of_length_le ?_
    rw [hlength, List.length_take]
    simp only [passwordHistoryLimit]
    omega
  rw [hshort, ← List.map_take]
  exact known_of_remembers h.entries password

end Resets

/-- After any number of resets a further one with one of the last five passwords
is refused as reused and any other goes through, unless the password is the
fifth last and not among the last four. -/
theorem password_history {env : Env} (hhasher : HasherCorrect env) {identity : Uuid}
    {sets : List (Time × String)} {c c' : Core Db World} (hsets : PasswordsSet env identity sets c)
    {args : ResetArgs} (htarget : resetTarget args.tokenHash c.db = some identity) {i : Nat}
    {pass : World → Bool} {outcome : PasswordResetOutcome} {user : Option RecoveryUser}
    (hsolo : (consumePasswordReset env args).solo i pass c = some (.ok (outcome, user), c'))
    (hvalid : outcome ≠ .invalid) :
    (outcome = if args.password ∈ (sets.map Prod.snd).take 5 then .reused else .updated) ↔
      ¬(args.password ∈ (sets.map Prod.snd).take 5 ∧
        args.password ∉ (sets.map Prod.snd).take 4) := by
  obtain ⟨change, halone, -⟩ := consume_alone hsolo
  obtain ⟨tokenId, userId, row, hresettable, hrun⟩ := resetWith_judged halone htarget hvalid
  have hknown := known_iff (kept_of_passwordsSet hhasher hsets) args.password
  have hsub : args.password ∈ (sets.map Prod.snd).take 4 →
      args.password ∈ (sets.map Prod.snd).take 5 := fun h =>
    (List.take_sublist_take_left (by omega)).subset h
  rcases judged hresettable hrun with ⟨rfl, hkept⟩ | ⟨rfl, hnew, -⟩
  · have hfour := hknown.mp hkept
    simp [hsub hfour, show args.password ∈ (sets.map Prod.snd).take 4 from hfour]
  · have hfour : args.password ∉ (sets.map Prod.snd).take 4 := by
      intro hmem
      obtain ⟨kept, hkept, hverify⟩ := hknown.mpr hmem
      rw [hnew kept hkept] at hverify
      cases hverify
    by_cases hfive : args.password ∈ (sets.map Prod.snd).take 5
    · simp [hfive, hfour]
    · simp [hfive]

/-- The state after a reset with nobody else around. -/
def afterReset (args : ResetArgs) (c : Core Db World) : Core Db World :=
  (((consumePasswordReset sampleEnv args).solo 0 (fun _ => true) c).map Prod.snd).getD c

def sampleReset (n : Nat) (password : String) : ResetArgs :=
  ⟨100 + n, password, "hashed " ++ password, 10, 1 + n, .given n⟩

def sampleRegistration : EmailArgs :=
  ⟨"ann", "Ann", "Lee", "hashed p0", 1, 900, 1, "ann", 9⟩

/-- Ann has registered. -/
def sampleRegistered : Core Db World :=
  (((RegistrationRepository.createEmailRegistration sampleRegistration).solo 9
    (fun _ => true) (sampleStart emptyDb)).map Prod.snd).getD (sampleStart emptyDb)

/-- Five links for a new password are on their way to her. -/
def sampleLinked : Core Db World :=
  ⟨{ sampleRegistered.db with
      ephemeral := sampleTable ((List.range 5).map fun n =>
        (.given n, ⟨.drawn 9 0, 101 + n, .passwordReset, 900, none⟩)) },
    sampleRegistered.store⟩

/-- She has set four more passwords. -/
def sampleResets : Core Db World :=
  afterReset (sampleReset 4 "p4") (afterReset (sampleReset 3 "p3")
    (afterReset (sampleReset 2 "p2") (afterReset (sampleReset 1 "p1") sampleLinked)))

def sampleSets : List (Time × String) :=
  [(5, "p4"), (4, "p3"), (3, "p2"), (2, "p1"), (1, "p0")]

theorem hasherCorrect_sampleEnv : HasherCorrect sampleEnv := by
  intro password salt candidate
  change ("hashed " ++ password == "hashed " ++ candidate) = true ↔ candidate = password
  rw [beq_iff_eq, String.append_right_inj, eq_comm]

theorem passwordsSet_next (n : Nat) (password : String) {sets : List (Time × String)}
    {c : Core Db World} (h : PasswordsSet sampleEnv (.drawn 9 2) sets c)
    (htarget : resetTarget (100 + n) c.db = some (.drawn 9 2))
    (hnew : c.db.history.get (.given n) = none) (hlast : ∀ entry ∈ sets, entry.1 < 1 + n)
    (user : Option RecoveryUser)
    (hsolo : ((consumePasswordReset sampleEnv (sampleReset n password)).solo 0 (fun _ => true)
      c).map Prod.fst = some (.ok (.updated, user))) :
    PasswordsSet sampleEnv (.drawn 9 2) ((1 + n, password) :: sets)
      (afterReset (sampleReset n password) c) :=
  .reset (s := .given 0) h rfl htarget hnew hlast (solo_of_fst hsolo)

def sampleAnn (version : Nat) : Option RecoveryUser :=
  some ⟨.drawn 9 0, some "ann", none, .pending, version⟩

theorem passwordsSet_sample : PasswordsSet sampleEnv (.drawn 9 2) sampleSets sampleResets := by
  have hregistered : PasswordsSet sampleEnv (.drawn 9 2) [(1, "p0")] sampleRegistered :=
    .registered (s := .given 0) (show _ = Uuid.drawn sampleRegistration.call 2 from rfl) rfl rfl rfl
      (solo_of_fst (by decide +kernel))
  have hlinked : PasswordsSet sampleEnv (.drawn 9 2) [(1, "p0")] sampleLinked :=
    .other hregistered rfl
  have hfirst := passwordsSet_next 1 "p1" hlinked (by decide +kernel)
    (by decide +kernel) (by decide) (sampleAnn 2) (by decide +kernel)
  have hsecond := passwordsSet_next 2 "p2" hfirst (by decide +kernel)
    (by decide +kernel) (by decide) (sampleAnn 3) (by decide +kernel)
  have hthird := passwordsSet_next 3 "p3" hsecond (by decide +kernel)
    (by decide +kernel) (by decide) (sampleAnn 4) (by decide +kernel)
  exact passwordsSet_next 4 "p4" hthird (by decide +kernel)
    (by decide +kernel) (by decide) (sampleAnn 5) (by decide +kernel)

theorem password_history_second :
    (PasswordResetOutcome.reused =
        if "p1" ∈ (sampleSets.map Prod.snd).take 5 then .reused else .updated) ↔
      ¬("p1" ∈ (sampleSets.map Prod.snd).take 5 ∧ "p1" ∉ (sampleSets.map Prod.snd).take 4) := by
  have hsolo : ((consumePasswordReset sampleEnv (sampleReset 5 "p1")).solo 0 (fun _ => true)
      sampleResets).map Prod.fst = some (.ok (.reused, sampleAnn 5)) := by
    decide +kernel
  exact password_history hasherCorrect_sampleEnv passwordsSet_sample (by decide +kernel)
    (solo_of_fst (c := sampleResets) hsolo) (by decide)

/-- The password that Ann registered with is the fifth last, and she may take it
again. -/
theorem fifth_password_accepted :
    HasherCorrect sampleEnv ∧ PasswordsSet sampleEnv (.drawn 9 2) sampleSets sampleResets ∧
      resetTarget (sampleReset 5 "p0").tokenHash sampleResets.db = some (.drawn 9 2) ∧
      "p0" ∈ (sampleSets.map Prod.snd).take 5 ∧
      ((consumePasswordReset sampleEnv (sampleReset 5 "p0")).solo 0 (fun _ => true)
        sampleResets).map Prod.fst = some (.ok (.updated, sampleAnn 6)) :=
  ⟨hasherCorrect_sampleEnv, passwordsSet_sample, by decide +kernel, by decide,
    by decide +kernel⟩

end AuthCore
