/-
One rule for each step of a call: what has to hold for the step to be recorded
and what is left to show of the rest of the call.
-/
import AuthCore.History.Guards

namespace AuthCore

open Interleave

variable {env : Env} {start : Core Db World} {i : Nat} {t : List Event}

/-- Call `i`, having recorded `t`, keeps to the ledger when it goes on with `p`. -/
def Runs (env : Env) (start : Core Db World) (i : Nat) (t : List Event)
    (p : Proc Result) : Prop :=
  (ledger env).At (application env) start i t p

/-- The same inside a transaction. -/
def RunsTx (env : Env) (start : Core Db World) (i : Nat) (t : List Event) {β : Type}
    (event : β → Event) (k : Except (Fault AuthError) β → Proc Result)
    (seen : List ((row : Row) × row.View)) (pending : Db → Db) (body : Trans β) : Prop :=
  (ledger env).AtTx (application env) start i t (fun i b w => w.record i (event b)) k seen
    pending body

theorem records_of_tells {e : Event} {c : Core Db World} {w : World}
    (htrace : trace i c.store.log = t) (hcommit : e.commit = none) (hstored : e.stored c.store = w)
    (htells : e.Tells c) (hfollows : e.Follows env i t) :
    (ledger env).Records i e c ⟨c.db, w.record i e⟩ := by
  subst htrace hstored
  refine ⟨⟨hfollows, htells, ?_⟩, ?_⟩
  · intro commit h
    rw [hcommit] at h
    cases h
  · change _ = Event.apply i e c
    simp only [Event.apply, Event.change, hcommit]

theorem records_of_commit {α : Type} {e : Event} {c : Core Db World} {body : Trans α} {a : α}
    {change : Db → Db} (htrace : trace i c.store.log = t)
    (hcommit : e.commit = some ⟨α, body, a⟩) (hstored : e.stored c.store = c.store)
    (htells : e.Tells c) (hfollows : e.Follows env i t)
    (halone : body.alone c.db id = .ok (a, change)) :
    (ledger env).Records i e c ⟨change c.db, c.store.record i e⟩ := by
  subst htrace
  refine ⟨⟨hfollows, htells, ?_⟩, ?_⟩
  · intro commit h
    rw [hcommit, Option.some.injEq] at h
    subst h
    exact ⟨change, halone⟩
  · change _ = Event.apply i e c
    simp only [Event.apply, Event.change, hcommit, hstored, Tx.commit_of_alone halone]

section Actions

variable {β : Type} {k : β → Proc Result}

theorem runs_step {f : Db → World → β × World} {event : β → Event}
    (hcommit : ∀ b, (event b).commit = none)
    (hstored : ∀ c : Core Db World, (event (f c.db c.store).1).stored c.store = (f c.db c.store).2)
    (htells : ∀ c : Core Db World, (event (f c.db c.store).1).Tells c)
    (hfollows : ∀ b, (event b).Follows env i t)
    (hrest : ∀ b, Runs env start i (event b :: t) (k b)) :
    Runs env start i t (step f event >>= k) := by
  refine Ledger.at_act fun c _ htrace answer hanswer => ?_
  rw [List.mem_singleton] at hanswer
  subst hanswer
  exact ⟨_, records_of_tells htrace (hcommit _) (hstored c) (htells c) (hfollows _), hrest _⟩

theorem runs_choose {answers : List β} {event : β → Event}
    (hcommit : ∀ b, (event b).commit = none) (hstored : ∀ b w, (event b).stored w = w)
    (htells : ∀ b c, (event b).Tells c) (hfollows : ∀ b, (event b).Follows env i t)
    (hrest : ∀ b, Runs env start i (event b :: t) (k b)) :
    Runs env start i t (choose answers event >>= k) := by
  refine Ledger.at_act fun c _ htrace answer hanswer => ?_
  obtain ⟨b, _, rfl⟩ := List.mem_map.mp hanswer
  exact ⟨_, records_of_tells htrace (hcommit b) (hstored b _) (htells b c) (hfollows b), hrest b⟩

theorem runs_look {query : Db → β} {event : β → Event}
    (hcommit : ∀ b, (event b).commit = none) (hstored : ∀ b w, (event b).stored w = w)
    (htells : ∀ c : Core Db World, (event (query c.db)).Tells c)
    (hfollows : ∀ b, (event b).Follows env i t)
    (hrest : ∀ b, Runs env start i (event b :: t) (k b)) :
    Runs env start i t (look query event >>= k) :=
  runs_step hcommit (fun _ => hstored _ _) htells hfollows hrest

end Actions

theorem runs_clock {k : Time → Proc Result}
    (hrest : ∀ now, Runs env start i (.clock now :: t) (k now)) :
    Runs env start i t (clock >>= k) :=
  runs_step (fun _ => rfl) (fun _ => rfl) (fun _ => rfl) (fun _ => trivial) hrest

theorem runs_send {recipient : String} {k : Bool → Proc Result}
    (hfollows : ∀ user token hash, .otpStored user (.mfa token) hash ∈ t →
      Addressed user recipient t)
    (hrest : ∀ delivered, Runs env start i (.sent recipient delivered :: t) (k delivered)) :
    Runs env start i t (send recipient >>= k) :=
  runs_choose (fun _ => rfl) (fun _ _ => rfl) (fun _ _ => trivial) (fun _ => hfollows) hrest

theorem runs_captcha {k : Option Bool → Proc Result}
    (hrest : ∀ valid, Runs env start i (.captcha valid :: t) (k valid)) :
    Runs env start i t (captchaVerify >>= k) :=
  runs_choose (fun _ => rfl) (fun _ _ => rfl) (fun _ _ => trivial) (fun _ => trivial) hrest

theorem runs_get {key : CacheKey} {k : Option key.Value → Proc Result}
    (hrest : ∀ value, Runs env start i (.got key value :: t) (k value)) :
    Runs env start i t (Redis.get key >>= k) :=
  runs_step (fun _ => rfl) (fun _ => rfl) (fun _ => rfl) (fun _ => trivial) hrest

theorem runs_set {key : CacheKey} {value : key.Value} {ttl : Nat} {k : Unit → Proc Result}
    (hputs : Puts env i t key value ttl)
    (hrest : Runs env start i (.put key value ttl :: t) (k ())) :
    Runs env start i t (Redis.set key value ttl >>= k) :=
  runs_step (fun _ => rfl) (fun _ => rfl) (fun _ => trivial) (fun _ => hputs) fun _ => hrest

theorem runs_getdel {key : CacheKey} {k : Option key.Value → Proc Result}
    (htakes : Takes t key)
    (hrest : ∀ value, Runs env start i (.taken key value :: t) (k value)) :
    Runs env start i t (Redis.getdel key >>= k) :=
  runs_step (fun _ => rfl) (fun _ => rfl) (fun _ => rfl) (fun _ => htakes) hrest

theorem runs_delete {key : CacheKey} {k : Unit → Proc Result} (hremoves : Removes t key)
    (hrest : Runs env start i (.removed key :: t) (k ())) :
    Runs env start i t (Redis.delete key >>= k) :=
  runs_step (fun _ => rfl) (fun _ => rfl) (fun _ => trivial) (fun _ => hremoves) fun _ => hrest

theorem runs_count {route : String} {subject : Subject} {window : Nat} {k : Nat → Proc Result}
    (hrest : ∀ count, Runs env start i (.counted route subject window count :: t) (k count)) :
    Runs env start i t (Redis.incrementRateLimit route subject window >>= k) :=
  runs_step (fun _ => rfl) (fun _ => rfl) (fun _ => trivial) (fun _ => trivial) hrest

theorem runs_storeOtp {user : Uuid} {purpose : OtpPurpose} {hash : Digest}
    {k : Unit → Proc Result}
    (hfollows : (Event.otpStored user purpose hash).Follows env i t)
    (hrest : Runs env start i (.otpExpires user purpose :: .otpStored user purpose hash :: t)
      (k ())) :
    Runs env start i t (Redis.storeOtpHash user purpose hash >>= k) := by
  unfold Redis.storeOtpHash
  rw [Prog.bind_assoc]
  refine runs_step (fun _ => rfl) (fun _ => rfl) (fun _ => trivial) (fun _ => hfollows) ?_
  intro _
  exact runs_step (fun _ => rfl) (fun _ => rfl) (fun _ => trivial) (fun _ => trivial)
    fun _ => hrest

theorem runs_tryOtp {user : Uuid} {purpose : OtpPurpose} {candidate : Digest} {attempts : Nat}
    {k : Int → Proc Result}
    (hrest : ∀ outcome,
      Runs env start i (.otpTried user purpose candidate attempts outcome :: t) (k outcome)) :
    Runs env start i t (Redis.verifyAndConsumeOtp user purpose candidate attempts >>= k) :=
  runs_step (fun _ => rfl) (fun _ => rfl) (fun _ => rfl) (fun _ => trivial) hrest

theorem runs_issue {claims : AccessClaims} {now : Time} {k : AccessClaims × Time → Proc Result}
    (hsigns : Signs i t claims)
    (hrest : Runs env start i (.signed claims :: t)
      (k (claims, now + seconds accessTtlSeconds))) :
    Runs env start i t (issue claims now >>= k) := by
  unfold issue
  rw [Prog.bind_assoc]
  exact runs_step (fun _ => rfl) (fun _ => rfl) (fun _ => trivial) (fun _ => hsigns)
    fun _ => hrest

theorem runs_verify {token : AccessClaims} {k : Bool → Proc Result}
    (hrest : ∀ accepted, Runs env start i (.verified token accepted :: t) (k accepted)) :
    Runs env start i t (verify token >>= k) :=
  runs_step (fun _ => rfl) (fun _ => rfl) (fun _ => rfl) (fun _ => trivial) hrest

section Store

/-- The answer of a typed query of the store, missing or found. -/
theorem runs_get_cases {key : CacheKey} {k : Option key.Value → Proc Result}
    (hnone : Runs env start i (.got key none :: t) (k none))
    (hsome : ∀ value, Runs env start i (.got key (some value) :: t) (k (some value))) :
    Runs env start i t (Redis.get key >>= k) := by
  refine runs_get fun value => ?_
  cases value with
  | none => exact hnone
  | some value => exact hsome value

theorem runs_getdel_cases {key : CacheKey} {k : Option key.Value → Proc Result}
    (htakes : Takes t key) (hnone : Runs env start i (.taken key none :: t) (k none))
    (hsome : ∀ value, Runs env start i (.taken key (some value) :: t) (k (some value))) :
    Runs env start i t (Redis.getdel key >>= k) := by
  refine runs_getdel htakes fun value => ?_
  cases value with
  | none => exact hnone
  | some value => exact hsome value

theorem runs_getLoginWorkflow {token : Token} {k : Option Workflow → Proc Result}
    (hnone : Runs env start i (.got (.loginWorkflow token) none :: t) (k none))
    (hsome : ∀ workflow : Workflow,
      Runs env start i (.got (.loginWorkflow token) (some workflow) :: t) (k (some workflow))) :
    Runs env start i t (Redis.getLoginWorkflow token >>= k) :=
  runs_get_cases hnone hsome

theorem runs_getMfaChallenge {token : Token} {k : Option Challenge → Proc Result}
    (hnone : Runs env start i (.got (.mfaChallenge token) none :: t) (k none))
    (hsome : ∀ challenge : Challenge,
      Runs env start i (.got (.mfaChallenge token) (some challenge) :: t) (k (some challenge))) :
    Runs env start i t (Redis.getMfaChallenge token >>= k) :=
  runs_get_cases hnone hsome

theorem runs_consumeLoginWorkflow {token : Token} {k : Option Workflow → Proc Result}
    (hunspent : Unspent t)
    (hnone : Runs env start i (.taken (.loginWorkflow token) none :: t) (k none))
    (hsome : ∀ workflow : Workflow,
      Runs env start i (.taken (.loginWorkflow token) (some workflow) :: t)
        (k (some workflow))) :
    Runs env start i t (Redis.consumeLoginWorkflow token >>= k) :=
  runs_getdel_cases hunspent hnone hsome

theorem runs_consumeMfaChallenge {token : Token} {k : Option Challenge → Proc Result}
    (hunspent : Unspent t)
    (hnone : Runs env start i (.taken (.mfaChallenge token) none :: t) (k none))
    (hsome : ∀ challenge : Challenge,
      Runs env start i (.taken (.mfaChallenge token) (some challenge) :: t)
        (k (some challenge))) :
    Runs env start i t (Redis.consumeMfaChallenge token >>= k) :=
  runs_getdel_cases hunspent hnone hsome

theorem runs_consumeWebauthnChallenge {token : Token}
    {k : Option WebAuthnChallenge → Proc Result} (hunspent : Unspent t)
    (hnone : Runs env start i (.taken (.webauthnChallenge token) none :: t) (k none))
    (hsome : ∀ challenge : WebAuthnChallenge,
      Runs env start i (.taken (.webauthnChallenge token) (some challenge) :: t)
        (k (some challenge))) :
    Runs env start i t (Redis.consumeWebauthnChallenge token >>= k) :=
  runs_getdel_cases hunspent hnone hsome

theorem runs_consumeOidcWorkflow {state : Token} {k : Option OIDCWorkflow → Proc Result}
    (hnone : Runs env start i (.taken (.oidcWorkflow state) none :: t) (k none))
    (hsome : ∀ workflow : OIDCWorkflow,
      Runs env start i (.taken (.oidcWorkflow state) (some workflow) :: t)
        (k (some workflow))) :
    Runs env start i t (Redis.consumeOidcWorkflow state >>= k) :=
  runs_getdel_cases trivial hnone hsome

/-- A mark in the store that is only asked for. -/
theorem runs_mark {key : CacheKey} {k : Bool → Proc Result}
    (habsent : Runs env start i (.got key none :: t) (k false))
    (hpresent : ∀ value, Runs env start i (.got key (some value) :: t) (k true)) :
    Runs env start i t ((do return (← Redis.get key).isSome) >>= k) := by
  rw [Prog.bind_assoc]
  exact runs_get_cases habsent hpresent

end Store

theorem runs_return {result : Result} (hreturns : Returns t (.ok result)) :
    Runs env start i t (pure result) :=
  Ledger.at_done (.returned (.ok result)) ⟨_, rfl⟩ fun _ _ htrace =>
    records_of_tells htrace rfl rfl trivial hreturns

theorem runs_raise {error : AuthError} (hreturns : Returns t (.error error)) :
    Runs env start i t (.raise error) :=
  Ledger.at_raise (.returned (.error error)) ⟨_, rfl⟩ fun _ _ htrace =>
    records_of_tells htrace rfl rfl trivial hreturns

/-- An exception that the record does not have to explain. -/
theorem runs_fail {error : AuthError} (h : t.all Event.plain = true) :
    Runs env start i t (fail error) :=
  runs_raise (Returns.error_of_plain h)

theorem runs_fail_bind {β : Type} {k : β → Proc Result} {error : AuthError}
    (h : t.all Event.plain = true) : Runs env start i t (fail error >>= k) :=
  runs_raise (Returns.error_of_plain h)

theorem runs_done {result : Result} (h : t.all Event.plain = true)
    (hresult : result.Recorded t) : Runs env start i t (pure result) :=
  runs_return (Returns.ok_of_plain h hresult)

theorem lockOnly_lockRow (row : Row) : (lockRow row).LockOnly :=
  fun _ => trivial

theorem lockOnly_write (change : DbChange) : (write change).LockOnly :=
  trivial

theorem lockOnly_reserve (key : IndexKey) (removed : List Uuid) :
    (reserve key removed).LockOnly := by
  refine (lockOnly_lockRow _).bind fun entries => ?_
  split <;> trivial

theorem alone_reserve {key : IndexKey} {removed : List Uuid} {d : Db} {pending : Db → Db}
    {result : Unit × (Db → Db)} (h : (reserve key removed).alone d pending = .ok result) :
    (∀ id ∈ key.entries d, id ∈ removed) ∧ result = ((), pending) := by
  change Tx.alone d pending
    (if (key.entries d).all removed.contains then return () else .raise .integrity :
      Trans Unit) = _ at h
  split at h
  · rename_i hall
    refine ⟨?_, (Except.ok.inj h).symm⟩
    simpa using hall
  · cases h

theorem guarantees_lockRow (R : Db → Db → Prop) (row : Row) : (lockRow row).Guarantees R :=
  fun _ => trivial

theorem guarantees_write {R : Db → Db → Prop} {change : DbChange}
    (h : ∀ d, R d (change.apply d)) : (write change).Guarantees R :=
  ⟨h, trivial⟩

theorem guarantees_reserve (R : Db → Db → Prop) (key : IndexKey) (removed : List Uuid) :
    (reserve key removed).Guarantees R := by
  refine (guarantees_lockRow R _).bind fun entries => ?_
  split <;> trivial

theorem lockOnly_newUser (id : Uuid) : (LoginRepository.newUser id).LockOnly := by
  refine (lockOnly_lockRow _).bind fun taken => ?_
  split <;> trivial

theorem guarantees_newUser (R : Db → Db → Prop) (id : Uuid) :
    (LoginRepository.newUser id).Guarantees R := by
  refine (guarantees_lockRow R _).bind fun taken => ?_
  split <;> trivial

section Transactions

variable {β : Type} {event : β → Event} {k : Except (Fault AuthError) β → Proc Result}
  {seen : List ((row : Row) × row.View)} {pending : Db → Db}

theorem runs_txn {body : Trans β} (h : RunsTx env start i t event k [] id body) :
    Runs env start i t (.txn (fun i b w => w.record i (event b)) body k) :=
  Ledger.at_txn h

/-- The rest of a transaction that looks at nothing it has not locked. -/
theorem runsTx_lockOnly {body : Trans β} (hbody : body.LockOnly)
    (hcommit : ∀ c : Core Db World, trace i c.store.log = t →
      Protocol.Current (L := schema) seen c.db →
      ∀ b change, body.alone c.db pending = .ok (b, change) →
        (ledger env).Records i (event b) c ⟨change c.db, c.store.record i (event b)⟩)
    (hok : ∀ b,
      (∃ d change, Protocol.Current (L := schema) seen d ∧ body.alone d pending = .ok (b, change)) →
      Runs env start i (event b :: t) (k (.ok b)))
    (hfault : ∀ fault, Runs env start i t (k (.error fault))) :
    RunsTx env start i t event k seen pending body := by
  refine Ledger.atTx_lockOnly hbody ?_ hfault
  intro c _ htrace hcurrent b change halone
  exact ⟨event b, hcommit c htrace hcurrent b change halone,
    hok b ⟨c.db, change, hcurrent, halone⟩⟩

/-- A query inside a transaction. -/
theorem runsTx_ask {γ : Type} {query : Db → γ} {asked : γ → Event} {rest : γ → Trans β}
    (hcommit : ∀ b, (asked b).commit = none) (hstored : ∀ b w, (asked b).stored w = w)
    (htells : ∀ c : Core Db World, Protocol.Current (L := schema) seen c.db →
      (asked (query (pending c.db))).Tells c)
    (hfollows : ∀ b, (asked b).Follows env i t)
    (hrest : ∀ b, RunsTx env start i (asked b :: t) event k seen pending (rest b)) :
    RunsTx env start i t event k seen pending (ask query asked >>= rest) := by
  refine Ledger.atTx_select ?_
  intro c _ htrace hcurrent
  exact ⟨_, records_of_tells htrace (hcommit _) (hstored _ _) (htells c hcurrent) (hfollows _),
    hrest _⟩

theorem runsTx_raise {fault : Fault AuthError} (h : Runs env start i t (k (.error fault))) :
    RunsTx env start i t event k seen pending (.raise fault) :=
  Ledger.atTx_raise h

theorem runsTx_lock {row : Row} {rest : row.View → Trans β}
    (h : ∀ v, RunsTx env start i t event k (⟨row, v⟩ :: seen) pending (rest v))
    (hfault : Runs env start i t (k (.error .deadlock))) :
    RunsTx env start i t event k seen pending (lockRow row >>= rest) :=
  Ledger.atTx_lock h hfault

/-- Statements on locked rows before a further query. -/
theorem runsTx_bind {γ : Type} {body : Trans γ} {rest : γ → Trans β} (hbody : body.LockOnly)
    (hrest : ∀ b (seen' : List ((row : Row) × row.View)) pending',
      (∀ d, Protocol.Current (L := schema) seen' d →
        Protocol.Current (L := schema) seen d ∧ body.alone d pending = .ok (b, pending')) →
      RunsTx env start i t event k seen' pending' (rest b))
    (hfault : ∀ fault, Runs env start i t (k (.error fault))) :
    RunsTx env start i t event k seen pending (body >>= rest) :=
  Ledger.atTx_bind_lockOnly hbody hrest hfault

/-- The end of a transaction that has nothing left to do. -/
theorem runsTx_return {b : β}
    (hcommit : ∀ c : Core Db World, trace i c.store.log = t →
      Protocol.Current (L := schema) seen c.db →
      (ledger env).Records i (event b) c ⟨pending c.db, c.store.record i (event b)⟩)
    (hok : Runs env start i (event b :: t) (k (.ok b)))
    (hfault : ∀ fault, Runs env start i t (k (.error fault))) :
    RunsTx env start i t event k seen pending (pure b) := by
  refine runsTx_lockOnly trivial ?_ ?_ hfault
  · intro c htrace hcurrent b' change halone
    cases halone
    exact hcommit c htrace hcurrent
  · rintro b' ⟨d, change, _, halone⟩
    cases halone
    exact hok

/-- A transaction that only works on rows it locks. -/
theorem runs_attempt {body : Trans β} (hbody : body.LockOnly)
    (hcommit : ∀ b, (event b).commit = some ⟨β, body, b⟩)
    (hstored : ∀ b w, (event b).stored w = w) (htells : ∀ b c, (event b).Tells c)
    (hfollows : ∀ b, (event b).Follows env i t)
    {rest : Except (Fault AuthError) β → Proc Result}
    (hok : ∀ b, Runs env start i (event b :: t) (rest (.ok b)))
    (hfault : ∀ fault, Runs env start i t (rest (.error fault))) :
    Runs env start i t (attempt event body >>= rest) := by
  refine runs_txn (runsTx_lockOnly hbody ?_ (fun b _ => hok b) hfault)
  intro c htrace _ b change halone
  exact records_of_commit htrace (hcommit b) (hstored b _) (htells b c) (hfollows b) halone

theorem runs_transact {body : Trans β} (hbody : body.LockOnly)
    (hcommit : ∀ b, (event b).commit = some ⟨β, body, b⟩)
    (hstored : ∀ b w, (event b).stored w = w) (htells : ∀ b c, (event b).Tells c)
    (hfollows : ∀ b, (event b).Follows env i t) {rest : β → Proc Result}
    (hok : ∀ b, Runs env start i (event b :: t) (rest b))
    (hfault : Runs env start i t (.raise .unhandled)) :
    Runs env start i t (transact event body >>= rest) := by
  refine runs_txn (runsTx_lockOnly hbody ?_ (fun b _ => hok b) fun _ => hfault)
  intro c htrace _ b change halone
  exact records_of_commit htrace (hcommit b) (hstored b _) (htells b c) (hfollows b) halone

/-- Only the answer of a transaction is rearranged. -/
theorem alone_bind_ret {α : Type} {body : Trans α} {g : α → β} {d : Db} {b : β}
    {change : Db → Db} (h : (body >>= fun a => pure (g a)).alone d pending = .ok (b, change)) :
    ∃ a, body.alone d pending = .ok (a, change) ∧ b = g a := by
  obtain ⟨a, pending', hbody, hrest⟩ := Tx.alone_bind_eq_ok h
  cases hrest
  exact ⟨a, hbody, rfl⟩

/-- A transaction that looks for its rows, locks them and works on them. -/
theorem runs_lookup {γ α : Type} {query : Db → γ} {asked : γ → Event} {body : γ → Trans α}
    {g : γ → α → β} (hbody : ∀ found, (body found).LockOnly)
    (hasked : ∀ b, (asked b).commit = none) (hquiet : ∀ b w, (asked b).stored w = w)
    (htold : ∀ c : Core Db World, (asked (query c.db)).Tells c)
    (hfollowed : ∀ b, (asked b).Follows env i t)
    (hcommit : ∀ found a, (event (g found a)).commit = some ⟨α, body found, a⟩)
    (hstored : ∀ b w, (event b).stored w = w) (htells : ∀ b c, (event b).Tells c)
    (hfollows : ∀ found a, (event (g found a)).Follows env i (asked found :: t))
    (hok : ∀ found a, Runs env start i (event (g found a) :: asked found :: t)
      (k (.ok (g found a))))
    (hfault : ∀ found fault, Runs env start i (asked found :: t) (k (.error fault))) :
    Runs env start i t
      (.txn (fun i b w => w.record i (event b))
        (ask query asked >>= fun found => body found >>= fun a => pure (g found a)) k) := by
  refine runs_txn (runsTx_ask hasked hquiet (fun c _ => htold c) hfollowed ?_)
  intro found
  refine runsTx_lockOnly ((hbody found).bind fun _ => trivial) ?_ ?_ (hfault found)
  · intro c htrace _ b change halone
    obtain ⟨a, hrun, rfl⟩ := alone_bind_ret halone
    exact records_of_commit htrace (hcommit found a) (hstored _ _) (htells _ c) (hfollows found a)
      hrun
  · rintro b ⟨d, change, _, halone⟩
    obtain ⟨a, _, rfl⟩ := alone_bind_ret halone
    exact hok found a

end Transactions

end AuthCore
