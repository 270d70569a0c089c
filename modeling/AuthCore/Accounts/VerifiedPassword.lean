/-
The password that a verification makes valid.  A second registration of a pending
address mails a new link and leaves the password of the first one in place.
-/
import AuthCore.Accounts.InTurn
import AuthCore.Accounts.PasswordHistory
import AuthCore.Accounts.Standing

namespace AuthCore

open Interleave Relational RegistrationRepository

/-- The address that a call has a verification mailed to. -/
def Call.mailsTo : Call → Option String
  | .registerEmail email .. => some email
  | .requestEmailVerification email => some email
  | _ => none

/-- The calls that register an address and verify it. -/
def Call.verifiesEmail (call : Call) : Prop :=
  call.mailsTo.isSome = true ∨ ∃ token, call = .verifyEmail token

/-- The password identity of an address. -/
def LogsIn (address : String) (x : Identity) : Prop :=
  x.provider = .password ∧ x.providerSubject = address

def TakesPassword (env : Env) (password : String) (x : Identity) : Prop :=
  ∃ hash, x.passwordHash = some hash ∧ env.passwordVerify hash password = true

/-- The user and the digest of a mailed token. -/
def Db.link (d : Db) (k : Uuid) : Option (Uuid × Digest) :=
  (d.ephemeral.get k).map fun token => (token.userId, token.tokenHash)

/-- An identity, whether it has been verified or not. -/
def Db.login (d : Db) (k : Uuid) : Option Identity :=
  (d.identities.get k).map fun x => { x with verified := false }

def Db.address (d : Db) (user : Uuid) : Option String :=
  (d.users.get user).bind User.email

/-- What a call does to users, identities and mailed tokens; the mark tells
whether it had something mailed. -/
inductive Registering (env : Env) (i : Nat) (d d' : Db) :
    Call → Except AuthError Result → Bool → Prop
  | idle {call : Call} {answer : Except AuthError Result} :
      d' = d → (∀ token, call = .verifyEmail token → ∀ value, answer ≠ .ok value) →
      Registering env i d d' call answer false
  | created {email password givenName familyName : String} {args : EmailArgs}
      {answer : Except AuthError Result} :
      args.email = env.normalizeEmail email →
      args.passwordHash = env.passwordHash password (.drawn i 6) →
      args.tokenHash = env.verificationHash (.drawn i 5) → args.call = i →
      Unregistered args d → d' = registered args d →
      Registering env i d d' (.registerEmail email password givenName familyName) answer true
  | reissued {call : Call} {email : String} {user : Uuid} {answer : Except AuthError Result} :
      call.mailsTo = some email → d.address user = some (env.normalizeEmail email) →
      (IndexKey.mailedToken (env.verificationHash (.drawn i 5))).entries d = [] →
      d'.users = d.users → d'.identities = d.identities →
      (∀ k, d'.link k = (d.link k).or
        (if k = .drawn i 4 then some (user, env.verificationHash (.drawn i 5)) else none)) →
      Registering env i d d' call answer true
  | verified {token : Token} {answer : Except AuthError Result} :
      (∀ k, d'.link k = d.link k) → (∀ k, d'.login k = d.login k) →
      (∀ user, d'.address user = d.address user) →
      (∀ value, answer = .ok value →
        ∃ k user, d.link k = some (user, env.verificationHash token) ∧
          ∀ id x, d.identities.get id = some x → x.userId = user → x.provider = .password →
            d'.identities.get id = some { x with verified := true }) →
      Registering env i d d' (.verifyEmail token) answer false

section Steps

variable {d : Db}

theorem link_useMailed (id k : Uuid) (now : Time) :
    ((DbChange.useMailed id now).apply d).link k = d.link k := by
  change ((d.ephemeral.update _ _).get k).map _ = (d.ephemeral.get k).map _
  rw [Table.get_update, Option.map_map]
  congr 1
  funext token
  by_cases hk : k = id
  · simp [hk]
  · simp [hk]

/-- A new link takes the place of the open ones, whose users and digests stay. -/
theorem alone_insertMailed {args : MailArgs} {found : List Uuid} {change : Db → Db}
    (h : (insertMailed args found).alone d id = .ok ((), change)) :
    (IndexKey.mailedToken args.tokenHash).entries d = [] ∧ (change d).users = d.users ∧
      (change d).identities = d.identities ∧
      ∀ k, (change d).link k = (d.link k).or
        (if k = args.tokenId then some (args.userId, args.tokenHash) else none) := by
  obtain ⟨_, pending, huse, hrest⟩ := Tx.alone_bind_eq_ok h
  obtain ⟨_, p₁, hreserve, hend⟩ := Tx.alone_bind_eq_ok hrest
  obtain ⟨hfree, heq⟩ := entries_of_reserve hreserve
  cases heq
  cases hend
  have hkeeps : (Tx.each (useUp args) found).Guarantees
      (Tx.Keeps fun d => (d.users, d.identities, d.link)) := by
    refine Tx.guarantees_each (guarantees_useUp fun d id => ?_) found
    exact congrArg (fun link => (d.users, d.identities, link))
      (funext fun k => link_useMailed id k args.now)
  have hsame := Tx.keeps_of_reflTransGen (hkeeps.alone huse d)
  simp only [Prod.mk.injEq, id] at hsame
  refine ⟨hfree, hsame.1, hsame.2.1, fun k => ?_⟩
  change (((pending d).ephemeral.add args.tokenId _).get k).map _ = _
  rw [Table.get_add, ← congrFun hsame.2.2 k]
  unfold Db.link
  cases (pending d).ephemeral.get k with
  | some token => rfl
  | none =>
      by_cases hk : k = args.tokenId
      · simp [hk]
      · simp [hk]

/-- The identity has been marked as verified. -/
def Marked (id : Uuid) (x : Identity) (d : Db) : Prop :=
  d.identities.get id = some { x with verified := true }

theorem identities_setVerified (id k : Uuid) :
    ((DbChange.setVerified id).apply d).identities.get k =
      (d.identities.get k).map fun x => if k = id then { x with verified := true } else x := by
  change (d.identities.update _ _).get k = _
  rw [Table.get_update]
  simp

theorem marked_setVerified {id k : Uuid} {x : Identity} (h : Marked id x d) :
    Marked id x ((DbChange.setVerified k).apply d) := by
  unfold Marked at h ⊢
  rw [identities_setVerified, h]
  simp

theorem alone_markVerified_self {user id : Uuid} {provider : IdentityProvider} {x : Identity}
    {pending : Db → Db} {result : Unit × (Db → Db)}
    (h : (markVerified user provider id).alone d pending = .ok result)
    (hget : d.identities.get id = some x) (huser : x.userId = user)
    (hprovider : x.provider = provider) :
    result.2 = (DbChange.setVerified id).apply ∘ pending := by
  rw [markVerified_alone, hget] at h
  dsimp only at h
  rw [if_pos (by simp [huser, hprovider])] at h
  cases h
  rfl

/-- Every identity of the list ends up marked. -/
theorem marked_of_markAll {user : Uuid} {provider : IdentityProvider} {ids : List Uuid}
    {pending : Db → Db} {result : Unit × (Db → Db)}
    (h : (Tx.each (markVerified user provider) ids).alone d pending = .ok result) {id : Uuid}
    {x : Identity} (hid : id ∈ ids) (hget : d.identities.get id = some x)
    (huser : x.userId = user) (hprovider : x.provider = provider)
    (hpending : (pending d).identities.get id = some x ∨ Marked id x (pending d)) :
    Marked id x (result.2 d) := by
  have hkeep : ∀ d' k, ((d'.identities.get id = some x ∨ Marked id x d') →
      ((DbChange.setVerified k).apply d').identities.get id = some x ∨
        Marked id x ((DbChange.setVerified k).apply d')) := by
    rintro d' k (hsame | hmarked)
    · by_cases hk : id = k
      · right
        unfold Marked
        rw [identities_setVerified, hsame]
        simp [hk]
      · left
        rw [identities_setVerified, hsame]
        simp [hk]
    · exact Or.inr (marked_setVerified hmarked)
  induction ids generalizing pending with
  | nil => cases hid
  | cons first rest ih =>
      obtain ⟨_, pending', hfirst, hrest⟩ := Tx.alone_bind_eq_ok h
      by_cases hin : id ∈ rest
      · refine ih hrest hin ?_
        have hsteps : (markVerified user provider first).Guarantees
            fun d d' => (d.identities.get id = some x ∨ Marked id x d) →
              d'.identities.get id = some x ∨ Marked id x d' :=
          guarantees_markVerified (fun d k => hkeep d k) first
        exact Tx.holds_of_reflTransGen
          (P := fun d => d.identities.get id = some x ∨ Marked id x d)
          (hsteps.alone hfirst d) hpending
      · obtain rfl : id = first := by simpa [hin] using hid
        have hmarked : Marked id x (pending' d) := by
          have hwritten := alone_markVerified_self hfirst hget huser hprovider
          dsimp only at hwritten
          rw [hwritten]
          rcases hpending with hsame | hmarked
          · change ((DbChange.setVerified id).apply (pending d)).identities.get id = _
            rw [identities_setVerified, hsame]
            simp
          · exact marked_setVerified hmarked
        have hsteps : (Tx.each (markVerified user provider) rest).Guarantees
            fun d d' => Marked id x d → Marked id x d' :=
          Tx.guarantees_each (guarantees_markVerified fun d k => marked_setVerified) rest
        exact Tx.holds_of_reflTransGen (P := Marked id x) (hsteps.alone hrest d) hmarked

theorem login_of_onlyVerified {users : Table Uuid User} {user : Uuid} {d' : Db}
    (h : OnlyVerified users user d d') (k : Uuid) : d'.login k = d.login k := by
  rcases h.identities k with hsame | ⟨x, hget, _, hmarked⟩
  · exact congrArg (Option.map _) hsame
  · unfold Db.login
    rw [hget, hmarked]
    rfl

theorem address_bumpUser (id user : Uuid) (state : UserState) :
    ((DbChange.setUserState id state).apply d).address user = d.address user := by
  change ((DbChange.bumpUser id fun _ => state).apply d).users.get user >>= User.email = _
  rw [get_bumpUser]
  unfold Db.address
  cases d.users.get user with
  | none => rfl
  | some row =>
      by_cases hu : user = id
      · simp [hu, bumped]
      · simp [hu]

/-- What a verification leaves: the same links, identities and addresses, and all
password identities of the account marked when it answers yes. -/
theorem alone_verifyMailed {hash : Digest} {now : Time} {found : Option Uuid} {result : Bool}
    {change : Db → Db} (h : (verifyMailed hash now found).alone d id = .ok (result, change)) :
    (∀ k, (change d).link k = d.link k) ∧ (∀ k, (change d).login k = d.login k) ∧
      (∀ user, (change d).address user = d.address user) ∧
      (result = true → ∃ k user, d.link k = some (user, hash) ∧
        ∀ id x, d.identities.get id = some x → x.userId = user → x.provider = .password →
          Marked id x (change d)) := by
  obtain ⟨locked, pending, hlock, hrest⟩ := Tx.alone_bind_eq_ok h
  obtain ⟨rfl, hlocked⟩ := alone_lockMailed hlock
  cases locked with
  | none =>
      cases hrest
      exact ⟨fun _ => rfl, fun _ => rfl, fun _ => rfl, by simp⟩
  | some locked =>
      obtain ⟨k, token⟩ := locked
      obtain ⟨_, hget, hhash, _⟩ := hlocked k token rfl
      change Tx.alone d ((DbChange.useMailed k now).apply ∘ id)
        (if (d.users.get token.userId).any verifiable = true then do
          write (DbChange.setUserState token.userId .active)
          Tx.each (markVerified token.userId .password) (d.userView token.userId).passwords
          write (DbChange.addAudit ⟨none, some token.userId, none, "EMAIL_VERIFIED", "success"⟩)
          return true
        else return false : Trans Bool) = .ok (result, change) at hrest
      split at hrest
      · obtain ⟨_, p₁, hbumped, hmarking⟩ := Tx.alone_bind_eq_ok hrest
        cases hbumped
        obtain ⟨_, p₂, hmarks, hend⟩ := Tx.alone_bind_eq_ok hmarking
        cases hend
        have honly := alone_markAll (b := d) hmarks ⟨rfl, fun _ => Or.inl rfl⟩
        have hlink : (Tx.each (markVerified token.userId .password)
            (d.userView token.userId).passwords).Guarantees (Tx.Keeps Db.link) :=
          Tx.guarantees_each (guarantees_markVerified fun _ _ => rfl) _
        refine ⟨fun n => ?_, fun n => login_of_onlyVerified honly n, fun user => ?_, fun _ => ?_⟩
        · have hsame := Tx.keeps_of_reflTransGen (hlink.alone hmarks d)
          refine (congrFun hsame n).trans ?_
          exact link_useMailed k n now
        · change ((p₂ d).users.get user).bind User.email = _
          rw [honly.users]
          exact address_bumpUser token.userId user .active
        · refine ⟨k, token.userId, ?_, fun id x hx huser hprovider => ?_⟩
          · unfold Db.link
            rw [hget, ← hhash]
            rfl
          · refine marked_of_markAll hmarks ?_ hx huser hprovider (Or.inl hx)
            refine List.mem_map.mpr ⟨(id, x), Table.mem_select.mpr ⟨hx, ?_⟩, rfl⟩
            simp [huser, hprovider]
      · cases hrest
        exact ⟨fun n => link_useMailed k n now, fun _ => rfl, fun _ => rfl, by simp⟩

end Steps

section Calls

variable {env : Env} {i : Nat} {pass : World → Bool} {d : Db} {call : Call}

/-- What is known of a call when it is over. -/
def Over (env : Env) (i : Nat) (d : Db) (call : Call) (answer : Except AuthError Result)
    (c' : Core Db World) : Prop :=
  ∃ mailed, Registering env i d c'.db call answer mailed ∧ (mailed = false → Unsent i c'.store)

theorem over_idle {answer : Except AuthError Result} {w : World} (hunsent : Unsent i w)
    (hcall : ∀ token, call ≠ .verifyEmail token) : Over env i d call answer ⟨d, w⟩ :=
  ⟨false, .idle rfl fun token heq => absurd heq (hcall token), fun _ => hunsent⟩

theorem leaves_captcha {k : Unit → Proc Result} {w : World} (hunsent : Unsent i w)
    (hcall : ∀ token, call ≠ .verifyEmail token)
    (h : ∀ w, Unsent i w → Leaves i pass (Over env i d call) (k ()) ⟨d, w⟩) :
    Leaves i pass (Over env i d call) (RegistrationControl.verifyCaptcha >>= k) ⟨d, w⟩ := by
  unfold RegistrationControl.verifyCaptcha
  rw [Prog.bind_assoc]
  refine leaves_choose fun valid => ?_
  have hnext : Unsent i (w.record i (.captcha valid)) := hunsent.record rfl (by simp)
  match valid with
  | none => exact leaves_fail (over_idle hnext hcall)
  | some false => exact leaves_fail (over_idle hnext hcall)
  | some true => exact h _ hnext

theorem leaves_limit {route subject : String} {most window : Nat} {k : Unit → Proc Result}
    {w : World} (hunsent : Unsent i w) (hcall : ∀ token, call ≠ .verifyEmail token)
    (h : ∀ w, Unsent i w → Leaves i pass (Over env i d call) (k ()) ⟨d, w⟩) :
    Leaves i pass (Over env i d call)
      (RegistrationControl.limit route subject most window >>= k) ⟨d, w⟩ := by
  unfold RegistrationControl.limit
  rw [Prog.bind_assoc]
  refine leaves_step ?_
  have hnext : Unsent i ((Redis.count route (.text subject) window w).2.record i
      (.counted route (.text subject) window (Redis.count route (.text subject) window w).1)) :=
    hunsent.record (Event.log_stored (.counted route (.text subject) window 0) w) (by simp)
  dsimp only
  split
  · exact leaves_fail (over_idle hnext hcall)
  · exact h _ hnext

theorem leaves_sendEmail {email : String} {c : Core Db World}
    (h : ∀ answer w, Over env i d call answer ⟨c.db, w⟩) :
    Leaves i pass (Over env i d call) (RegistrationControl.sendEmail email) c := by
  unfold RegistrationControl.sendEmail
  refine leaves_choose fun delivered => ?_
  cases delivered with
  | true => exact Prog.leaves_done (h _ _)
  | false => exact leaves_fail (h _ _)

/-- The reissue of the link of a pending account. -/
theorem leaves_sendEmailToken {user : Uuid} {email : String} {w : World}
    (hcall : call.mailsTo = some email) (haddress : d.address user = some (env.normalizeEmail email))
    (hunsent : Unsent i w) :
    Leaves i pass (Over env i d call)
      (RegistrationControl.sendEmailToken env i user (env.normalizeEmail email)) ⟨d, w⟩ := by
  have hne : ∀ token, call ≠ .verifyEmail token := by
    rintro token rfl
    cases hcall
  unfold RegistrationControl.sendEmailToken issueEmailVerification
  refine leaves_clock fun now => ?_
  rw [Prog.bind_assoc]
  refine leaves_clock fun issued => ?_
  have hready := (hunsent.clock now).clock issued
  refine Prog.leaves_lookup ((lockOnly_insertMailed _ _).bind fun _ => trivial) ?_ ?_
  · intro found change halone
    obtain ⟨_, hinsert, _⟩ := alone_bind_ret halone
    obtain ⟨hfree, husers, hidentities, hlink⟩ := alone_insertMailed hinsert
    refine leaves_sendEmail fun answer w => ⟨true, ?_, by simp⟩
    exact .reissued hcall haddress hfree husers hidentities hlink
  · intro fault
    refine leaves_fail (over_idle ?_ hne)
    exact hready.record rfl (by simp)

theorem address_of_contact {email : String} {existing : PendingContact}
    (h : getByContact .email email d = some existing) :
    d.address existing.userId = some email := by
  unfold getByContact at h
  have hmem := List.mem_of_mem_head? h
  obtain ⟨⟨user, row⟩, hrow, rfl⟩ := List.mem_map.mp hmem
  obtain ⟨hget, hmatch⟩ := Table.mem_select.mp hrow
  simp only [DbChange.contactOf, Bool.and_eq_true, beq_iff_eq] at hmatch
  change (d.users.get user).bind User.email = _
  rw [hget]
  exact hmatch.1

theorem leaves_registerEmail (email password givenName familyName : String) {w : World}
    (hunsent : Unsent i w) :
    Leaves i pass (Over env i d (.registerEmail email password givenName familyName))
      (RegistrationControl.registerEmail env i email password givenName familyName) ⟨d, w⟩ := by
  have hcall : ∀ token, Call.registerEmail email password givenName familyName ≠
      .verifyEmail token := by
    simp
  unfold RegistrationControl.registerEmail
  refine leaves_captcha hunsent hcall fun w hunsent => leaves_limit hunsent hcall fun w hunsent => ?_
  split
  · exact leaves_fail (over_idle hunsent hcall)
  · refine leaves_choose fun found => ?_
    have hnext : Unsent i (w.record i (.recovery (.breached found))) :=
      hunsent.record rfl (by simp)
    match found with
    | none => exact leaves_fail (over_idle hnext hcall)
    | some true => exact leaves_fail (over_idle hnext hcall)
    | some false =>
        refine leaves_look ?_
        have hlooked := fun answer => hnext.record
          (w := w.record i (.recovery (.breached (some false))))
          (e := .recovery (.contact .email (env.normalizeEmail email) answer)) rfl (by simp)
        dsimp only
        cases hlook : getByContact .email (env.normalizeEmail email) d with
        | some existing =>
            dsimp only
            split
            · exact leaves_sendEmailToken rfl (address_of_contact hlook) (hlooked _)
            · exact Prog.leaves_done (over_idle (hlooked _) hcall)
        | none =>
            refine leaves_clock fun now => leaves_clock fun started => ?_
            have hready := ((hlooked none).clock now).clock started
            refine Prog.leaves_txn (lockOnly_insertEmailAccount _) ?_ ?_
            · intro _ change halone
              obtain ⟨hfree, rfl⟩ := alone_insertEmailAccount halone
              refine leaves_sendEmail fun answer w => ⟨true, ?_, by simp⟩
              exact .created rfl rfl rfl rfl hfree rfl
            · intro fault _
              cases fault with
              | integrity => exact Prog.leaves_done (over_idle hready hcall)
              | deadlock => exact leaves_fail (over_idle hready hcall)
              | thrown error => exact leaves_fail (over_idle hready hcall)

theorem leaves_requestEmailVerification (email : String) {w : World} (hunsent : Unsent i w) :
    Leaves i pass (Over env i d (.requestEmailVerification email))
      (RegistrationControl.requestEmailVerification env i email) ⟨d, w⟩ := by
  have hcall : ∀ token, Call.requestEmailVerification email ≠ .verifyEmail token := by simp
  unfold RegistrationControl.requestEmailVerification
  refine leaves_captcha hunsent hcall fun w hunsent => leaves_limit hunsent hcall fun w hunsent => ?_
  refine leaves_look ?_
  have hlooked := fun answer => hunsent.record (w := w)
    (e := .recovery (.contact .email (env.normalizeEmail email) answer)) rfl (by simp)
  dsimp only
  cases hlook : getByContact .email (env.normalizeEmail email) d with
  | none => exact Prog.leaves_done (over_idle (hlooked _) hcall)
  | some existing =>
      dsimp only
      split
      · exact leaves_sendEmailToken rfl (address_of_contact hlook) (hlooked _)
      · exact Prog.leaves_done (over_idle (hlooked _) hcall)

theorem leaves_verifyEmail (token : Token) {w : World} (hunsent : Unsent i w) :
    Leaves i pass (Over env i d (.verifyEmail token))
      (RegistrationControl.verifyEmail env token) ⟨d, w⟩ := by
  unfold RegistrationControl.verifyEmail
  refine leaves_clock fun now => ?_
  refine Prog.leaves_lookup ((lockOnly_verifyMailed _ _ _).bind fun _ => trivial) ?_ ?_
  · intro result change halone
    obtain ⟨valid, hverify, rfl⟩ := alone_bind_ret halone
    obtain ⟨hlink, hlogin, haddress, hmarked⟩ := alone_verifyMailed hverify
    have hover : ∀ answer w', (∀ value, answer = .ok value → valid = true) → Unsent i w' →
        Over env i d (.verifyEmail token) answer ⟨change d, w'⟩ := by
      intro answer w' hvalid hunsent'
      refine ⟨false, .verified hlink hlogin haddress fun value heq => ?_, fun _ => hunsent'⟩
      exact hmarked (hvalid value heq)
    have hready : ∀ found, Unsent i (((w.record i (.clock now)).record i
        (.recovery (.mailedFound (env.verificationHash token) found))).record i
          (.recovery (.emailVerified (env.verificationHash token) now found valid))) :=
      fun found => ((hunsent.clock now).record rfl (by simp)).record rfl (by simp)
    cases valid with
    | true => exact Prog.leaves_done (hover _ _ (fun _ _ => rfl) (hready _))
    | false => exact leaves_fail (hover _ _ (by simp) (hready _))
  · intro fault
    refine leaves_fail ⟨false, .idle rfl fun _ _ => by simp, fun _ => ?_⟩
    exact (hunsent.clock now).record rfl (by simp)

theorem leaves_registering (hcall : call.verifiesEmail) {c : Core Db World}
    (hunsent : Unsent i c.store) :
    Leaves i pass (Over env i c.db call) (program env i call) c := by
  rcases hcall with hmails | ⟨token, rfl⟩
  · cases call with
    | registerEmail email password givenName familyName =>
        exact leaves_registerEmail email password givenName familyName hunsent
    | requestEmailVerification email => exact leaves_requestEmailVerification email hunsent
    | _ => cases hmails
  · exact leaves_verifyEmail token hunsent

/-- A call made with nobody else around. -/
theorem over_of_solo (hcall : call.verifiesEmail) {c c' : Core Db World}
    {answer : Except AuthError Result} (hunsent : Unsent i c.store)
    (h : (application env).solo pass i call c = some (answer, c')) :
    Over env i c.db call answer c' := by
  obtain ⟨⟨answer', c''⟩, hsolo, heq⟩ := Option.map_eq_some_iff.mp h
  obtain ⟨rfl, rfl⟩ := Prod.mk.inj heq
  have hcalled : Unsent i (c.store.record i (.called call)) := hunsent.record rfl (by simp)
  obtain ⟨mailed, hregistering, hquiet⟩ :=
    leaves_registering hcall (c := ⟨c.db, c.store.record i (.called call)⟩) hcalled _ _ hsolo
  exact ⟨mailed, hregistering, fun hmailed => (hquiet hmailed).record rfl (by simp)⟩

end Calls

section Run

variable {env : Env} {address : String} {d d' : Db} {i : Nat} {call : Call}
  {answer : Except AuthError Result} {mailed : Bool}

theorem link_free {hash : Digest} (h : (IndexKey.mailedToken hash).entries d = []) (k user : Uuid) :
    d.link k ≠ some (user, hash) := by
  intro hlink
  obtain ⟨token, hget, heq⟩ := Option.map_eq_some_iff.mp hlink
  have hmem : k ∈ (IndexKey.mailedToken hash).entries d := by
    refine List.mem_map.mpr ⟨(k, token), Table.mem_select.mpr ⟨hget, ?_⟩, rfl⟩
    simpa using (Prod.mk.inj heq).2
  rw [h] at hmem
  cases hmem

theorem login_free (h : (IndexKey.identity .password address).entries d = []) (k : Uuid)
    (x : Identity) (hlogin : d.login k = some x) : ¬LogsIn address x := by
  rintro ⟨hprovider, hsubject⟩
  obtain ⟨y, hget, rfl⟩ := Option.map_eq_some_iff.mp hlogin
  have hmem : k ∈ (IndexKey.identity .password address).entries d := by
    refine List.mem_map.mpr ⟨(k, y), Table.mem_select.mpr ⟨hget, ?_⟩, rfl⟩
    simpa using ⟨hprovider, hsubject⟩
  rw [h] at hmem
  cases hmem

/-- The identity that a registration adds. -/
def newLogin (args : EmailArgs) : Identity :=
  ⟨.drawn args.call 0, .password, args.email, some args.passwordHash, false⟩

theorem login_registered (args : EmailArgs) (k : Uuid) :
    (registered args d).login k =
      (d.login k).or (if k = .drawn args.call 2 then some (newLogin args) else none) := by
  change ((d.identities.add _ _).get k).map _ = ((d.identities.get k).map _).or _
  rw [Table.get_add]
  cases d.identities.get k with
  | some x => rfl
  | none =>
      by_cases hk : k = .drawn args.call 2
      · simp [hk, newLogin]
      · simp [hk]

theorem link_registered (args : EmailArgs) (k : Uuid) :
    (registered args d).link k = (d.link k).or
      (if k = .drawn args.call 4 then some (.drawn args.call 0, args.tokenHash) else none) := by
  change ((d.ephemeral.add _ _).get k).map _ = ((d.ephemeral.get k).map _).or _
  rw [Table.get_add]
  cases d.ephemeral.get k with
  | some token => rfl
  | none =>
      by_cases hk : k = .drawn args.call 4
      · simp [hk]
      · simp [hk]

theorem address_registered {args : EmailArgs} (hnew : d.users.get (.drawn args.call 0) = none)
    (user : Uuid) :
    (registered args d).address user =
      if user = .drawn args.call 0 then some args.email else d.address user := by
  change ((d.users.add _ _).get user).bind _ = _
  rw [Table.get_add_of_new hnew]
  by_cases hu : user = .drawn args.call 0
  · simp [hu]
  · simp [hu, Db.address]

/-- Whoever has the address has its only password identity, and the calls that
are yet to be made have drawn nothing. -/
structure Tidy (address : String) (made : List Nat) (d : Db) : Prop where
  logins : ∀ i n, i ∉ made → d.login (.drawn i n) = none
  links : ∀ i n, i ∉ made → d.link (.drawn i n) = none
  own : ∀ user, d.address user = some address →
    ∃ id x, d.login id = some x ∧ x.userId = user ∧ LogsIn address x
  single : ∀ id id' x x', d.login id = some x → LogsIn address x →
    d.login id' = some x' → LogsIn address x' → id' = id

/-- A link with this digest leads to the user, whose password identity is `x`. -/
structure Linked (address : String) (hash : Digest) (user id : Uuid) (x : Identity) (d : Db) :
    Prop where
  stored : ∃ k, d.link k = some (user, hash)
  only : ∀ k other, d.link k = some (other, hash) → other = user
  login : d.login id = some x
  single : ∀ id' x', d.login id' = some x' → LogsIn address x' → id' = id

theorem Tidy.registering {made : List Nat} (h : Tidy address made d) (hnew : i ∉ made)
    (hstep : Registering env i d d' call answer mailed) : Tidy address (i :: made) d' := by
  have hother : ∀ j, j ∉ i :: made → j ≠ i ∧ j ∉ made := by
    intro j hj
    simpa using hj
  cases hstep with
  | idle heq _ =>
      subst heq
      exact ⟨fun j n hj => h.logins j n (hother j hj).2, fun j n hj => h.links j n (hother j hj).2,
        h.own, h.single⟩
  | @created email password givenName familyName args _ _ _ _ hcall hfree heq =>
      subst heq
      obtain rfl := hcall
      constructor
      · intro j n hj
        obtain ⟨hne, hj⟩ := hother j hj
        simp [login_registered, h.logins j n hj, hne]
      · intro j n hj
        obtain ⟨hne, hj⟩ := hother j hj
        simp [link_registered, h.links j n hj, hne]
      · intro user huser
        rw [address_registered hfree.user] at huser
        split at huser
        · rename_i hmine
          cases huser
          refine ⟨.drawn args.call 2, newLogin args, ?_, hmine.symm, rfl, rfl⟩
          rw [login_registered, h.logins _ _ hnew]
          simp
        · obtain ⟨id, x, hlogin, hx⟩ := h.own user huser
          refine ⟨id, x, ?_, hx⟩
          rw [login_registered, hlogin]
          rfl
      · intro id id' x x' hlogin hx hlogin' hx'
        have hcases : ∀ k y, (registered args d).login k = some y → LogsIn address y →
            d.login k = some y ∨ k = .drawn args.call 2 ∧ args.email = address := by
          intro k y hk hy
          rw [login_registered, Option.or_eq_some_iff] at hk
          rcases hk with hold | ⟨_, hadded⟩
          · exact Or.inl hold
          · rw [Option.ite_none_right_eq_some, Option.some.injEq] at hadded
            obtain ⟨rfl, rfl⟩ := hadded
            exact Or.inr ⟨rfl, hy.2⟩
        rcases hcases id x hlogin hx with hold | ⟨rfl, rfl⟩
        · rcases hcases id' x' hlogin' hx' with hold' | ⟨rfl, rfl⟩
          · exact h.single id id' x x' hold hx hold' hx'
          · exact absurd hx (login_free hfree.login id x hold)
        · rcases hcases id' x' hlogin' hx' with hold' | ⟨rfl, _⟩
          · exact absurd hx' (login_free hfree.login id' x' hold')
          · rfl
  | reissued _ _ _ husers hidentities hlink =>
      have hlogin : ∀ k, d'.login k = d.login k := by
        intro k
        unfold Db.login
        rw [hidentities]
      have haddress : ∀ user, d'.address user = d.address user := by
        intro user
        unfold Db.address
        rw [husers]
      constructor
      · intro j n hj
        rw [hlogin]
        exact h.logins j n (hother j hj).2
      · intro j n hj
        obtain ⟨hne, hj⟩ := hother j hj
        simp [hlink, h.links j n hj, hne]
      · simpa only [haddress, hlogin] using h.own
      · simpa only [hlogin] using h.single
  | verified hlink hlogin haddress _ =>
      constructor
      · intro j n hj
        rw [hlogin]
        exact h.logins j n (hother j hj).2
      · intro j n hj
        rw [hlink]
        exact h.links j n (hother j hj).2
      · simpa only [haddress, hlogin] using h.own
      · simpa only [hlogin] using h.single

theorem Linked.registering {hash : Digest} {user id : Uuid} {x : Identity}
    (h : Linked address hash user id x d) (hx : LogsIn address x)
    (hstep : Registering env i d d' call answer mailed) : Linked address hash user id x d' := by
  -- A new link has another digest than the stored one.
  have hadded : ∀ {k₀ other₀ : Uuid} {hash₀ : Digest},
      (IndexKey.mailedToken hash₀).entries d = [] →
      (∀ k, d'.link k = (d.link k).or (if k = k₀ then some (other₀, hash₀) else none)) →
      (∃ k, d'.link k = some (user, hash)) ∧
        ∀ k other, d'.link k = some (other, hash) → other = user := by
    intro k₀ other₀ hash₀ hfree hlink
    obtain ⟨k, hk⟩ := h.stored
    refine ⟨⟨k, by rw [hlink, hk]; rfl⟩, fun k' other hk' => ?_⟩
    rw [hlink, Option.or_eq_some_iff] at hk'
    rcases hk' with hold | ⟨_, hnew⟩
    · exact h.only k' other hold
    · rw [Option.ite_none_right_eq_some, Option.some.injEq, Prod.mk.injEq] at hnew
      obtain ⟨_, _, rfl⟩ := hnew
      exact absurd hk (link_free hfree k user)
  cases hstep with
  | idle heq _ =>
      subst heq
      exact h
  | @created email password givenName familyName args _ _ _ _ _ hfree heq =>
      subst heq
      obtain ⟨hstored, honly⟩ := hadded hfree.link (link_registered args)
      refine ⟨hstored, honly, ?_, fun id' x' hlogin' hx' => ?_⟩
      · rw [login_registered, h.login]
        rfl
      · rw [login_registered, Option.or_eq_some_iff] at hlogin'
        rcases hlogin' with hold | ⟨_, hnew⟩
        · exact h.single id' x' hold hx'
        · rw [Option.ite_none_right_eq_some, Option.some.injEq] at hnew
          obtain ⟨_, rfl⟩ := hnew
          obtain rfl : args.email = address := hx'.2
          exact absurd hx (login_free hfree.login id x h.login)
  | reissued _ _ hfree husers hidentities hlink =>
      have hlogin : ∀ k, d'.login k = d.login k := by
        intro k
        unfold Db.login
        rw [hidentities]
      obtain ⟨hstored, honly⟩ := hadded hfree hlink
      refine ⟨hstored, honly, (hlogin id).trans h.login, ?_⟩
      simpa only [hlogin] using h.single
  | verified hlink hlogin _ _ =>
      refine ⟨?_, ?_, (hlogin id).trans h.login, ?_⟩
      · simpa only [hlink] using h.stored
      · simpa only [hlink] using h.only
      · simpa only [hlogin] using h.single

/-- A registration that had a link mailed: the link leads to the account of the
address, and its password is the one given now only if none was stored before or
that one is the same. -/
theorem linked_of_registered (hhasher : HasherCorrect env) {made : List Nat}
    (h : Tidy address made d) (hnew : i ∉ made) {email password givenName familyName : String}
    (haddress : env.normalizeEmail email = address)
    (hstep : Registering env i d d' (.registerEmail email password givenName familyName) answer
      true) :
    ∃ user id x, Linked address (env.verificationHash (.drawn i 5)) user id x d' ∧
      x.userId = user ∧ LogsIn address x ∧
      (TakesPassword env password x ↔
        ∀ id' x', d.login id' = some x' → LogsIn address x' → TakesPassword env password x') := by
  have hlater := h.registering hnew hstep
  cases hstep with
  | @created _ _ _ _ args _ hemail hhash htoken hcall hfree heq =>
      subst heq
      obtain rfl : args.email = address := hemail.trans haddress
      obtain rfl := hcall
      have hmine : (registered args d).login (.drawn args.call 2) = some (newLogin args) := by
        rw [login_registered, h.logins _ _ hnew]
        simp
      refine ⟨.drawn args.call 0, .drawn args.call 2, newLogin args, ?_, rfl, ⟨rfl, rfl⟩, ?_⟩
      · refine ⟨⟨.drawn args.call 4, ?_⟩, fun k other hk => ?_, hmine, fun id' x' hx' hin => ?_⟩
        · rw [link_registered, h.links _ _ hnew, htoken]
          simp
        · rw [link_registered, Option.or_eq_some_iff] at hk
          rcases hk with hold | ⟨_, hadded⟩
          · exact absurd hold (link_free (htoken ▸ hfree.link) k other)
          · rw [Option.ite_none_right_eq_some, Option.some.injEq, Prod.mk.injEq] at hadded
            exact hadded.2.1.symm
        · exact hlater.single _ id' _ x' hmine ⟨rfl, rfl⟩ hx' hin
      · constructor
        · intro _ id' x' hx' hin
          exact absurd hin (login_free hfree.login id' x' hx')
        · intro _
          refine ⟨args.passwordHash, rfl, ?_⟩
          rw [hhash]
          exact (hhasher _ _ _).mpr rfl
  | @reissued _ email' user _ hmails haddress' hfree husers hidentities hlink =>
      cases hmails
      rw [haddress] at haddress'
      have hlogin : ∀ k, d'.login k = d.login k := by
        intro k
        unfold Db.login
        rw [hidentities]
      obtain ⟨id, x, hx, howner, hin⟩ := h.own user haddress'
      refine ⟨user, id, x, ?_, howner, hin, ?_⟩
      · refine ⟨⟨.drawn i 4, ?_⟩, fun k other hk => ?_, (hlogin id).trans hx,
          fun id' x' hx' hin' => ?_⟩
        · rw [hlink, h.links i 4 hnew]
          simp
        · rw [hlink, Option.or_eq_some_iff] at hk
          rcases hk with hold | ⟨_, hadded⟩
          · exact absurd hold (link_free hfree k other)
          · rw [Option.ite_none_right_eq_some, Option.some.injEq, Prod.mk.injEq] at hadded
            exact hadded.2.1.symm
        · rw [hlogin] at hx'
          exact h.single id id' x x' hx hin hx' hin'
      · constructor
        · intro htakes id' x' hx' hin'
          obtain rfl := h.single id id' x x' hx hin hx' hin'
          rw [hx, Option.some.injEq] at hx'
          exact hx' ▸ htakes
        · exact fun hall => hall id x hx hin

/-- A call whose number is new and that is about an address. -/
theorem registering_of_sequential {c c' c'' : Core Db World}
    {calls : List (Nat × (application env).Call)}
    {pass : World → Bool} (hlog : c.store.log = [])
    (h : Service.Sequential (application env) c calls c') (hnew : i ∉ calls.map Prod.fst)
    (hcall : call.verifiesEmail)
    (hsolo : (application env).solo pass i call c' = some (answer, c'')) :
    ∃ mailed, Registering env i c'.db c''.db call answer mailed ∧
      (mailed = false → Unsent i c''.store) :=
  over_of_solo hcall (unsent_of_sequential hlog h hnew) hsolo

theorem tidy_of_sequential {c c' : Core Db World} {calls : List (Nat × (application env).Call)}
    (hlog : c.store.log = []) (hstart : Tidy address [] c.db)
    (h : Service.Sequential (application env) c calls c')
    (hcalls : ∀ entry ∈ calls, entry.2.verifiesEmail) :
    Tidy address (calls.map Prod.fst) c'.db := by
  induction h with
  | start => exact hstart
  | call hbefore hnew hsolo ih =>
      obtain ⟨mailed, hstep, _⟩ := registering_of_sequential hlog hbefore hnew
        (hcalls _ List.mem_cons_self) hsolo
      exact (ih fun entry hentry => hcalls entry (List.mem_cons_of_mem _ hentry)).registering hnew
        hstep
  | tick n _ ih => exact ih hcalls

/-- The calls after a registration do not move its link. -/
theorem linked_of_sequential {c c₁ c₂ : Core Db World}
    {calls later : List (Nat × (application env).Call)} (hlog : c.store.log = [])
    (hbefore : Service.Sequential (application env) c calls c₁) {hash : Digest} {user id : Uuid}
    {x : Identity} (hx : LogsIn address x) (hlinked : Linked address hash user id x c₁.db)
    (h : Service.Sequential (application env) c₁ later c₂)
    (hnew : ∀ i ∈ later.map Prod.fst, i ∉ calls.map Prod.fst)
    (hcalls : ∀ entry ∈ later, Call.verifiesEmail entry.2) :
    Linked address hash user id x c₂.db := by
  induction h with
  | start => exact hlinked
  | @call later c' c'' i call pass answer hlater hfirst hsolo ih =>
      simp only [List.map_cons, List.forall_mem_cons] at hnew
      have hrun := hbefore.append hlater hnew.2
      have hfresh : i ∉ (later ++ calls).map Prod.fst := by
        rw [List.map_append, List.mem_append]
        exact not_or.mpr ⟨hfirst, hnew.1⟩
      obtain ⟨mailed, hstep, _⟩ := registering_of_sequential hlog hrun hfresh
        (hcalls _ List.mem_cons_self) hsolo
      exact (ih hnew.2 fun entry hentry => hcalls entry (List.mem_cons_of_mem _ hentry)).registering
        hx hstep
  | tick n _ ih => exact ih hnew hcalls

end Run

/-- A state in which nobody has the address, and no row has an identifier that a
call is yet to draw. -/
structure Unclaimed (address : String) (d : Db) : Prop where
  users : ∀ user row, d.users.get user = some row → row.email ≠ some address
  identities : ∀ id x, d.identities.get id = some x → ¬LogsIn address x
  undrawnIdentities : ∀ i n, d.identities.get (.drawn i n) = none
  undrawnTokens : ∀ i n, d.ephemeral.get (.drawn i n) = none

theorem Unclaimed.tidy {address : String} {d : Db} (h : Unclaimed address d) :
    Tidy address [] d where
  logins i n _ := by simp [Db.login, h.undrawnIdentities i n]
  links i n _ := by simp [Db.link, h.undrawnTokens i n]
  own user huser := by
    obtain ⟨row, hrow, hemail⟩ := Option.bind_eq_some_iff.mp huser
    exact absurd hemail (h.users user row hrow)
  single id _ x _ hx hin _ _ := by
    obtain ⟨y, hy, rfl⟩ := Option.map_eq_some_iff.mp hx
    exact absurd hin (h.identities id y hy)

/-- A registration of the address had a link mailed and the link is used later on,
with any calls that register and verify addresses before and in between: the
password identity of the address is then verified, and it accepts the password of
that registration exactly if no password was stored for the address before or the
stored one accepts it as well. -/
theorem verified_password {env : Env} (hhasher : HasherCorrect env) {address : String}
    {c c₁ c₂ c₃ c₄ : Core Db World} (hlog : c.store.log = []) (hstart : Unclaimed address c.db)
    {earlier later : List (Nat × (application env).Call)}
    (hearlier : Service.Sequential (application env) c earlier c₁)
    (hcalls : ∀ entry ∈ later ++ earlier, Call.verifiesEmail entry.2) {j : Nat}
    (hj : j ∉ earlier.map Prod.fst) {email password givenName familyName : String}
    (haddress : env.normalizeEmail email = address) {pass : World → Bool}
    {answer : Except AuthError Result}
    (hregister : (application env).solo pass j
      (.registerEmail email password givenName familyName) c₁ = some (answer, c₂))
    {recipient : String} {delivered : Bool}
    (hsent : (j, .sent recipient delivered) ∈ c₂.store.log)
    (hlater : Service.Sequential (application env) c₂ later c₃)
    (hfresh : ∀ i ∈ later.map Prod.fst, i ≠ j ∧ i ∉ earlier.map Prod.fst) {k : Nat}
    (hk : k ≠ j ∧ k ∉ (later ++ earlier).map Prod.fst) {pass' : World → Bool} {value : Result}
    (huse : (application env).solo pass' k (.verifyEmail (.drawn j 5)) c₃ =
      some (.ok value, c₄)) :
    ∃ id x, c₄.db.identities.get id = some x ∧ LogsIn address x ∧ x.verified = true ∧
      (∀ id' x', c₄.db.identities.get id' = some x' → LogsIn address x' → id' = id) ∧
      (TakesPassword env password x ↔ ∀ id' x', c₁.db.identities.get id' = some x' →
        LogsIn address x' → TakesPassword env password x') := by
  have htidy := tidy_of_sequential hlog hstart.tidy hearlier fun entry hentry =>
    hcalls entry (List.mem_append_right _ hentry)
  obtain ⟨mailed, hstep, hquiet⟩ :=
    registering_of_sequential hlog hearlier hj (Or.inl rfl) hregister
  have hmailed : mailed = true := by
    cases mailed with
    | true => rfl
    | false => exact absurd hsent (hquiet rfl recipient delivered)
  subst hmailed
  obtain ⟨user, id, x, hlinked, howner, hin, htakes⟩ :=
    linked_of_registered hhasher htidy hj haddress hstep
  have hrun := hearlier.call hj hregister
  have hnew : ∀ i ∈ later.map Prod.fst, i ∉ j :: earlier.map Prod.fst := by
    intro i hi
    rw [List.mem_cons, not_or]
    exact hfresh i hi
  have hlast := linked_of_sequential hlog hrun hin hlinked hlater hnew fun entry hentry =>
    hcalls entry (List.mem_append_left _ hentry)
  have hused := hrun.append hlater hnew
  have hkfresh : k ∉ later.map Prod.fst ++ j :: earlier.map Prod.fst := by
    simp only [List.map_append, List.mem_append, List.mem_cons, not_or] at hk ⊢
    exact ⟨hk.2.1, hk.1, hk.2.2⟩
  obtain ⟨_, hverify, _⟩ := registering_of_sequential hlog hused
    (by rw [List.map_append]; exact hkfresh) (Or.inr ⟨_, rfl⟩) huse
  have hafter := hlast.registering hin hverify
  cases hverify with
  | idle _ hnone => exact absurd rfl (hnone _ rfl value)
  | reissued hmails => cases hmails
  | verified _ _ _ hmarks =>
      obtain ⟨link, user', hlink, hmarked⟩ := hmarks value rfl
      obtain rfl := hlast.only link user' hlink
      obtain ⟨y, hy, rfl⟩ := Option.map_eq_some_iff.mp hlast.login
      refine ⟨id, { y with verified := true }, hmarked id y hy howner hin.1, hin, rfl, ?_, ?_⟩
      · intro id' x' hx' hin'
        exact hafter.single id' { x' with verified := false } (by simp [Db.login, hx']) hin'
      · refine Iff.trans htakes ⟨fun hall id' x' hx' hin' => ?_, fun hall id' x' hx' hin' => ?_⟩
        · exact hall id' { x' with verified := false } (by simp [Db.login, hx']) hin'
        · obtain ⟨z, hz, rfl⟩ := Option.map_eq_some_iff.mp hx'
          exact hall id' z hz hin'

/-- The state after a call with nobody else around. -/
def afterCall (i : Nat) (call : Call) (c : Core Db World) : Core Db World :=
  (((application sampleEnv).solo (fun _ => true) i call c).map Prod.snd).getD c

def sampleSignup (password : String) : Call :=
  .registerEmail "ann" password "Ann" "Lee"

/-- Ann's address has been registered with `p1`. -/
def onceRegistered : Core Db World :=
  afterCall 0 (sampleSignup "p1") (sampleStart emptyDb)

/-- It has been registered again with `password`. -/
def twiceRegistered (password : String) : Core Db World :=
  afterCall 1 (sampleSignup password) onceRegistered

/-- The link of the second registration has been used. -/
def secondVerified (password : String) : Core Db World :=
  afterCall 2 (.verifyEmail (.drawn 1 5)) (twiceRegistered password)

theorem unclaimed_emptyDb : Unclaimed "ann" (sampleStart emptyDb).db where
  users user row h := by cases h
  identities id x h := by cases h
  undrawnIdentities _ _ := rfl
  undrawnTokens _ _ := rfl

theorem sequential_onceRegistered :
    Service.Sequential (application sampleEnv) (sampleStart emptyDb) [(0, sampleSignup "p1")]
      onceRegistered := by
  have hsolo : ((application sampleEnv).solo (fun _ => true) 0 (sampleSignup "p1")
      (sampleStart emptyDb)).map Prod.fst = some (.ok .nothing) := by
    decide +kernel
  exact .call .start (by simp) (solo_of_fst (c := sampleStart emptyDb) hsolo)

/-- Whether call `i` has sent something to this recipient. -/
def hasSent (i : Nat) (recipient : String) (w : World) : Bool :=
  w.log.any fun
    | (j, .sent other _) => j == i && other == recipient
    | _ => false

theorem sent_of_hasSent {i : Nat} {recipient : String} {w : World}
    (h : hasSent i recipient w = true) : ∃ delivered, (i, .sent recipient delivered) ∈ w.log := by
  obtain ⟨⟨j, e⟩, hmem, hmatch⟩ := List.any_eq_true.mp h
  cases e with
  | sent other delivered =>
      simp only [Bool.and_eq_true, beq_iff_eq] at hmatch
      obtain ⟨rfl, rfl⟩ := hmatch
      exact ⟨delivered, hmem⟩
  | _ => cases hmatch

theorem verified_password_same :
    ∃ id x, (secondVerified "p1").db.identities.get id = some x ∧ LogsIn "ann" x ∧
      x.verified = true ∧
      (∀ id' x', (secondVerified "p1").db.identities.get id' = some x' → LogsIn "ann" x' →
        id' = id) ∧
      (TakesPassword sampleEnv "p1" x ↔ ∀ id' x', onceRegistered.db.identities.get id' = some x' →
        LogsIn "ann" x' → TakesPassword sampleEnv "p1" x') := by
  have hregister : ((application sampleEnv).solo (fun _ => true) 1 (sampleSignup "p1")
      onceRegistered).map Prod.fst = some (.ok .nothing) := by
    decide +kernel
  have huse : ((application sampleEnv).solo (fun _ => true) 2 (.verifyEmail (.drawn 1 5))
      (twiceRegistered "p1")).map Prod.fst = some (.ok .nothing) := by
    decide +kernel
  obtain ⟨delivered, hsent⟩ := sent_of_hasSent
    (show hasSent 1 "ann" (twiceRegistered "p1").store = true by decide +kernel)
  exact verified_password hasherCorrect_sampleEnv rfl unclaimed_emptyDb sequential_onceRegistered
    (by
      intro entry hentry
      obtain rfl := List.mem_singleton.mp hentry
      exact Or.inl rfl)
    (by simp) rfl (solo_of_fst (c := onceRegistered) hregister) hsent .start (by simp) (by simp)
    (solo_of_fst (c := twiceRegistered "p1") huse)

/-- Ann registers with `p1`, somebody registers her address with `p2`, and the
link of the second registration makes `p1` valid. -/
theorem first_password_verified :
    HasherCorrect sampleEnv ∧ Unclaimed "ann" (sampleStart emptyDb).db ∧
      Service.Sequential (application sampleEnv) (sampleStart emptyDb) [(0, sampleSignup "p1")]
        onceRegistered ∧
      ((application sampleEnv).solo (fun _ => true) 1 (sampleSignup "p2")
        onceRegistered).map Prod.fst = some (.ok .nothing) ∧
      hasSent 1 "ann" (twiceRegistered "p2").store = true ∧
      ((application sampleEnv).solo (fun _ => true) 2 (.verifyEmail (.drawn 1 5))
        (twiceRegistered "p2")).map Prod.fst = some (.ok .nothing) ∧
      ((secondVerified "p2").db.identities.select fun _ x => x.verified).map
          (fun entry => (entry.2.providerSubject, entry.2.passwordHash)) =
        [("ann", some "hashed p1")] ∧
      sampleEnv.passwordVerify "hashed p1" "p2" = false := by
  refine ⟨hasherCorrect_sampleEnv, unclaimed_emptyDb, sequential_onceRegistered, ?_, ?_, ?_, ?_, ?_⟩
  · decide +kernel
  · decide +kernel
  · decide +kernel
  · decide +kernel
  · decide +kernel

end AuthCore
