/-
Whose referral it is: over every interleaving a used referral names the account that was registered
for its address, and each account was referred at most once.  Under the row policy of the
migrations, which hides a referral from the account it invites, no referral is ever used.
-/
import AuthCore.Referrals.Service
import AuthCore.Model.Sample

namespace AuthCore

open Interleave Relational ReferralRepository RegistrationRepository

/-- What becomes of a referral without a registration. -/
inductive Closes (r : Referral) : Referral → Prop
  | closed (state : ReferralState) : r.state = .invited → state = .expired ∨ state = .revoked →
      Closes r { r with state := state }
  | completed : r.state = .registered → Closes r { r with state := .verified }
  | withdrawn (address : String) : Closes r (DbChange.withdrawn address r)

/-- The commit of a registration: a new user, then perhaps a claim, then its login. -/
structure Registers (env : Env) (sees : Uuid → Referral → Bool) (args : EmailArgs) (d d' : Db) :
    Prop where
  fresh : d.users.get (.drawn args.call 0) = none
  steps : ∃ d₁ d₂, Untouched d d₁ ∧ (d₁.users.get (.drawn args.call 0)).isSome ∧
    (d₂ = d₁ ∨ ∃ id hash, d₂ = (ReferralChange.set id
      (fun r => sees (.drawn args.call 0) r &&
        claimable env.normalizeEmail hash args.email (.drawn args.call 0) args.started r)
      (registeredBy (.drawn args.call 0)) fun _ => rfl).apply d₁) ∧
    Untouched d₂ d'

/-- What the statements of the calls keep. -/
structure ReferralWrites (env : Env) (sees : Uuid → Referral → Bool) (J : Core Db World → Prop) :
    Prop where
  close : ∀ (c : Core Db World) id cond g hg, (∀ r, cond r = true → Closes r (g r)) → J c →
    J ⟨(ReferralChange.set id cond g hg).apply c.db, c.store⟩
  invite : ∀ (c : Core Db World) id (r : Referral), r.state = .invited → r.referredUserId = none →
    J c → J ⟨(ReferralChange.add id r).apply c.db, c.store⟩
  delete : ∀ (c : Core Db World) id hash cond, J c →
    J ⟨(ReferralChange.delete id hash cond).apply c.db, c.store⟩
  untouched : ∀ (c : Core Db World) d, Untouched c.db d → J c → J ⟨d, c.store⟩
  store : ∀ (c : Core Db World) (w : World), (∀ entry ∈ c.store.log, entry ∈ w.log) → J c →
    J ⟨c.db, w⟩
  register : ∀ (c : Core Db World) d i args, Registers env sees args c.db d → J c →
    J ⟨d, c.store.record i (.recovery (.emailRegistered args))⟩

theorem upholds_lockReferral {J : Core Db World → Prop} (id : Uuid) :
    (lockReferral id).Upholds J :=
  fun _ => trivial

theorem lockOnly_lockReferral (id : Uuid) : (lockReferral id).LockOnly :=
  fun _ => trivial

theorem upholds_ask {J : Core Db World → Prop} {β : Type} (query : Db → β) :
    (ReferralRepository.ask query).Upholds J :=
  ⟨fun _ _ _ hc => hc, fun _ => trivial⟩

section Writes

variable {env : Env} {sees : Uuid → Referral → Bool} {J : Core Db World → Prop}
  (h : ReferralWrites env sees J)
include h

theorem ReferralWrites.record (c : Core Db World) (i : Nat) (e : Event) (hc : J c) :
    J ⟨c.db, c.store.record i e⟩ :=
  h.store c _ (fun _ hmem => List.mem_cons_of_mem _ hmem) hc

theorem upholds_changeRow {user : Uuid} {cond : Referral → Bool} {g : Referral → Referral}
    {hg : ∀ r, (g r).tokenHash = r.tokenHash} (hcloses : ∀ r, cond r = true → Closes r (g r))
    (id : Uuid) : (changeRow sees user cond g hg id).Upholds J := by
  refine (upholds_lockReferral id).bind fun row => ?_
  cases row with
  | none => trivial
  | some row =>
      dsimp only
      split
      · split
        · refine ⟨fun c hc => h.close c id _ g hg (fun r hr => ?_) hc, trivial⟩
          rw [Bool.and_eq_true] at hr
          exact hcloses r hr.2
        · trivial
      · trivial

theorem upholds_update {user : Uuid} {cond : Referral → Bool} {g : Referral → Referral}
    {hg : ∀ r, (g r).tokenHash = r.tokenHash} (hcloses : ∀ r, cond r = true → Closes r (g r)) :
    (update sees user cond g hg).Upholds J :=
  ⟨fun _ _ _ hc => hc, fun found => Tx.upholds_each (upholds_changeRow h hcloses) found⟩

theorem upholds_delete (user : Uuid) (cond : Referral → Bool) :
    (delete sees user cond).Upholds J := by
  refine ⟨fun _ _ _ hc => hc, fun found => Tx.upholds_each (fun id => ?_) found⟩
  refine (upholds_lockReferral id).bind fun row => ?_
  cases row with
  | none => trivial
  | some row =>
      dsimp only
      split
      · exact ⟨fun c hc => h.delete c _ _ _ hc, trivial⟩
      · trivial

theorem upholds_insertReferral (args : ReferralArgs) :
    (insertReferral sees args).Upholds J := by
  refine (upholds_lockReferral args.referralId).bind fun taken holders => ?_
  change Tx.Upholds J (if _ then _ else _)
  split
  · trivial
  · split
    · exact ⟨fun c hc => h.invite c _ _ rfl rfl hc,
        fun c hc => h.untouched c _ ⟨rfl, fun _ hd => hd⟩ hc, trivial⟩
    · trivial

end Writes

section Registration

variable {env : Env} {sees : Uuid → Referral → Bool} {args : EmailArgs} {d : Db}

/-- The first half of a registration finds the user's key free and takes it. -/
theorem alone_insertEmailUser {pending : Db → Db}
    (h : (insertEmailUser args).alone d id = .ok ((), pending)) :
    d.users.get (.drawn args.call 0) = none ∧ Untouched d (pending d) ∧
      ((pending d).users.get (.drawn args.call 0)).isSome := by
  have hkept := untouched_of_reflTransGen ((untouched_insertEmailUser args).alone h d)
  obtain ⟨_, p₁, hnew, h₁⟩ := Tx.alone_bind_eq_ok h
  obtain ⟨hnone, heq⟩ := alone_newUser hnew
  cases heq
  obtain ⟨_, p₂, hemail, h₂⟩ := Tx.alone_bind_eq_ok h₁
  obtain ⟨_, heq⟩ := entries_of_reserve hemail
  cases heq
  cases h₂
  refine ⟨hnone, hkept, ?_⟩
  change ((d.users.add _ _).get _).isSome
  rw [Table.get_add_of_new hnone, if_pos rfl]
  rfl

/-- A claim changes at most the referral that was found. -/
theorem alone_claimFound {normalizeEmail : String → String} {hash : Digest} {email : String}
    {user : Uuid} {now : Time} {found : Option Uuid} {pending change : Db → Db}
    (h : (claimFound sees normalizeEmail hash email user now found).alone d pending =
      .ok ((), change)) :
    change = pending ∨ ∃ id, change = (ReferralChange.set id
      (fun r => sees user r && claimable normalizeEmail hash email user now r)
      (registeredBy user) fun _ => rfl).apply ∘ pending := by
  cases found with
  | none =>
      cases h
      exact Or.inl rfl
  | some id =>
      simp only [claimFound, changeRow] at h
      obtain ⟨row, p, hrow, h'⟩ := Tx.alone_bind_eq_ok h
      cases hrow
      split at h'
      · cases h'
        exact Or.inl rfl
      · split at h'
        · split at h'
          · cases h'
            exact Or.inr ⟨id, rfl⟩
          · cases h'
        · cases h'
          exact Or.inl rfl

theorem lockOnly_claimFound (normalizeEmail : String → String) (hash : Digest) (email : String)
    (user : Uuid) (now : Time) (found : Option Uuid) :
    (claimFound sees normalizeEmail hash email user now found).LockOnly := by
  cases found with
  | none => trivial
  | some id =>
      refine (lockOnly_lockReferral id).bind fun row => ?_
      cases row with
      | none => trivial
      | some row =>
          dsimp only
          split
          · split <;> trivial
          · trivial

theorem lockOnly_insertEmailUser (args : EmailArgs) : (insertEmailUser args).LockOnly :=
  (lockOnly_newUser _).bind fun _ => (lockOnly_reserve _ _).bind fun _ => trivial

theorem lockOnly_insertEmailLogin (args : EmailArgs) : (insertEmailLogin args).LockOnly :=
  (lockOnly_reserve _ _).bind fun _ => (lockOnly_reserve _ _).bind fun _ => trivial

/-- The rest of a registration, from the claim on. -/
def claimThenLogin (env : Env) (sees : Uuid → Referral → Bool) (args : EmailArgs) (hash : Digest)
    (found : Option Uuid) : ReferralTrans Unit := do
  claimFound sees env.normalizeEmail hash args.email (.drawn args.call 0) args.started found
  (insertEmailLogin args).inl (same_insertEmailLogin args)

theorem registers_of_alone {hash : Digest} {found : Option Uuid} {pending change : Db → Db}
    (huser : (insertEmailUser args).alone d id = .ok ((), pending))
    (h : (claimThenLogin env sees args hash found).alone d pending = .ok ((), change)) :
    Registers env sees args d (change d) := by
  obtain ⟨hnone, hfirst, htaken⟩ := alone_insertEmailUser huser
  obtain ⟨_, claim, hclaim, hlogin⟩ := Tx.alone_bind_eq_ok h
  rw [Tx.alone_inl] at hlogin
  have hlast := untouched_of_reflTransGen ((untouched_insertEmailLogin args).alone hlogin d)
  refine ⟨hnone, pending d, claim d, hfirst, htaken, ?_, hlast⟩
  rcases alone_claimFound hclaim with rfl | ⟨id, rfl⟩
  · exact Or.inl rfl
  · exact Or.inr ⟨id, hash, rfl⟩

variable {J : Core Db World → Prop}

/-- A registration keeps what its commits keep. -/
theorem upholds_createReferredRegistration (h : ReferralWrites env sees J)
    (referral : Option Digest) :
    (createReferredRegistration sees env.normalizeEmail args referral).Upholds J := by
  refine ⟨fun i c hc K hK => ?_, fun _ => trivial⟩
  refine Protocol.wpTx_bind_lockOnly (P := Protocol.invariant J)
    (Tx.lockOnly_inl _ (lockOnly_insertEmailUser args)) hc
    (fun _ hmem => absurd hmem List.not_mem_nil) ?_ fun fault c' hlater => hK _ _ hlater.2
  intro c' a seen pending hlater hcur hsame
  -- whatever the query has found, the claim and the login run on the committed rows
  have hfinish : ∀ hash found c'', J c'' → Protocol.Current seen c''.db →
      (Protocol.invariant J).wpTx i (fun i _ w => w.record i (.recovery (.emailRegistered args)))
        K seen pending (claimThenLogin env sees args hash found) c'' := by
    intro hash found c'' hc'' hcur''
    refine Protocol.wpTx_of_lockOnly (P := Protocol.invariant J) ?_ hc'' hcur'' ?_
      fun c₃ hlater₃ => hK _ _ hlater₃.2
    · exact (lockOnly_claimFound _ _ _ _ _ _).bind fun _ =>
        Tx.lockOnly_inl _ (lockOnly_insertEmailLogin args)
    · intro c₃ hlater₃ hcur₃
      unfold Protocol.Outcome
      split
      · rename_i result change halone
        have huser := (hsame c₃.db hcur₃).2
        rw [Tx.alone_inl] at huser
        have hcommit := h.register c₃ (change c₃.db) i args
          (registers_of_alone huser halone) hlater₃.2
        exact ⟨⟨hcommit, fun _ _ => trivial⟩, hK _ _ hcommit⟩
      · exact hK _ _ hlater₃.2
  cases referral with
  | none => exact hfinish args.tokenHash none c' hlater.2 hcur
  | some hash =>
      intro c'' hlater'' hcur''
      exact ⟨⟨hlater''.2, fun _ _ => trivial⟩, hfinish hash _ c'' hlater''.2 hcur''⟩

end Registration

section Calls

variable {env : Env} {sees : Uuid → Referral → Bool} {J : Core Db World → Prop}
  (h : ReferralWrites env sees J)
include h

theorem upholds_step {β : Type} {f : Db → World → β × World} {event : β → Event}
    (hf : ∀ d w, (f d w).2.log = w.log) (hkeeps : (step f event).Keeps referralRows) :
    ((step f event).inl hkeeps).Upholds J := by
  refine fun i c hc answer hanswer => ⟨?_, trivial⟩
  obtain rfl := List.mem_singleton.mp hanswer
  refine h.store c _ (fun entry hmem => List.mem_cons_of_mem _ ?_) hc
  rw [hf]
  exact hmem

theorem upholds_now : ReferralControl.now.Upholds J :=
  upholds_step h (fun _ _ => rfl) _

theorem upholds_deliver (recipient : String) : (ReferralControl.deliver recipient).Upholds J := by
  refine fun i c hc answer hanswer => ⟨?_, trivial⟩
  obtain ⟨delivered, _, rfl⟩ := List.mem_map.mp hanswer
  exact h.record c i _ hc

omit h in
theorem log_count (route : String) (subject : Subject) (window : Nat) (w : World) :
    (Redis.count route subject window w).2.log = w.log := by
  unfold Redis.count
  dsimp only
  split <;> exact rfl

omit h in
theorem upholds_look {β : Type} (query : Db → β) :
    (ReferralRepository.look query).Upholds J := by
  refine fun i c hc answer hanswer => ⟨?_, trivial⟩
  obtain rfl := List.mem_singleton.mp hanswer
  exact hc

omit h in
theorem upholds_referralEligibility (normalizeEmail : String → String) (referrer : Uuid)
    (email : String) : (referralEligibility normalizeEmail referrer email).Upholds J := by
  refine (upholds_look _).bind fun user => ?_
  cases user with
  | none => trivial
  | some user =>
      dsimp only
      split
      · trivial
      · split
        · trivial
        · refine (upholds_look _).bind fun existing => ?_
          split <;> trivial

theorem upholds_createReferral (args : ReferralArgs) : (createReferral sees args).Upholds J := by
  refine Prog.upholds_txn (Tx.Upholds.bind (upholds_update h fun r hr => ?_) fun _ =>
    upholds_insertReferral h args) (fun _ _ _ hc => hc) fun result => ?_
  · simp only [Bool.and_eq_true, beq_iff_eq] at hr
    exact .closed .revoked hr.2 (Or.inr rfl)
  · cases result <;> trivial

theorem upholds_revokeReferral (referrer id : Uuid) :
    (revokeReferral sees referrer id).Upholds J := by
  refine Prog.upholds_txn ⟨fun _ _ _ hc => hc, fun found =>
    Tx.upholds_each (upholds_changeRow h fun r hr => ?_) found⟩ (fun _ _ _ hc => hc)
    fun result => ?_
  · simp only [Bool.and_eq_true, beq_iff_eq] at hr
    exact .closed .revoked hr.2 (Or.inr rfl)
  · cases result <;> trivial

theorem upholds_inviteReferral (me : Nat) (referrer : Uuid) (email : String) :
    (ReferralControl.inviteReferral env sees me referrer email).Upholds J := by
  refine (upholds_step h (fun _ w => log_count _ _ _ w) _).bind fun count => ?_
  split
  · trivial
  · refine (upholds_referralEligibility _ _ _).bind fun eligibility => ?_
    split
    · trivial
    · refine (upholds_now h).bind fun started => ?_
      refine (upholds_createReferral h _).bind fun referral => ?_
      refine (upholds_deliver h _).bind fun delivered => ?_
      split
      · exact (upholds_revokeReferral h _ _).bind fun _ => trivial
      · trivial

theorem upholds_listReferrals (user : Uuid) :
    (ReferralControl.listReferrals sees user).Upholds J := by
  refine (upholds_now h).bind fun started => Prog.Upholds.bind ?_ fun _ => trivial
  refine Prog.upholds_txn (Tx.Upholds.bind (upholds_update h fun r hr => ?_) fun _ =>
    ⟨fun _ _ _ hc => hc, fun _ => trivial⟩) (fun _ _ _ hc => hc) fun result => ?_
  · simp only [Bool.and_eq_true, beq_iff_eq] at hr
    exact .closed .expired hr.1.2 (Or.inl rfl)
  · cases result <;> trivial

theorem upholds_registerEmail (me : Nat) (email passwordHash givenName familyName : String)
    (referralToken : Option Token) : (ReferralControl.registerEmail env sees me email passwordHash
      givenName familyName referralToken).Upholds J := by
  refine (upholds_now h).bind fun drawn => (upholds_now h).bind fun started => ?_
  refine (upholds_createReferredRegistration h _).bind fun created => ?_
  split
  · trivial
  · trivial
  · refine (upholds_deliver h _).bind fun delivered => ?_
    split <;> trivial

theorem upholds_verifyEmail (token : Token) :
    (ReferralControl.verifyEmail env sees token).Upholds J := by
  refine (upholds_now h).bind fun started => Prog.Upholds.bind ?_ fun _ => trivial
  refine Prog.upholds_txn ⟨fun _ _ _ hc => hc, fun found => ?_⟩ (fun i _ c hc => h.record c i _ hc)
    fun result => ?_
  · have hverify := Tx.upholds_of_lockOnly h.untouched
      (untouched_verifyMailed (env.verificationHash token) started found)
      (lockOnly_verifyMailed (env.verificationHash token) started found)
    refine (hverify.inl (same_verifyMailed _ _ _)).bind fun valid => ?_
    split
    · refine (upholds_ask _).bind fun user => Tx.Upholds.bind ?_ fun _ => trivial
      cases user with
      | none => trivial
      | some user =>
          refine upholds_update h fun r hr => ?_
          simp only [Bool.and_eq_true, beq_iff_eq] at hr
          exact .completed hr.2
    · trivial
  · cases result <;> trivial

theorem upholds_eraseReferrals (user : Uuid) :
    (ReferralControl.eraseReferrals env sees user).Upholds J := by
  refine Prog.upholds_txn ((upholds_delete h _ _).bind fun _ =>
    upholds_update h fun r _ => .withdrawn _) (fun _ _ _ hc => hc) fun result => ?_
  cases result <;> trivial

theorem upholds_otherCall (other : OtherEvent) :
    (ReferralControl.otherCall other).Upholds J := by
  unfold ReferralControl.otherCall
  split
  · trivial
  · rename_i commit hcommit
    have hbody := Event.untouched hcommit other.stays
    refine Prog.upholds_txn (Tx.Upholds.inl (Tx.upholds_mute h.untouched hbody) _)
      (fun _ _ _ hc => hc) fun result => ?_
    cases result <;> trivial

theorem upholds_referralProgram (me : Nat) (call : ReferralCall) :
    (referralProgram env sees me call).Upholds J := by
  cases call with
  | inviteReferral referrer email => exact upholds_inviteReferral h me referrer email
  | listReferrals user => exact upholds_listReferrals h user
  | registerEmail email passwordHash givenName familyName referralToken =>
      exact upholds_registerEmail h me email passwordHash givenName familyName referralToken
  | verifyEmail token => exact upholds_verifyEmail h token
  | erase user => exact upholds_eraseReferrals h user
  | other event => exact upholds_otherCall h event

/-- What every commit keeps holds in every reachable state. -/
theorem ReferralWrites.holds {c : Core Db World} (hc : J c)
    {s : Config wholeSchema World AuthError ReferralResult}
    (hreach : (referralService env sees).Reachable c s) : J s.core :=
  Service.upholds_of_reachable (upholds_referralProgram h) (fun _ _ _ hJ => hJ)
    (fun _ _ _ hJ => hJ) (fun _ c hJ => h.store c _ (fun _ hmem => hmem) hJ) hc hreach

end Calls

section Update

variable {id : Uuid} {cond : Referral → Bool} {g : Referral → Referral}
  (hg : ∀ r, (g r).tokenHash = r.tokenHash) {d : Db}

/-- A row after an update is one from before or one that the update has made. -/
theorem row_of_set {k : Uuid} {r : Referral}
    (h : ((ReferralChange.set id cond g hg).apply d).referrals.get k = some r) :
    d.referrals.get k = some r ∨ k = id ∧ ∃ old, d.referrals.get k = some old ∧
      cond old = true ∧ r = g old := by
  obtain ⟨old, hold, hif⟩ := Table.get_update_eq_some.mp h
  split at hif
  · rename_i hcond
    rw [Bool.and_eq_true, beq_iff_eq] at hcond
    exact Or.inr ⟨hcond.1, old, hold, hcond.2, hif.symm⟩
  · exact Or.inl (hif ▸ hold)

end Update

/-- No referral names an account. -/
def NoneReferred (d : Db) : Prop :=
  ∀ id r, d.referrals.get id = some r →
    r.referredUserId = none ∧ r.state ≠ .registered ∧ r.state ≠ .verified

/-- What is known of the account that a referral names: it exists, it is not the one that invited,
and its registration proved the invited address to be its own in time. -/
structure Referred (env : Env) (c : Core Db World) (r : Referral) (user : Uuid) : Prop where
  known : (c.db.users.get user).isSome
  other : user ≠ r.referrerUserId
  registered : ∃ i args, (i, .recovery (.emailRegistered args)) ∈ c.store.log ∧
    user = .drawn args.call 0 ∧ args.email = env.normalizeEmail r.inviteeEmail ∧
    args.started < r.expiresAt

/-- The referrals that are used: which states they have, whom they name, and no account twice. -/
structure ReferralsSound (env : Env) (c : Core Db World) : Prop where
  used : ∀ id r, c.db.referrals.get id = some r →
    (r.referredUserId.isSome ↔ r.state = .registered ∨ r.state = .verified)
  referred : ∀ id r user, c.db.referrals.get id = some r → r.referredUserId = some user →
    Referred env c r user
  once : ∀ id id' r r' user, c.db.referrals.get id = some r → c.db.referrals.get id' = some r' →
    r.referredUserId = some user → r'.referredUserId = some user → id = id'

theorem NoneReferred.sound {env : Env} {c : Core Db World} (h : NoneReferred c.db) :
    ReferralsSound env c where
  used id r hr := by
    obtain ⟨hnone, hregistered, hverified⟩ := h id r hr
    simp [hnone, hregistered, hverified]
  referred id r user hr huser := by
    rw [(h id r hr).1] at huser
    cases huser
  once id id' r r' user hr _ huser _ := by
    rw [(h id r hr).1] at huser
    cases huser

/-- A closed referral names whom it named, or nobody. -/
theorem Closes.named {r r' : Referral} {user : Uuid} (h : Closes r r')
    (huser : r'.referredUserId = some user) : r.referredUserId = some user ∧
      r'.referrerUserId = r.referrerUserId ∧ r'.inviteeEmail = r.inviteeEmail ∧
      r'.expiresAt = r.expiresAt := by
  cases h with
  | closed state _ _ => exact ⟨huser, rfl, rfl, rfl⟩
  | completed _ => exact ⟨huser, rfl, rfl, rfl⟩
  | withdrawn address => cases huser

theorem Closes.used {r r' : Referral} (h : Closes r r')
    (hr : r.referredUserId.isSome ↔ r.state = .registered ∨ r.state = .verified) :
    r'.referredUserId.isSome ↔ r'.state = .registered ∨ r'.state = .verified := by
  cases h with
  | closed state hinvited hstate =>
      rw [hinvited] at hr
      rcases hstate with rfl | rfl <;> simpa using hr
  | completed hregistered =>
      rw [hregistered] at hr
      simpa using hr
  | withdrawn address => simp [DbChange.withdrawn]

section Sound

variable {env : Env} {sees : Uuid → Referral → Bool} {c c' : Core Db World}

theorem Referred.mono {r r' : Referral} {user : Uuid} (h : Referred env c r user)
    (husers : ∀ user, (c.db.users.get user).isSome → (c'.db.users.get user).isSome)
    (hlog : ∀ entry ∈ c.store.log, entry ∈ c'.store.log)
    (hreferrer : r'.referrerUserId = r.referrerUserId) (hemail : r'.inviteeEmail = r.inviteeEmail)
    (hexpires : r'.expiresAt = r.expiresAt) : Referred env c' r' user := by
  obtain ⟨i, args, hmem, hdrawn, haddress, htime⟩ := h.registered
  refine ⟨husers user h.known, hreferrer ▸ h.other, i, args, hlog _ hmem, hdrawn, ?_, ?_⟩
  · rw [hemail]
    exact haddress
  · rw [hexpires]
    exact htime

/-- Rows that were there before keep what is known of them. -/
theorem ReferralsSound.mono (h : ReferralsSound env c)
    (hrows : ∀ id r, c'.db.referrals.get id = some r → c.db.referrals.get id = some r)
    (husers : ∀ user, (c.db.users.get user).isSome → (c'.db.users.get user).isSome)
    (hlog : ∀ entry ∈ c.store.log, entry ∈ c'.store.log) : ReferralsSound env c' where
  used id r hr := h.used id r (hrows id r hr)
  referred id r user hr huser :=
    (h.referred id r user (hrows id r hr) huser).mono husers hlog rfl rfl rfl
  once id id' r r' user hr hr' := h.once id id' r r' user (hrows id r hr) (hrows id' r' hr')

theorem ReferralsSound.close (h : ReferralsSound env c) {id : Uuid} {cond : Referral → Bool}
    {g : Referral → Referral} {hg : ∀ r, (g r).tokenHash = r.tokenHash}
    (hcloses : ∀ r, cond r = true → Closes r (g r)) :
    ReferralsSound env ⟨(ReferralChange.set id cond g hg).apply c.db, c.store⟩ := by
  have hbefore : ∀ k r user,
      ((ReferralChange.set id cond g hg).apply c.db).referrals.get k = some r →
      r.referredUserId = some user → ∃ old, c.db.referrals.get k = some old ∧
        old.referredUserId = some user ∧ r.referrerUserId = old.referrerUserId ∧
        r.inviteeEmail = old.inviteeEmail ∧ r.expiresAt = old.expiresAt := by
    intro k r user hr huser
    rcases row_of_set hg hr with hold | ⟨_, old, hold, hcond, rfl⟩
    · exact ⟨r, hold, huser, rfl, rfl, rfl⟩
    · exact ⟨old, hold, (hcloses old hcond).named huser⟩
  constructor
  · intro k r hr
    rcases row_of_set hg hr with hold | ⟨_, old, hold, hcond, rfl⟩
    · exact h.used k r hold
    · exact (hcloses old hcond).used (h.used k old hold)
  · intro k r user hr huser
    obtain ⟨old, hold, hnamed, hreferrer, hemail, hexpires⟩ := hbefore k r user hr huser
    exact (h.referred k old user hold hnamed).mono (fun _ hd => hd) (fun _ hmem => hmem)
      hreferrer hemail hexpires
  · intro k k' r r' user hr hr' huser huser'
    obtain ⟨old, hold, hnamed, _⟩ := hbefore k r user hr huser
    obtain ⟨old', hold', hnamed', _⟩ := hbefore k' r' user hr' huser'
    exact h.once k k' old old' user hold hold' hnamed hnamed'

theorem ReferralsSound.invite (h : ReferralsSound env c) {id : Uuid} {r : Referral}
    (hstate : r.state = .invited) (hnone : r.referredUserId = none) :
    ReferralsSound env ⟨(ReferralChange.add id r).apply c.db, c.store⟩ := by
  have hnamed : ∀ k r' user, ((ReferralChange.add id r).apply c.db).referrals.get k = some r' →
      r'.referredUserId = some user → c.db.referrals.get k = some r' := by
    intro k r' user hr' huser
    rcases Table.get_add_eq_some hr' with hold | ⟨_, rfl⟩
    · exact hold
    · rw [hnone] at huser
      cases huser
  constructor
  · intro k r' hr'
    rcases Table.get_add_eq_some hr' with hold | ⟨_, rfl⟩
    · exact h.used k r' hold
    · simp [hnone, hstate]
  · intro k r' user hr' huser
    exact (h.referred k r' user (hnamed k r' user hr' huser) huser).mono (fun _ hd => hd)
      (fun _ hmem => hmem) rfl rfl rfl
  · intro k k' r₁ r₂ user hr₁ hr₂ huser₁ huser₂
    exact h.once k k' r₁ r₂ user (hnamed k r₁ user hr₁ huser₁) (hnamed k' r₂ user hr₂ huser₂)
      huser₁ huser₂

theorem tokenHash_registeredBy (user : Uuid) (r : Referral) :
    (registeredBy user r).tokenHash = r.tokenHash :=
  rfl

/-- A claim for an account that no referral names. -/
theorem ReferralsSound.claim (h : ReferralsSound env c) {i : Nat} {args : EmailArgs}
    {cond : Referral → Bool} (id : Uuid) (hash : Digest)
    (hcond : ∀ r, cond r = true → claimable env.normalizeEmail hash args.email
      (.drawn args.call 0) args.started r = true)
    (hfree : ∀ k r, c.db.referrals.get k = some r → r.referredUserId ≠ some (.drawn args.call 0))
    (hknown : (c.db.users.get (.drawn args.call 0)).isSome)
    (hlog : (i, .recovery (.emailRegistered args)) ∈ c.store.log) :
    ReferralsSound env ⟨(ReferralChange.set id cond (registeredBy (.drawn args.call 0))
      fun _ => rfl).apply c.db, c.store⟩ := by
  constructor
  · intro k r hr
    rcases row_of_set (tokenHash_registeredBy _) hr with hold | ⟨_, old, hold, _, rfl⟩
    · exact h.used k r hold
    · simp [registeredBy]
  · intro k r user hr huser
    rcases row_of_set (tokenHash_registeredBy _) hr with hold | ⟨_, old, hold, hclaim, rfl⟩
    · exact (h.referred k r user hold huser).mono (fun _ hd => hd) (fun _ hmem => hmem) rfl rfl rfl
    · obtain rfl : Uuid.drawn args.call 0 = user := Option.some.inj huser
      have hchecks := hcond old hclaim
      simp only [claimable, Bool.and_eq_true, beq_iff_eq, bne_iff_ne, decide_eq_true_eq] at hchecks
      exact ⟨hknown, fun heq => hchecks.2 heq.symm, i, args, hlog, rfl, hchecks.1.2.symm,
        hchecks.1.1.2⟩
  · intro k k' r r' user hr hr' huser huser'
    rcases row_of_set (tokenHash_registeredBy _) hr with hold | ⟨hid, old, hold, _, rfl⟩
    · rcases row_of_set (tokenHash_registeredBy _) hr' with hold' | ⟨hid', old', hold', _, rfl⟩
      · exact h.once k k' r r' user hold hold' huser huser'
      · obtain rfl : Uuid.drawn args.call 0 = user := Option.some.inj huser'
        exact absurd huser (hfree k r hold)
    · rcases row_of_set (tokenHash_registeredBy _) hr' with hold' | ⟨hid', _⟩
      · obtain rfl : Uuid.drawn args.call 0 = user := Option.some.inj huser
        exact absurd huser' (hfree k' r' hold')
      · exact hid.trans hid'.symm

/-- The account of a registration is new, so no referral names it before the claim. -/
theorem ReferralsSound.register (h : ReferralsSound env c) {d : Db} {i : Nat} {args : EmailArgs}
    (hregisters : Registers env sees args c.db d) :
    ReferralsSound env ⟨d, c.store.record i (.recovery (.emailRegistered args))⟩ := by
  obtain ⟨d₁, d₂, hfirst, htaken, hclaim, hlast⟩ := hregisters.steps
  have hlog : ∀ entry ∈ c.store.log,
      entry ∈ (c.store.record i (.recovery (.emailRegistered args))).log :=
    fun _ hmem => List.mem_cons_of_mem _ hmem
  have hsound₁ : ReferralsSound env ⟨d₁, c.store.record i (.recovery (.emailRegistered args))⟩ :=
    h.mono (fun k r hr => hfirst.referrals ▸ hr) hfirst.users hlog
  have hfree : ∀ k r, d₁.referrals.get k = some r →
      r.referredUserId ≠ some (.drawn args.call 0) := by
    intro k r hr huser
    have hknown := (h.referred k r _ (hfirst.referrals ▸ hr) huser).known
    rw [hregisters.fresh] at hknown
    cases hknown
  have hsound₂ : ReferralsSound env ⟨d₂, c.store.record i (.recovery (.emailRegistered args))⟩ := by
    rcases hclaim with rfl | ⟨id, hash, rfl⟩
    · exact hsound₁
    · refine hsound₁.claim id hash (fun r hr => ?_) hfree htaken List.mem_cons_self
      rw [Bool.and_eq_true] at hr
      exact hr.2
  exact hsound₂.mono (fun k r hr => hlast.referrals ▸ hr) hlast.users fun _ hmem => hmem

theorem referralWrites_sound :
    ReferralWrites env sees (ReferralsSound env) where
  close _ _ _ _ _ hcloses h := h.close hcloses
  invite _ _ _ hstate hnone h := h.invite hstate hnone
  delete _ _ _ _ h := h.mono (fun _ _ hr => (Table.get_delete_eq_some.mp hr).1) (fun _ hd => hd)
    fun _ hmem => hmem
  untouched _ _ hkept h := h.mono (fun _ _ hr => hkept.referrals ▸ hr) hkept.users
    fun _ hmem => hmem
  store _ _ hlog h := h.mono (fun _ _ hr => hr) (fun _ hd => hd) hlog
  register _ _ _ _ hregisters h := h.register hregisters

end Sound

/-- Over every interleaving a used referral names one account, registered for its address and in
time by somebody else than who invited, and no account was referred twice. -/
theorem referred_once {env : Env} {sees : Uuid → Referral → Bool} {c : Core Db World}
    (hinit : NoneReferred c.db) {s : Config wholeSchema World AuthError ReferralResult}
    (hreach : (referralService env sees).Reachable c s) : ReferralsSound env s.core :=
  referralWrites_sound.holds hinit.sound hreach

theorem noneReferred_sampleCore : NoneReferred sampleCore.db := by
  intro id r hr
  cases hr.symm.trans (Table.get_empty id)

/-- Call `i` made and run for `n` steps. -/
def performReferral (sees : Uuid → Referral → Bool) (i : Nat) (call : ReferralCall) (n : Nat) :
    List (Move (referralService sampleEnv sees)) :=
  .call i call :: List.replicate n (.step i 0)

/-- Ann invites an address, somebody registers with the mailed token and proves the address. -/
def referralMoves (sees : Uuid → Referral → Bool) (registration proof : Nat) :
    List (Move (referralService sampleEnv sees)) :=
  performReferral sees 0 (.inviteReferral (.given 1) "cy") 13 ++
    performReferral sees 1 (.registerEmail "cy" "hashed pw" "Cy" "Low" (some (.drawn 0 0)))
      registration ++
    performReferral sees 2 (.verifyEmail (.drawn 1 5)) proof

/-- What a run leaves of Ann's referral and of the account that was to be referred. -/
def referralOutcome (s : Config wholeSchema World AuthError ReferralResult) :
    Option (ReferralState × Option Uuid) × Option UserState :=
  ((s.core.db.referrals.get (.drawn 0 1)).map fun r => (r.state, r.referredUserId),
    (s.core.db.users.get (.drawn 1 0)).map (·.state))

theorem referred_once_of_ann : ∃ s, referralOutcome s =
    (some (.verified, some (.drawn 1 0)), some .active) ∧ ReferralsSound sampleEnv s.core := by
  have hrun : ((referralService sampleEnv fun _ _ => true).run (Service.start sampleCore)
      (referralMoves (fun _ _ => true) 19 16)).map referralOutcome =
        some (some (.verified, some (.drawn 1 0)), some .active) := by decide
  obtain ⟨s, hreach, houtcome⟩ := Service.reachable_of_run hrun
  exact ⟨s, houtcome, referred_once noneReferred_sampleCore hreach⟩

/-- The policy `referrals_user_isolation`: a referral shows itself to who invited and to who was
referred. -/
def referralsUserIsolation (user : Uuid) (r : Referral) : Bool :=
  r.referrerUserId == user || r.referredUserId == some user

theorem referralWrites_isolated (env : Env) :
    ReferralWrites env referralsUserIsolation fun c => NoneReferred c.db where
  close c id cond g hg hcloses h k r hr := by
    rcases row_of_set hg hr with hold | ⟨_, old, hold, hcond, rfl⟩
    · exact h k r hold
    · obtain ⟨hnone, hregistered, _⟩ := h k old hold
      have hclosed := hcloses old hcond
      revert hclosed
      generalize g old = new
      intro hclosed
      cases hclosed with
      | closed state _ hstate => rcases hstate with rfl | rfl <;> simp [hnone]
      | completed hused => exact absurd hused hregistered
      | withdrawn address => simp [DbChange.withdrawn]
  invite c id r hstate hnone h k r' hr' := by
    rcases Table.get_add_eq_some hr' with hold | ⟨_, rfl⟩
    · exact h k r' hold
    · simp [hnone, hstate]
  delete c id hash cond h k r hr := h k r (Table.get_delete_eq_some.mp hr).1
  untouched c d hkept h k r hr := h k r (hkept.referrals ▸ hr)
  store c w hlog h := h
  register c d i args hregisters h := by
    obtain ⟨d₁, d₂, hfirst, _, hclaim, hlast⟩ := hregisters.steps
    have hnone₁ : NoneReferred d₁ := fun k r hr => h k r (hfirst.referrals ▸ hr)
    intro k r hr
    rw [hlast.referrals] at hr
    rcases hclaim with rfl | ⟨id, hash, rfl⟩
    · exact hnone₁ k r hr
    · rcases row_of_set (tokenHash_registeredBy _) hr with hold | ⟨_, old, hold, hcond, rfl⟩
      · exact hnone₁ k r hold
      · -- the claim sees the row only as the one that invited, which it turns down
        have hnamed := (hnone₁ k old hold).1
        simp [referralsUserIsolation, claimable, hnamed] at hcond
        exact absurd hcond.1 hcond.2.2

/-- Under the row policy of the migrations no referral is ever used: the claim runs in the context
of the new account, which cannot see the invitation. -/
theorem never_referred {env : Env} {c : Core Db World} (hinit : NoneReferred c.db)
    {s : Config wholeSchema World AuthError ReferralResult}
    (hreach : (referralService env referralsUserIsolation).Reachable c s) :
    NoneReferred s.core.db :=
  (referralWrites_isolated env).holds hinit hreach

theorem never_referred_of_ann : ∃ s, referralOutcome s =
    (some (.invited, none), some .active) ∧ NoneReferred s.core.db := by
  have hrun : ((referralService sampleEnv referralsUserIsolation).run (Service.start sampleCore)
      (referralMoves referralsUserIsolation 17 14)).map referralOutcome =
        some (some (.invited, none), some .active) := by decide
  obtain ⟨s, hreach, houtcome⟩ := Service.reachable_of_run hrun
  exact ⟨s, houtcome, never_referred noneReferred_sampleCore hreach⟩

end AuthCore
