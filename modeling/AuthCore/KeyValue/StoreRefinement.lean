/-
The server serves the store of the model.  Each use of the store has one answer, the server
gives the same one, and both go on holding the same; so every sequence of uses, by whatever
calls, is answered alike.
-/
import AuthCore.Codec.Numerals
import AuthCore.Gateway.Agreement
import AuthCore.KeyValue.Names
import AuthCore.Model.Sample

namespace AuthCore

open Interleave KeyValue Gateway SecurityKeyFactory

namespace Spelling

variable (sp : Spelling)

/-- How a value is written. -/
def write : (key : CacheKey) → key.Value → Datum
  | .loginWorkflow _, (payload : Workflow) => .text (sp.workflow.dumps payload)
  | .mfaChallenge _, (payload : Challenge) => .text (sp.challenge.dumps payload)
  | .webauthnChallenge _, (payload : WebAuthnChallenge) => .text (sp.webauthn.dumps payload)
  | .oidcWorkflow _, (payload : OIDCWorkflow) => .text (sp.oidc.dumps payload)
  | .otp _ _, (otp : StoredOtp) =>
      .hash (Server.setFields (fun _ => none)
        [("hash", sp.digest otp.hash), ("attempts", otp.attempts.repr)])
  | .rateLimit _ _, (count : Nat) => .text count.repr
  | .loginLock _, _ | .factorLock _, _ | .accessRevocation _, _ | .familyRevocation _, _ =>
      .text "1"
  | .userRevocation _, (t : Time) => .text (RedisSecurityStore.timestamp.dumps t)
  | .organizationRevocation _ _, (t : Time) => .text (RedisSecurityStore.timestamp.dumps t)

/-- The value is read back from what is written for it: a payload from its text, a cut-off as a
whole second; a counter has counted something. -/
def Legible : (key : CacheKey) → key.Value → Prop
  | .loginWorkflow _, (payload : Workflow) =>
      sp.workflow.loads (sp.workflow.dumps payload) = some payload
  | .mfaChallenge _, (payload : Challenge) =>
      sp.challenge.loads (sp.challenge.dumps payload) = some payload
  | .webauthnChallenge _, (payload : WebAuthnChallenge) =>
      sp.webauthn.loads (sp.webauthn.dumps payload) = some payload
  | .oidcWorkflow _, (payload : OIDCWorkflow) =>
      sp.oidc.loads (sp.oidc.dumps payload) = some payload
  | .rateLimit _ _, (count : Nat) => 0 < count
  | .userRevocation _, (t : Time) => wholeSecond t = t
  | .organizationRevocation _ _, (t : Time) => wholeSecond t = t
  | _, _ => True

/-- The server holds what the store of the model has under the keys in `K`. -/
structure Holds (K : Set CacheKey) (s : Server) (cache : Cache) : Prop where
  represents : Represents (name sp) sp.write K s cache
  legible : ∀ key ∈ K, ∀ value expiry, cache key = some (value, expiry) → sp.Legible key value

variable {sp} {K : Set CacheKey} {s : Server} {cache : Cache} {now : Time} {key : CacheKey}

namespace Holds

theorem lookup_none (h : sp.Holds K s cache) (hkey : key ∈ K) (hget : cache.get now key = none) :
    s.lookup now (name sp key) = none ∧ cache.expiry now key = none := by
  have hentry := h.represents key hkey
  have hexpiry : cache.expiry now key = none := by
    unfold Cache.expiry
    rw [hget]
  refine ⟨?_, hexpiry⟩
  unfold Cache.get at hget
  split at hget
  · rename_i hnone
    rw [hnone] at hentry
    exact Server.lookup_eq_none hentry
  · cases hget
  · rename_i value expiry hsome
    split at hget
    · cases hget
    · rename_i hpast
      rw [hsome] at hentry
      exact Server.lookup_of_expired hentry hpast

theorem lookup_some (h : sp.Holds K s cache) (hkey : key ∈ K) {value : key.Value}
    (hget : cache.get now key = some value) :
    s.lookup now (name sp key) = some (sp.write key value, cache.expiry now key) ∧
      sp.Legible key value := by
  have hentry := h.represents key hkey
  have hexpiry : cache.expiry now key = (cache key).bind Prod.snd := by
    unfold Cache.expiry
    rw [hget]
    cases cache key with
    | none => rfl
    | some entry => rfl
  rw [hexpiry]
  unfold Cache.get at hget
  split at hget
  · cases hget
  · rename_i value' hsome
    obtain rfl := Option.some.inj hget
    rw [hsome] at hentry ⊢
    exact ⟨Server.lookup_of_live hentry (by simp), h.legible key hkey _ _ hsome⟩
  · rename_i value' expiry hsome
    split at hget
    · rename_i hlive
      obtain rfl := Option.some.inj hget
      rw [hsome] at hentry ⊢
      refine ⟨Server.lookup_of_live hentry fun time htime => ?_, h.legible key hkey _ _ hsome⟩
      obtain rfl := Option.some.inj htime
      exact hlive
    · cases hget

variable (hname : Set.InjOn (name sp) K)

include hname

theorem put (h : sp.Holds K s cache) (hkey : key ∈ K) {value : key.Value}
    (hlegible : sp.Legible key value) (expiry : Option Time) :
    sp.Holds K (s.store (name sp key) (sp.write key value) expiry)
      (cache.put key value expiry) := by
  refine ⟨h.represents.store hname hkey value expiry, fun other hother value' expiry' hget => ?_⟩
  by_cases heq : other = key
  · subst heq
    rw [Cache.put, Function.update_self] at hget
    cases hget
    exact hlegible
  · rw [Cache.put, Function.update_of_ne heq] at hget
    exact h.legible other hother _ _ hget

theorem remove (h : sp.Holds K s cache) (hkey : key ∈ K) :
    sp.Holds K (s.del (name sp key)) (cache.remove key) := by
  refine ⟨h.represents.del hname hkey, fun other hother value' expiry' hget => ?_⟩
  by_cases heq : other = key
  · subst heq
    rw [Cache.remove, Function.update_self] at hget
    cases hget
  · rw [Cache.remove, Function.update_of_ne heq] at hget
    exact h.legible other hother _ _ hget

end Holds

end Spelling

/-- The answers of a call that is a single action, with the stores after it. -/
def answers {β : Type} : Proc β → Nat → Db → World → List (β × World)
  | .act f k, i, d, w => (f i d w).filterMap fun answer =>
      match k answer.1 with
      | .done b => some (b, answer.2)
      | _ => none
  | _, _, _, _ => []

/-- The action and the method have one answer, and afterwards they hold the same again. -/
def Refines (sp : Spelling) (K : Set CacheKey) {β : Type} (p : Proc β) (m : Method β) : Prop :=
  ∀ i d w s, sp.Holds K s w.cache → ∃ b w' s', answers p i d w = [(b, w')] ∧
    m w.now s = some (b, s') ∧ sp.Holds K s' w'.cache

theorem refines_step {sp : Spelling} {K : Set CacheKey} {β : Type} {g : World → β × World}
    {event : β → Event} {m : Method β}
    (h : ∀ w s, sp.Holds K s w.cache → ∃ s', m w.now s = some ((g w).1, s') ∧
      sp.Holds K s' (g w).2.cache) :
    Refines sp K (step (fun _ w => g w) event) m := by
  intro i d w s hs
  obtain ⟨s', hmethod, hs'⟩ := h w s hs
  exact ⟨_, _, s', rfl, hmethod, hs'⟩

section Methods

open RedisSecurityStore

variable {sp : Spelling} {K : Set CacheKey} {key : CacheKey} (hname : Set.InjOn (name sp) K)
  (hkey : key ∈ K)

include hname hkey

theorem refines_set {value : key.Value} {text : String} {ttl : Nat}
    (hwrite : sp.write key value = .text text) (hlegible : sp.Legible key value) :
    Refines sp K (Redis.set key value ttl) (setText (name sp key) text ttl) := by
  intro i d w s h
  refine ⟨(), _, _, rfl, rfl, ?_⟩
  rw [Server.setEx, ← hwrite]
  exact h.put hname hkey hlegible _

theorem refines_delete : Refines sp K (Redis.delete key) (delete (name sp key)) :=
  fun _ _ _ _ h => ⟨(), _, _, rfl, rfl, h.remove hname hkey⟩

omit hname in
theorem refines_present :
    Refines sp K (do return (← Redis.get key).isSome) (present (name sp key)) := by
  intro i d w s h
  refine ⟨(w.cache.get w.now key).isSome, _, s, rfl, ?_, h⟩
  cases hget : w.cache.get w.now key with
  | none =>
      rw [present, Server.present, (h.lookup_none hkey hget).1]
      rfl
  | some value =>
      rw [present, Server.present, (h.lookup_some hkey hget).1]
      rfl

section Codecs

variable {codec : Codec key.Value} (hread : ∀ value, sp.Legible key value →
  ∃ text, sp.write key value = .text text ∧ codec.loads text = some value)

include hread

omit hname in
theorem refines_get : Refines sp K (Redis.get key) (loadText codec (name sp key)) := by
  intro i d w s h
  refine ⟨w.cache.get w.now key, _, s, rfl, ?_, h⟩
  cases hget : w.cache.get w.now key with
  | none => simp [loadText, Server.get, (h.lookup_none hkey hget).1]
  | some value =>
      obtain ⟨hlookup, hlegible⟩ := h.lookup_some hkey hget
      obtain ⟨text, hwrite, hload⟩ := hread value hlegible
      rw [hwrite] at hlookup
      simp [loadText, Server.get, hlookup, hload]

theorem refines_getdel : Refines sp K (Redis.getdel key) (takeText codec (name sp key)) := by
  intro i d w s h
  refine ⟨w.cache.get w.now key, _, _, rfl, ?_, h.remove hname hkey⟩
  cases hget : w.cache.get w.now key with
  | none => simp [takeText, Server.getdel, Server.get, (h.lookup_none hkey hget).1]
  | some value =>
      obtain ⟨hlookup, hlegible⟩ := h.lookup_some hkey hget
      obtain ⟨text, hwrite, hload⟩ := hread value hlegible
      rw [hwrite] at hlookup
      simp [takeText, Server.getdel, Server.get, hlookup, hload]

end Codecs

end Methods

section Scripts

variable {sp : Spelling} {K : Set CacheKey} (hname : Set.InjOn (name sp) K)

/-- Both fields of a code are set anew. -/
theorem setFields_otp (fields : String → Option String) (a b c d : String) :
    Server.setFields (Server.setFields fields [("hash", a), ("attempts", b)])
      [("hash", c), ("attempts", d)] =
    Server.setFields fields [("hash", c), ("attempts", d)] := by
  funext field
  simp only [Server.setFields, List.foldl_cons, List.foldl_nil, Function.update_apply]
  split
  · rfl
  · split
    · rfl
    · rfl

theorem setFields_attempts (fields : String → Option String) (a b c : String) :
    Server.setFields (Server.setFields fields [("hash", a), ("attempts", b)])
      [("attempts", c)] =
    Server.setFields fields [("hash", a), ("attempts", c)] := by
  funext field
  simp only [Server.setFields, List.foldl_cons, List.foldl_nil, Function.update_apply]
  split
  · rfl
  · rfl

theorem field_hash (fields : String → Option String) (a b : String) :
    Server.setFields fields [("hash", a), ("attempts", b)] "hash" = some a := by
  simp [Server.setFields]

theorem field_attempts (fields : String → Option String) (a b : String) :
    Server.setFields fields [("hash", a), ("attempts", b)] "attempts" = some b := by
  simp [Server.setFields]

include hname

theorem refines_hsetOtp {user : Uuid} {purpose : OtpPurpose} (hkey : .otp user purpose ∈ K)
    (hash : Digest) :
    Refines sp K (step (fun _ w => ((), Redis.setOtp user purpose hash w)) fun _ =>
      .otpStored user purpose hash) (RedisSecurityStore.hsetOtp sp user purpose hash) := by
  refine refines_step fun w s h => ?_
  have hlegible : sp.Legible (.otp user purpose) (⟨hash, 0⟩ : StoredOtp) := trivial
  have hzero : Nat.repr 0 = "0" := by decide
  refine ⟨_, ?_, h.put hname hkey hlegible (w.cache.expiry w.now (.otp user purpose))⟩
  change (do return ((), ← s.hset w.now (name sp (.otp user purpose))
    [("hash", sp.digest hash), ("attempts", "0")])) = _
  cases hget : w.cache.get w.now (.otp user purpose) with
  | none =>
      obtain ⟨hlookup, hexpiry⟩ := h.lookup_none hkey hget
      simp [Server.hset, hlookup, hexpiry, Spelling.write, hzero]
  | some otp =>
      simp [Server.hset, (h.lookup_some hkey hget).1, Spelling.write, setFields_otp, hzero]

theorem refines_expireOtp {user : Uuid} {purpose : OtpPurpose} (hkey : .otp user purpose ∈ K) :
    Refines sp K (step (fun _ w => ((), Redis.expireOtp user purpose w)) fun _ =>
      .otpExpires user purpose) (RedisSecurityStore.expireOtp sp user purpose) := by
  refine refines_step fun w s h => ⟨_, rfl, ?_⟩
  change sp.Holds K (s.expire w.now (name sp (.otp user purpose)) (seconds otpTtlSeconds))
    (Redis.expireOtp user purpose w).cache
  cases hget : w.cache.get w.now (.otp user purpose) with
  | none =>
      rw [Server.expire, (h.lookup_none hkey hget).1, Redis.expireOtp, hget]
      exact h
  | some otp =>
      rw [Server.expire, (h.lookup_some hkey hget).1, Redis.expireOtp, hget]
      exact h.put hname hkey trivial _

/-- The script of the codes compares, counts and deletes as the model does. -/
theorem refines_verifyAndConsumeOtp (hdigest : Function.Injective sp.digest) {user : Uuid}
    {purpose : OtpPurpose} (hkey : .otp user purpose ∈ K) (candidate : Digest)
    (maxAttempts : Nat) :
    Refines sp K (Redis.verifyAndConsumeOtp user purpose candidate maxAttempts)
      (RedisSecurityStore.verifyAndConsumeOtp sp user purpose candidate maxAttempts) := by
  refine refines_step fun w s h => ?_
  have hotp : otp sp user purpose = name sp (.otp user purpose) := rfl
  cases hget : w.cache.get w.now (.otp user purpose) with
  | none =>
      refine ⟨s, ?_, ?_⟩
      · simp [RedisSecurityStore.verifyAndConsumeOtp, Server.hget, hotp,
          (h.lookup_none hkey hget).1, Redis.tryOtp, hget]
      · rw [Redis.tryOtp, hget]
        exact h
  | some stored =>
      have hlookup := (h.lookup_some hkey hget).1
      by_cases hmatch : StoredOtp.hash stored = candidate
      · refine ⟨s.del (name sp (.otp user purpose)), ?_, ?_⟩
        · simp [RedisSecurityStore.verifyAndConsumeOtp, Server.hget, hotp, hlookup,
            Spelling.write, field_hash, hmatch, Redis.tryOtp, hget]
        · simp only [Redis.tryOtp, hget, if_pos hmatch]
          exact h.remove hname hkey
      have hdiffers : sp.digest (StoredOtp.hash stored) ≠ sp.digest candidate :=
        fun hsame => hmatch (hdigest hsame)
      by_cases hlast : maxAttempts ≤ StoredOtp.attempts stored + 1
      · refine ⟨s.del (name sp (.otp user purpose)), ?_, ?_⟩
        · simp [RedisSecurityStore.verifyAndConsumeOtp, Server.hget, Server.hincr, hotp, hlookup,
            Spelling.write, field_hash, field_attempts, hdiffers, hmatch, hlast, Redis.tryOtp, hget]
        · simp only [Redis.tryOtp, hget, if_neg hmatch, if_pos hlast]
          exact h.remove hname hkey
      · have hlegible : sp.Legible (.otp user purpose)
            (⟨StoredOtp.hash stored, StoredOtp.attempts stored + 1⟩ : StoredOtp) :=
          trivial
        have hcounted := h.put hname hkey hlegible (w.cache.expiry w.now (.otp user purpose))
        refine ⟨s.store (name sp (.otp user purpose))
            (sp.write (.otp user purpose)
              (⟨StoredOtp.hash stored, StoredOtp.attempts stored + 1⟩ : StoredOtp))
            (w.cache.expiry w.now (.otp user purpose)), ?_, ?_⟩
        · simp [RedisSecurityStore.verifyAndConsumeOtp, Server.hget, Server.hincr, hotp, hlookup,
            Spelling.write, field_hash, field_attempts, hdiffers, hmatch, hlast, Redis.tryOtp, hget,
            setFields_attempts]
        · simp only [Redis.tryOtp, hget, if_neg hmatch, if_neg hlast]
          exact hcounted

/-- The script of the counters counts and, on the first count, sets the expiry. -/
theorem refines_incrementRateLimit {route : String} {subject : Subject}
    (hkey : .rateLimit route subject ∈ K) (window : Nat) :
    Refines sp K (Redis.incrementRateLimit route subject window)
      (RedisSecurityStore.incrementRateLimit sp route subject window) := by
  refine refines_step fun w s h => ?_
  have hcounter : rateLimit sp route subject = name sp (.rateLimit route subject) := rfl
  cases hget : w.cache.get w.now (.rateLimit route subject) with
  | none =>
      have hlegible : sp.Legible (.rateLimit route subject) (1 : Nat) := Nat.one_pos
      have hput := h.put hname hkey hlegible (some (w.now + seconds window))
      refine ⟨s.store (name sp (.rateLimit route subject))
          (sp.write (.rateLimit route subject) (1 : Nat)) (some (w.now + seconds window)), ?_, ?_⟩
      · simp [RedisSecurityStore.incrementRateLimit, Server.incr, Server.expire, hcounter,
          (h.lookup_none hkey hget).1, Spelling.write, Redis.count, hget]
      · simp only [Redis.count, hget]
        exact hput
  | some stored =>
      obtain ⟨count, rfl⟩ : ∃ count : Nat, count = stored := ⟨stored, rfl⟩
      obtain ⟨hlookup, hpositive⟩ := h.lookup_some hkey hget
      have hsecond : count ≠ 0 := Nat.pos_iff_ne_zero.mp hpositive
      have hlegible : sp.Legible (.rateLimit route subject) (count + 1) := Nat.succ_pos _
      have hput := h.put hname hkey hlegible (w.cache.expiry w.now (.rateLimit route subject))
      refine ⟨s.store (name sp (.rateLimit route subject))
          (sp.write (.rateLimit route subject) (count + 1))
          (w.cache.expiry w.now (.rateLimit route subject)), ?_, ?_⟩
      · simp [RedisSecurityStore.incrementRateLimit, Server.incr, hcounter, hlookup,
          Spelling.write, Redis.count, hget, hsecond]
      · simp only [Redis.count, hget]
        exact hput

end Scripts

namespace Use

/-- The payload that is stored can be read back. -/
def Legible (sp : Spelling) : Use → Prop
  | storeLoginWorkflow _ payload => sp.workflow.loads (sp.workflow.dumps payload) = some payload
  | storeMfaChallenge _ payload => sp.challenge.loads (sp.challenge.dumps payload) = some payload
  | storeWebauthnChallenge _ payload => sp.webauthn.loads (sp.webauthn.dumps payload) = some payload
  | storeOidcWorkflow _ payload => sp.oidc.loads (sp.oidc.dumps payload) = some payload
  | _ => True

theorem dumps_wholeSecond (t : Time) :
    RedisSecurityStore.timestamp.dumps (wholeSecond t) = RedisSecurityStore.timestamp.dumps t := by
  have hsecond : t / 1000000 * 1000000 / 1000000 = t / 1000000 := Nat.mul_div_cancel _ (by decide)
  exact congrArg Nat.repr hsecond

theorem loads_timestamp {t : Time} (h : wholeSecond t = t) :
    RedisSecurityStore.timestamp.loads (RedisSecurityStore.timestamp.dumps t) = some t := by
  change ((t / 1000000).repr.toNat?).map seconds = some t
  rw [Nat.toNat?_repr]
  exact congrArg some h

theorem wholeSecond_wholeSecond (t : Time) : wholeSecond (wholeSecond t) = wholeSecond t := by
  unfold wholeSecond
  rw [Nat.mul_div_cancel _ (by decide)]

variable {sp : Spelling} {K : Set CacheKey}

theorem refines (hsp : sp.Apart K) (use : Use) (hkey : use.key ∈ K) (hlegible : use.Legible sp) :
    Refines sp K use.proc (use.method sp) := by
  have hname := hsp.name_injOn
  have hcutoff : ∀ t : Time, wholeSecond t = t → ∃ text,
      Datum.text (RedisSecurityStore.timestamp.dumps t) = .text text ∧
        RedisSecurityStore.timestamp.loads text = some t :=
    fun t ht => ⟨_, rfl, loads_timestamp ht⟩
  cases use with
  | hsetOtp user purpose hash => exact refines_hsetOtp hname hkey hash
  | expireOtp user purpose => exact refines_expireOtp hname hkey
  | consumeOtp user purpose => exact refines_delete hname hkey
  | verifyAndConsumeOtp user purpose candidate maxAttempts =>
      exact refines_verifyAndConsumeOtp hname hsp.digest hkey candidate maxAttempts
  | incrementRateLimit route subject window => exact refines_incrementRateLimit hname hkey window
  | resetRateLimit route subject => exact refines_delete hname hkey
  | lockLogin subject => exact refines_set hname hkey rfl trivial
  | loginIsLocked subject => exact refines_present hkey
  | storeLoginWorkflow token payload => exact refines_set hname hkey rfl hlegible
  | getLoginWorkflow token => exact refines_get hkey fun value hvalue => ⟨_, rfl, hvalue⟩
  | consumeLoginWorkflow token =>
      exact refines_getdel hname hkey fun value hvalue => ⟨_, rfl, hvalue⟩
  | storeMfaChallenge token payload => exact refines_set hname hkey rfl hlegible
  | getMfaChallenge token => exact refines_get hkey fun value hvalue => ⟨_, rfl, hvalue⟩
  | consumeMfaChallenge token =>
      exact refines_getdel hname hkey fun value hvalue => ⟨_, rfl, hvalue⟩
  | storeWebauthnChallenge token payload => exact refines_set hname hkey rfl hlegible
  | consumeWebauthnChallenge token =>
      exact refines_getdel hname hkey fun value hvalue => ⟨_, rfl, hvalue⟩
  | lockFactor factor => exact refines_set hname hkey rfl trivial
  | factorIsLocked factor => exact refines_present hkey
  | storeOidcWorkflow state payload => exact refines_set hname hkey rfl hlegible
  | consumeOidcWorkflow state =>
      exact refines_getdel hname hkey fun value hvalue => ⟨_, rfl, hvalue⟩
  | revokeAccessToken jti remaining => exact refines_set hname hkey rfl trivial
  | accessTokenIsRevoked jti => exact refines_present hkey
  | revokeFamily family remaining => exact refines_set hname hkey rfl trivial
  | familyIsRevoked family => exact refines_present hkey
  | revokeUser user issuedBefore =>
      exact refines_set hname hkey (congrArg Datum.text (dumps_wholeSecond issuedBefore))
        (wholeSecond_wholeSecond issuedBefore)
  | userRevokedAt user => exact refines_get hkey hcutoff
  | revokeOrganization user org issuedBefore =>
      exact refines_set hname hkey (congrArg Datum.text (dumps_wholeSecond issuedBefore))
        (wholeSecond_wholeSecond issuedBefore)
  | organizationRevokedAt user org => exact refines_get hkey hcutoff
  | clearOrganizationRevocation user org => exact refines_delete hname hkey

end Use

/-- One use of the store, when it happens and what it is answered with. -/
structure Turn where
  time : Time
  use : Use
  answer : use.Answer

def Turn.request (turn : Turn) : Time × Use :=
  (turn.time, turn.use)

/-- The turns are what the store of the model answers, whatever else the calls change. -/
inductive Played (d : Db) : Cache → List Turn → Cache → Prop
  | nil {cache : Cache} : Played d cache [] cache
  | cons {w w' : World} {cache : Cache} {turn : Turn} {rest : List Turn} {i : Nat} :
      w.now = turn.time → (turn.answer, w') ∈ answers turn.use.proc i d w →
      Played d w'.cache rest cache → Played d w.cache (turn :: rest) cache

/-- The turns are what the server answers. -/
inductive Served (sp : Spelling) : Server → List Turn → Server → Prop
  | nil {s : Server} : Served sp s [] s
  | cons {s s' s'' : Server} {turn : Turn} {rest : List Turn} :
      turn.use.method sp turn.time s = some (turn.answer, s') →
      Served sp s' rest s'' → Served sp s (turn :: rest) s''

section Turns

variable {sp : Spelling} {K : Set CacheKey} {s : Server} {cache cache' : Cache} {d : Db}
  {turns others : List Turn}

/-- The uses are of keys in `K`, and what they store can be read back. -/
def Admissible (sp : Spelling) (K : Set CacheKey) (requests : List (Time × Use)) : Prop :=
  ∀ request ∈ requests, request.2.key ∈ K ∧ request.2.Legible sp

theorem Admissible.tail {request : Time × Use} {rest : List (Time × Use)}
    (h : Admissible sp K (request :: rest)) : Admissible sp K rest :=
  fun other hother => h other (List.mem_cons_of_mem _ hother)

theorem Admissible.refines {turn : Turn} {rest : List Turn} (hsp : sp.Apart K)
    (h : Admissible sp K ((turn :: rest).map Turn.request)) :
    Refines sp K turn.use.proc (turn.use.method sp) := by
  obtain ⟨hkey, hlegible⟩ := h turn.request (List.mem_map_of_mem List.mem_cons_self)
  exact turn.use.refines hsp hkey hlegible

/-- What the model answers, the server answers. -/
theorem Played.served (h : Played d cache turns cache') (hsp : sp.Apart K)
    (hturns : Admissible sp K (turns.map Turn.request)) (hs : sp.Holds K s cache) :
    ∃ s', Served sp s turns s' ∧ sp.Holds K s' cache' := by
  induction h generalizing s with
  | nil => exact ⟨s, .nil, hs⟩
  | @cons w w' _ turn rest i hnow hanswer _ ih =>
      obtain ⟨b, w₁, s₁, hanswers, hmethod, hheld⟩ := hturns.refines hsp i d w s hs
      rw [hanswers, List.mem_singleton, Prod.mk.injEq] at hanswer
      obtain ⟨hb, rfl⟩ := hanswer
      obtain ⟨s', hserved, hs'⟩ := ih hturns.tail hheld
      rw [hnow, ← hb] at hmethod
      exact ⟨s', .cons hmethod hserved, hs'⟩

end Turns

end AuthCore
