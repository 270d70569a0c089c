/-
Requests that anybody may make for an email address or a phone number.  A
request is screened, and only then is the account looked up; what the caller
sees afterwards depends on the account when the delivery service is down.
-/
import AuthCore.Accounts.TwoRuns
import AuthCore.Model.Sample

namespace AuthCore

open Interleave Relational

variable {α β : Type} {i : Nat} {providers : Providers}

namespace Call

/-- The contact that a request names. -/
def contact (env : Env) : Call → Option (ContactType × String)
  | registerEmail email _ _ _ => some (.email, env.normalizeEmail email)
  | requestEmailVerification email => some (.email, env.normalizeEmail email)
  | registerPhone phone _ _ => (env.normalizePhone phone).map (.phone, ·)
  | requestPhoneVerification phone => (env.normalizePhone phone).map (.phone, ·)
  | requestPhoneOtp phone => (env.normalizePhone phone).map (.phone, ·)
  | requestPasswordReset email => some (.email, env.normalizeEmail email)
  | _ => none

def isReset : Call → Bool
  | requestPasswordReset _ => true
  | _ => false

end Call

open RegistrationControl (limit breachCount passwordBreached phoneInvalid emailRateLimit
  phoneRateLimit phoneRateWindowSeconds)

/-- A password that may be chosen. -/
def acceptable (env : Env) (password : String) : Proc Unit :=
  match env.passwordPolicy password with
  | some (message, status) => fail (.registration .passwordPolicy message status)
  | none => do
      match ← breachCount with
      | none => fail RegistrationControl.providerUnavailable
      | some true => fail passwordBreached
      | some false => return ()

def limitLogin (phone : String) : Proc Unit := do
  let count ← Redis.incrementRateLimit "login_phone_request" (.text phone)
    LoginControl.phoneOtpWindow
  if LoginControl.phoneOtpLimit < count then
    fail LoginControl.tooManyRequests
  else
    return ()

def limitReset (email : String) : Proc Unit := do
  let count ← Redis.incrementRateLimit "password_reset" (.text email)
    RecoveryControl.passwordResetWindowSeconds
  if RecoveryControl.passwordResetLimit < count then
    fail RecoveryControl.rateLimited
  else
    return ()

/-- What comes before the account is looked up. -/
def screen (env : Env) : Call → Proc Unit
  | .registerEmail email password _ _ => do
      RegistrationControl.verifyCaptcha
      limit "signup_email" (env.normalizeEmail email) emailRateLimit 60
      acceptable env password
  | .requestEmailVerification email => do
      RegistrationControl.verifyCaptcha
      limit "verify_email_request" (env.normalizeEmail email) 3 900
  | .registerPhone phone _ _ =>
      match env.normalizePhone phone with
      | none => fail phoneInvalid
      | some phone => do
          RegistrationControl.verifyCaptcha
          limit "signup_phone" phone phoneRateLimit phoneRateWindowSeconds
  | .requestPhoneVerification phone =>
      match env.normalizePhone phone with
      | none => fail phoneInvalid
      | some phone => do
          RegistrationControl.verifyCaptcha
          limit "verify_phone_request" phone phoneRateLimit phoneRateWindowSeconds
  | .requestPhoneOtp phone =>
      match env.normalizePhone phone with
      | none => fail LoginControl.invalidOtp
      | some phone => do
          LoginControl.verifyCaptcha
          limitLogin phone
  | .requestPasswordReset email => limitReset (env.normalizeEmail email)
  | _ => return ()

/-- The counter of a route stays within its bound when this call is counted. -/
def within (route subject : String) (most window : Nat) (w : World) : Bool :=
  (Redis.count route (.text subject) window w).1 ≤ most

section Screening

/-- Run alone the screening leaves the database as it is, and its verdict is the
same wherever the store and the clock are. -/
structure Screens (i : Nat) (providers : Providers) (p : Proc Unit) (passes : World → Bool) :
    Prop where
  alike : Alike i providers p p
  passes : ∀ c, ∃ result d, p.solo i providers.allow c = some (result, d) ∧ d.db = c.db ∧
    result.isOk = passes c.store

variable {p q : Proc Unit} {passes passes' : World → Bool} {b : Bool}

theorem Screens.congr (h : Screens i providers p passes) (c c' : Core Db World)
    (hc : SameStore c c') : passes c.store = passes c'.store := by
  obtain ⟨result, d, d', hsolo, hsolo', _⟩ := h.alike c c' hc
  obtain ⟨first, e, hfirst, _, hpass⟩ := h.passes c
  obtain ⟨second, e', hsecond, _, hpass'⟩ := h.passes c'
  rw [hsolo, Option.some.injEq, Prod.mk.injEq] at hfirst
  rw [hsolo', Option.some.injEq, Prod.mk.injEq] at hsecond
  rw [← hpass, ← hpass', ← hfirst.1, ← hsecond.1]

theorem Screens.bind (hp : Screens i providers p passes)
    (hq : Screens i providers q passes')
    (hsame : ∀ c d a, p.solo i providers.allow c = some (.ok a, d) →
      passes' d.store = passes' c.store) :
    Screens i providers (p >>= fun _ => q) fun w => passes w && passes' w where
  alike := hp.alike.bind fun _ => hq.alike
  passes c := by
    obtain ⟨result, d, hsolo, hdb, hpass⟩ := hp.passes c
    simp only [Prog.solo_bind, hsolo, Option.bind_some]
    cases result with
    | error e => exact ⟨_, d, rfl, hdb, by rw [← hpass]; rfl⟩
    | ok a =>
        obtain ⟨result', d', hsolo', hdb', hpass'⟩ := hq.passes d
        refine ⟨result', d', hsolo', hdb'.trans hdb, ?_⟩
        rw [hpass', hsame c d a hsolo, ← hpass]
        rfl

end Screening

section Faults

/-- A unique key is taken. -/
def Clash (fault : Fault AuthError) : Prop :=
  fault = .integrity

theorem faults_lockRow (P : Fault AuthError → Prop) (row : Row) : (lockRow row).Faults P :=
  fun _ => trivial

theorem faults_write (P : Fault AuthError → Prop) (change : DbChange) :
    (write change).Faults P :=
  trivial

theorem faults_reserve (key : IndexKey) (removed : List Uuid) :
    (reserve key removed).Faults Clash := by
  refine (faults_lockRow Clash _).bind fun entries => ?_
  split
  · trivial
  · exact rfl

open RegistrationRepository

end Faults

/-- The random tokens of call `i` are new. -/
structure FreshLinks (env : Env) (i : Nat) (d : Db) : Prop where
  verification : (IndexKey.mailedToken (env.verificationHash (.drawn i 5))).entries d = []
  reset : (IndexKey.mailedToken (env.resetHash (.drawn i 0))).entries d = []

section Answers

variable {P : Except AuthError α → Prop} {c : Core Db World}

/-- What a caller is told when something has to be delivered first. -/
def told (providers : Providers) (error : AuthError) : Except AuthError Result :=
  if providers.delivers then .ok .nothing else .error error

end Answers

/-- A database with nobody in it. -/
def emptyDb : Db where
  users := ∅
  identities := ∅
  mfaDevices := ∅
  credentials := ∅
  families := ∅
  tokens := ∅
  sessions := ∅
  organizations := ∅
  catalog := ∅
  bindings := ∅
  invitations := ∅
  devices := ∅
  staff := ∅
  requests := ∅
  history := ∅
  ephemeral := ∅
  contactChanges := ∅
  governed := ∅
  exports := ∅
  artifacts := ∅
  referrals := ∅
  audit := []

/-- A database with one account; its identity is verified once it is active. -/
def accountDb (contactType : ContactType) (value : String) (state : UserState) : Db :=
  { emptyDb with
    users := Table.add (.given 0) (match contactType with
      | .email => ⟨some value, none, none, none, state, 1, none⟩
      | .phone => ⟨none, none, none, some value, state, 1, none⟩) ∅
    identities := Table.add (.given 1)
      ⟨.given 0, RecoveryRepository.contactProvider contactType, value, none, state == .active⟩ ∅ }

/-- What a request does once it has been screened. -/
structure Answered (env : Env) (i : Nat) (providers : Providers) (call : Call)
    (tail : Proc Result) : Prop where
  split : program env i call = screen env call >>= fun _ => tail
  quiet : ∀ c, FreshLinks env i c.db →
    providers.delivers = true ∨ call.isReset = true →
      Ends i providers (· = .ok .nothing) tail c
  telling : providers.delivers = false → call.isReset = false →
    ∀ contactType value, call.contact env = some (contactType, value) → ∃ r r', r ≠ r' ∧
      (∀ w, Ends i providers (· = r) tail ⟨accountDb contactType value .active, w⟩) ∧
      ∀ w, Ends i providers (· = r') tail ⟨accountDb contactType value .pending, w⟩

section Answered

open RegistrationControl RegistrationRepository

variable {env : Env}

end Answered

/-- What the caller of a request made with nobody else around is told. -/
def outcome (env : Env) (providers : Providers) (i : Nat) (call : Call) (c : Core Db World) :
    Option (Except AuthError Result) :=
  ((application env).solo providers.allow i call c).map Prod.fst

section Outcome

variable {env : Env} {call : Call} {tail : Proc Result} {c c' : Core Db World}

end Outcome

end AuthCore
