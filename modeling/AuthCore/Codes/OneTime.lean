/-
One-time codes.  A code lives in one key of the store together with the number
of wrong guesses; the guesses since the last code was written say what the key
can still hold.
-/
import AuthCore.Accounts.Workflows
import AuthCore.Model.Sample

namespace AuthCore

open Interleave

/-- The commands on the one-time codes, for clients with any limit of attempts. -/
inductive OtpCall where
  | storeOtpHash (user : Uuid) (purpose : OtpPurpose) (hash : Digest)
  | consumeOtp (user : Uuid) (purpose : OtpPurpose)
  | verifyAndConsumeOtp (user : Uuid) (purpose : OtpPurpose) (candidate : Digest)
      (maxAttempts : Nat)
deriving DecidableEq, Repr

def otpProgram : OtpCall → Proc (Option Int)
  | .storeOtpHash user purpose hash => do
      Redis.storeOtpHash user purpose hash
      return none
  | .consumeOtp user purpose => do
      Redis.consumeOtp user purpose
      return none
  | .verifyAndConsumeOtp user purpose candidate maxAttempts => do
      return some (← Redis.verifyAndConsumeOtp user purpose candidate maxAttempts)

/-- Any number of clients of the one-time codes over one store. -/
def otpStore : Service schema World AuthError (Option Int) where
  Call := OtpCall
  prog _ := otpProgram
  onCall _ _ w := w
  onReturn _ _ w := w
  tick n w := { w with now := w.now + n }

/-- The commands that the clients of the one-time codes give. -/
def Event.isOtp : Event → Bool
  | otpStored .. => true
  | otpExpires .. => true
  | otpTried .. => true
  | removed (.otp ..) => true
  | _ => false

/-- A command on a one-time code that answers as it is recorded. -/
def OtpStep (i : Nat) (d : Db) (w w' : World) : Prop :=
  ∃ e : Event, e.isOtp = true ∧ e.Tells ⟨d, w⟩ ∧ w' = (e.stored w).record i e

theorem acts_otpProgram (i : Nat) (call : OtpCall) : (otpProgram call).Acts OtpStep i := by
  cases call with
  | storeOtpHash user purpose hash =>
      intro d w answer hanswer
      obtain rfl := List.mem_singleton.mp hanswer
      refine ⟨⟨.otpStored user purpose hash, rfl, trivial, rfl⟩, ?_⟩
      intro d w answer hanswer
      obtain rfl := List.mem_singleton.mp hanswer
      exact ⟨⟨.otpExpires user purpose, rfl, trivial, rfl⟩, trivial⟩
  | consumeOtp user purpose =>
      intro d w answer hanswer
      obtain rfl := List.mem_singleton.mp hanswer
      exact ⟨⟨.removed (.otp user purpose), rfl, trivial, rfl⟩, trivial⟩
  | verifyAndConsumeOtp user purpose candidate maxAttempts =>
      intro d w answer hanswer
      obtain rfl := List.mem_singleton.mp hanswer
      exact ⟨⟨.otpTried user purpose candidate maxAttempts _, rfl, rfl, rfl⟩, trivial⟩

/-- A code is written to the key. -/
def Event.writesOtp (user : Uuid) (purpose : OtpPurpose) : Event → Bool
  | otpStored u p _ => u == user && p == purpose
  | _ => false

/-- A guess at the key with this answer. -/
def Event.guesses (user : Uuid) (purpose : OtpPurpose) (answer : Int) : Event → Bool
  | otpTried u p _ _ outcome => u == user && p == purpose && outcome == answer
  | _ => false

def answered (user : Uuid) (purpose : OtpPurpose) (answer : Int) (log : List (Nat × Event)) :
    Nat :=
  log.countP fun entry => entry.2.guesses user purpose answer

/-- What the guesses `since` a code with this hash was written have been told, when `m` wrong
ones are allowed. -/
structure OneTime (m : Nat) (user : Uuid) (purpose : OtpPurpose) (hash : Digest)
    (since : List (Nat × Event)) : Prop where
  once : answered user purpose 1 since ≤ 1
  right : ∀ i candidate k, (i, .otpTried user purpose candidate k 1) ∈ since → candidate = hash
  bounded : answered user purpose 0 since ≤ m
  closed : ∀ later i candidate k outcome earlier,
    since = later ++ (i, .otpTried user purpose candidate k outcome) :: earlier →
    answered user purpose 1 earlier = 1 ∨ answered user purpose 0 earlier = m → outcome = -1

/-- What the key can still hold: the code, with the wrong guesses counted. -/
def Holds (m : Nat) (user : Uuid) (purpose : OtpPurpose) (hash : Digest)
    (since : List (Nat × Event)) (cache : Cache) : Prop :=
  ∀ otp expiry, cache (.otp user purpose) = some (otp, expiry) →
    otp = ⟨hash, answered user purpose 0 since⟩ ∧ answered user purpose 1 since = 0 ∧
      answered user purpose 0 since < m

section Steps

variable {m : Nat} {user : Uuid} {purpose : OtpPurpose} {hash : Digest}
  {since : List (Nat × Event)} {w : World} {i : Nat} {e : Event}

theorem answered_cons {answer : Int} :
    answered user purpose answer ((i, e) :: since) =
      answered user purpose answer since + if e.guesses user purpose answer then 1 else 0 := by
  unfold answered
  rw [List.countP_cons]

theorem guesses_of_other {answer : Int}
    (h : ∀ candidate k outcome, e ≠ .otpTried user purpose candidate k outcome) :
    e.guesses user purpose answer = false := by
  by_contra hguess
  unfold Event.guesses at hguess
  split at hguess
  · simp only [Bool.not_eq_false, Bool.and_eq_true, beq_iff_eq] at hguess
    obtain ⟨⟨rfl, rfl⟩, _⟩ := hguess
    exact h _ _ _ rfl
  · exact hguess rfl

theorem OneTime.nil (hash : Digest) : OneTime m user purpose hash [] where
  once := Nat.zero_le 1
  right := by simp
  bounded := Nat.zero_le m
  closed := by simp

/-- A code has just been written. -/
theorem holds_setOtp (hm : 1 ≤ m) : Holds m user purpose hash []
    (Redis.setOtp user purpose hash w).cache := by
  intro otp expiry hentry
  simp only [Redis.setOtp, Cache.put, Function.update_self, Option.some.injEq] at hentry
  obtain ⟨rfl, _⟩ := hentry
  exact ⟨rfl, rfl, hm⟩

theorem OneTime.other (h : OneTime m user purpose hash since)
    (hother : ∀ candidate k outcome, e ≠ .otpTried user purpose candidate k outcome) :
    OneTime m user purpose hash ((i, e) :: since) := by
  have hnone : ∀ answer, e.guesses user purpose answer = false :=
    fun _ => guesses_of_other hother
  constructor
  · simpa [answered_cons, hnone] using h.once
  · intro j candidate k hmem
    rcases List.mem_cons.mp hmem with heq | hold
    · cases heq
      exact absurd rfl (hother candidate k 1)
    · exact h.right j candidate k hold
  · simpa [answered_cons, hnone] using h.bounded
  · intro later j candidate k outcome earlier heq
    cases later with
    | nil =>
        cases heq
        exact absurd rfl (hother candidate k outcome)
    | cons head rest =>
        cases heq
        exact h.closed rest j candidate k outcome earlier rfl

/-- One guess, with the answer that the store gives. -/
theorem OneTime.guess {candidate : Digest} {outcome : Int}
    (h : OneTime m user purpose hash since) (hholds : Holds m user purpose hash since w.cache)
    (houtcome : outcome = (Redis.tryOtp user purpose candidate m w).1) :
    OneTime m user purpose hash
        ((i, .otpTried user purpose candidate m outcome) :: since) ∧
      Holds m user purpose hash ((i, .otpTried user purpose candidate m outcome) :: since)
        (Redis.tryOtp user purpose candidate m w).2.cache := by
  have hcases : outcome = -1 ∧ (Redis.tryOtp user purpose candidate m w).2 = w ∨
      (answered user purpose 1 since = 0 ∧ answered user purpose 0 since < m) ∧
        (outcome = 1 ∧ candidate = hash ∧
            (Redis.tryOtp user purpose candidate m w).2.cache (.otp user purpose) = none ∨
          outcome = 0 ∧ ∀ otp expiry, (Redis.tryOtp user purpose candidate m w).2.cache
            (.otp user purpose) = some (otp, expiry) →
              otp = ⟨hash, answered user purpose 0 since + 1⟩ ∧
                answered user purpose 0 since + 1 < m) := by
    unfold Redis.tryOtp at houtcome ⊢
    split at houtcome
    · exact Or.inl ⟨houtcome, rfl⟩
    · rename_i otp hget
      obtain ⟨expiry, hentry⟩ := Cache.entry_of_get hget
      obtain ⟨rfl, hfirst⟩ := hholds otp expiry hentry
      refine Or.inr ⟨hfirst, ?_⟩
      dsimp only at houtcome ⊢
      split at houtcome
      · rename_i hsame
        exact Or.inl ⟨houtcome, hsame.symm, by simp [hsame, Cache.remove]⟩
      · rename_i hdiffers
        rw [if_neg hdiffers]
        split at houtcome
        · rename_i hlast
          rw [if_pos hlast]
          exact Or.inr ⟨houtcome, by simp [Cache.remove]⟩
        · rename_i hmore
          rw [if_neg hmore]
          refine Or.inr ⟨houtcome, fun otp expiry hentry' => ?_⟩
          simp only [Cache.put, Function.update_self, Option.some.injEq] at hentry'
          obtain ⟨rfl, _⟩ := hentry'
          exact ⟨rfl, by omega⟩
  have hclosed : (answered user purpose 1 since = 1 ∨ answered user purpose 0 since = m) →
      outcome = -1 := by
    intro hspent
    rcases hcases with ⟨hgone, _⟩ | ⟨hfirst, _⟩
    · exact hgone
    · omega
  have hlater : ∀ later j candidate' k outcome' earlier,
      (i, .otpTried user purpose candidate m outcome) :: since =
        later ++ (j, .otpTried user purpose candidate' k outcome') :: earlier →
      answered user purpose 1 earlier = 1 ∨ answered user purpose 0 earlier = m →
      outcome' = -1 := by
    intro later j candidate' k outcome' earlier heq
    cases later with
    | nil =>
        cases heq
        exact hclosed
    | cons head rest =>
        cases heq
        exact h.closed rest j candidate' k outcome' earlier rfl
  have hone : answered user purpose 1 ((i, .otpTried user purpose candidate m outcome) :: since) =
      answered user purpose 1 since + if outcome = 1 then 1 else 0 := by
    simp [answered_cons, Event.guesses]
  have hzero : answered user purpose 0 ((i, .otpTried user purpose candidate m outcome) :: since) =
      answered user purpose 0 since + if outcome = 0 then 1 else 0 := by
    simp [answered_cons, Event.guesses]
  rcases hcases with ⟨rfl, hsame⟩ | ⟨⟨hnone, hfew⟩, ⟨rfl, rfl, hgone⟩ | ⟨rfl, hcounted⟩⟩
  · refine ⟨⟨?_, ?_, ?_, hlater⟩, ?_⟩
    · simpa [hone] using h.once
    · intro j candidate' k hmem
      exact h.right j candidate' k (by simpa using hmem)
    · simpa [hzero] using h.bounded
    · rw [hsame]
      intro otp expiry hentry
      simpa [hone, hzero] using hholds otp expiry hentry
  · refine ⟨⟨?_, ?_, ?_, hlater⟩, ?_⟩
    · simp [hone, hnone]
    · intro j candidate' k hmem
      rcases List.mem_cons.mp hmem with heq | hold
      · cases heq
        rfl
      · exact h.right j candidate' k hold
    · simpa [hzero] using h.bounded
    · intro otp expiry hentry
      rw [hgone] at hentry
      cases hentry
  · refine ⟨⟨?_, ?_, ?_, hlater⟩, ?_⟩
    · simpa [hone] using h.once
    · intro j candidate' k hmem
      exact h.right j candidate' k (by simpa using hmem)
    · rw [hzero, if_pos rfl]
      omega
    · intro otp expiry hentry
      obtain ⟨hotp, hless⟩ := hcounted otp expiry hentry
      simpa [hone, hzero, hnone] using ⟨hotp, hless⟩

/-- A command that is neither a write to the key nor a guess at it leaves the code, or takes
it out. -/
theorem Holds.other (h : Holds m user purpose hash since w.cache) (hotp : e.isOtp = true)
    (hwrites : e.writesOtp user purpose = false)
    (hother : ∀ candidate k outcome, e ≠ .otpTried user purpose candidate k outcome) :
    Holds m user purpose hash since (e.stored w).cache := by
  by_cases htouches : e.touches = some (.otp user purpose)
  · cases e with
    | otpStored u p hash' =>
        cases htouches
        simp [Event.writesOtp] at hwrites
    | otpTried u p candidate k outcome =>
        cases htouches
        exact absurd rfl (hother candidate k outcome)
    | otpExpires u p =>
        cases htouches
        change Holds m user purpose hash since (Redis.expireOtp user purpose w).cache
        unfold Redis.expireOtp
        split
        · exact h
        · rename_i otp hget
          obtain ⟨expiry, hentry⟩ := Cache.entry_of_get hget
          intro otp' expiry' hentry'
          simp only [Cache.put, Function.update_self, Option.some.injEq] at hentry'
          obtain ⟨rfl, _⟩ := hentry'
          exact h otp expiry hentry
    | removed key =>
        cases htouches
        intro otp expiry hentry
        simp [Event.stored, Cache.remove] at hentry
    | _ => cases hotp
  · intro otp expiry hentry
    rw [Event.cache_stored htouches] at hentry
    exact h otp expiry hentry

end Steps

section Runs

variable {m : Nat} {user : Uuid} {purpose : OtpPurpose} {c : Core Db World}

/-- The guesses at the key after its last code allow `m` wrong ones. -/
def Limited (m : Nat) (user : Uuid) (purpose : OtpPurpose) (since : List (Nat × Event)) : Prop :=
  ∀ i candidate k outcome, (i, .otpTried user purpose candidate k outcome) ∈ since → k = m

/-- `since` is what a log has after the last code was written to the key. -/
def Since (user : Uuid) (purpose : OtpPurpose) (hash : Digest) (since : List (Nat × Event))
    (log : List (Nat × Event)) : Prop :=
  (∃ i earlier, log = since ++ (i, .otpStored user purpose hash) :: earlier) ∧
    ∀ entry ∈ since, entry.2.writesOtp user purpose = false

theorem Since.cons {i : Nat} {e : Event} {hash : Digest} {since log : List (Nat × Event)}
    (h : Since user purpose hash since ((i, e) :: log)) :
    since = [] ∧ e = .otpStored user purpose hash ∨
      ∃ rest, since = (i, e) :: rest ∧ Since user purpose hash rest log ∧
        e.writesOtp user purpose = false := by
  obtain ⟨⟨j, earlier, hlog⟩, hnone⟩ := h
  cases since with
  | nil =>
      cases hlog
      exact Or.inl ⟨rfl, rfl⟩
  | cons head rest =>
      cases hlog
      refine Or.inr ⟨rest, rfl, ⟨⟨j, earlier, rfl⟩, ?_⟩, hnone _ List.mem_cons_self⟩
      exact fun entry hentry => hnone entry (List.mem_cons_of_mem _ hentry)

/-- At every point of the log the guesses were told what a one-time code allows, and now the
key holds what they have left. -/
structure OtpInvariant (m : Nat) (user : Uuid) (purpose : OtpPurpose) (w : World) : Prop where
  told : ∀ log, log <:+ w.log → ∀ hash since, Since user purpose hash since log →
    Limited m user purpose since → OneTime m user purpose hash since
  holds : ∀ hash since, Since user purpose hash since w.log → Limited m user purpose since →
    Holds m user purpose hash since w.cache

theorem OtpInvariant.step {i : Nat} {d : Db} {w w' : World}
    (h : OtpInvariant m user purpose w) (hm : 1 ≤ m) (hstep : OtpStep i d w w') :
    OtpInvariant m user purpose w' := by
  obtain ⟨e, hotp, htells, rfl⟩ := hstep
  have hnext : ∀ hash since, Since user purpose hash since ((i, e) :: w.log) →
      Limited m user purpose since →
      OneTime m user purpose hash since ∧ Holds m user purpose hash since (e.stored w).cache := by
    intro hash since hsince hlimited
    rcases hsince.cons with ⟨rfl, rfl⟩ | ⟨rest, rfl, hrest, hwrites⟩
    · exact ⟨.nil hash, holds_setOtp hm⟩
    · have hfew : Limited m user purpose rest :=
        fun j candidate k outcome hmem => hlimited j candidate k outcome (List.mem_cons_of_mem _ hmem)
      have honce := h.told w.log (List.suffix_refl _) hash rest hrest hfew
      have hholds := h.holds hash rest hrest hfew
      by_cases hguess : ∃ candidate k outcome, e = .otpTried user purpose candidate k outcome
      · obtain ⟨candidate, k, outcome, rfl⟩ := hguess
        obtain rfl := hlimited i candidate k outcome List.mem_cons_self
        exact honce.guess hholds htells
      · have hother : ∀ candidate k outcome, e ≠ .otpTried user purpose candidate k outcome :=
          fun candidate k outcome heq => hguess ⟨candidate, k, outcome, heq⟩
        refine ⟨honce.other hother, ?_⟩
        intro otp expiry hentry
        have hleft := hholds.other hotp hwrites hother otp expiry hentry
        have hnone : ∀ answer, answered user purpose answer ((i, e) :: rest) =
            answered user purpose answer rest := by
          intro answer
          rw [answered_cons, guesses_of_other hother]
          rfl
        rwa [hnone, hnone]
  constructor
  · intro log hlog hash since hsince hlimited
    change log <:+ (i, e) :: (e.stored w).log at hlog
    rw [Event.log_stored] at hlog
    rcases List.suffix_cons_iff.mp hlog with rfl | hold
    · exact (hnext hash since hsince hlimited).1
    · exact h.told log hold hash since hsince hlimited
  · intro hash since hsince hlimited
    change Since user purpose hash since ((i, e) :: (e.stored w).log) at hsince
    rw [Event.log_stored] at hsince
    exact (hnext hash since hsince hlimited).2

/-- Between two codes that are written to a key, the guesses at it are told what a one-time
code allows. -/
theorem one_time_codes (hm : 1 ≤ m) (hempty : c.store.log = [])
    {s : Config schema World AuthError (Option Int)} (h : otpStore.Reachable c s)
    {later since earlier : List (Nat × Event)} {i : Nat} {hash : Digest}
    (hlog : s.core.store.log =
      later ++ (since ++ (i, .otpStored user purpose hash) :: earlier))
    (hlast : ∀ entry ∈ since, entry.2.writesOtp user purpose = false)
    (hlimited : Limited m user purpose since) : OneTime m user purpose hash since := by
  have hinvariant : OtpInvariant m user purpose s.core.store := by
    refine h.acts (P := fun c => OtpInvariant m user purpose c.store) (R := OtpStep)
      acts_otpProgram ?_ (fun _ _ _ _ hP hstep => hP.step hm hstep) (fun _ _ _ _ hP => hP)
      (fun _ _ _ _ hP => hP) fun _ _ _ hP => ⟨hP.told, hP.holds⟩
    constructor
    · intro log hlog hash since hsince
      rw [hempty, List.suffix_nil] at hlog
      subst hlog
      obtain ⟨⟨j, earlier, hnil⟩, _⟩ := hsince
      simp at hnil
    · intro hash since hsince
      rw [hempty] at hsince
      obtain ⟨⟨j, earlier, hnil⟩, _⟩ := hsince
      simp at hnil
  refine hinvariant.told (since ++ (i, .otpStored user purpose hash) :: earlier) ?_ hash since
    ⟨⟨i, earlier, rfl⟩, hlast⟩ hlimited
  rw [hlog]
  exact List.suffix_append _ _

end Runs

/-- A code is written, guessed wrong, guessed right and guessed again. -/
def guessedMoves : List (Move otpStore) :=
  [.call 0 (.storeOtpHash (.given 1) .phoneLogin 7), .step 0 0, .step 0 0,
    .call 1 (.verifyAndConsumeOtp (.given 1) .phoneLogin 8 3), .step 1 0,
    .call 2 (.verifyAndConsumeOtp (.given 1) .phoneLogin 7 3), .step 2 0,
    .call 3 (.verifyAndConsumeOtp (.given 1) .phoneLogin 7 3), .step 3 0]

/-- What the guesses are told. -/
def guessedSince : List (Nat × Event) :=
  [(3, .otpTried (.given 1) .phoneLogin 7 3 (-1)), (2, .otpTried (.given 1) .phoneLogin 7 3 1),
    (1, .otpTried (.given 1) .phoneLogin 8 3 0), (0, .otpExpires (.given 1) .phoneLogin)]

theorem one_time_codes_guessed :
    ∃ s, otpStore.Reachable sampleCore s ∧
      s.core.store.log = guessedSince ++ [(0, .otpStored (.given 1) .phoneLogin 7)] ∧
      answered (.given 1) .phoneLogin 1 guessedSince = 1 ∧
      OneTime 3 (.given 1) .phoneLogin 7 guessedSince := by
  obtain ⟨s, hreach, hrun⟩ := Service.reachable_of_run
    (show (otpStore.run (Service.start sampleCore) guessedMoves).map
        (fun s : Config schema World AuthError (Option Int) => s.core.store.log) =
          some (guessedSince ++ [(0, .otpStored (.given 1) .phoneLogin 7)]) from rfl)
  refine ⟨s, hreach, hrun, by decide, ?_⟩
  refine one_time_codes (by decide) rfl hreach (show _ = [] ++ _ from hrun) (by decide) ?_
  intro j candidate k outcome hmem
  simp only [guessedSince, List.mem_cons, Prod.mk.injEq, Event.otpTried.injEq, reduceCtorEq,
    and_false, List.not_mem_nil, or_false] at hmem
  omega

end AuthCore
