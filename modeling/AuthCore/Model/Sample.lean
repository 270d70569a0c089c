/-
A small deployment to run the application on: readable stand-ins for the pure
functions of other packages, a few accounts, and calls made one after the
other.
-/
import AuthCore.Model.Service

namespace AuthCore

open Interleave Relational

/-- Distinct tokens have distinct digests. -/
def sampleHash : Token → Digest
  | .given n => 2 * n
  | .drawn call serial => 2 * (1000 * call + serial) + 1

/-- A hash is the password behind a mark; every presented passkey checks, and an
authenticator shows "code" in the first step of the clock. -/
def sampleEnv : Env where
  tokenHash := sampleHash
  fingerprintHash := String.length
  signalHash := String.length
  otpHash := String.length
  backupDigest := String.length
  upperChar c := [c.toUpper]
  keyHash := String.length
  normalizeEmail email := email
  normalizePhone phone := some phone
  normalizeName name := name
  slug name _ := name
  pseudonym _ := "someone"
  passwordVerify hash password := hash == "hashed " ++ password
  passwordNeedsRehash _ := false
  passwordHash password _ := "hashed " ++ password
  dummyPasswordHash := "dummy"
  verifyCallback provider code _ _ := some ⟨provider, code, code, true, none, none⟩
  totpAt _ step := if step = 0 then "code" else "later"
  encrypt _ _ := "sealed"
  decrypt _ _ := some "secret"
  otpCode _ := "code"
  backupCode _ := "backup"
  credentialId credential := credential
  verifyRegistration credential _ := some (credential, "key", 0)
  verifyAuthentication _ _ stored := some (stored.signCount + 1, false)
  verificationHash := sampleHash
  resetHash := sampleHash
  stripName name := name
  passwordPolicy _ := none
  contactCode _ := true
  sealExport _ _ _ := ("sealed", "digest")
  verifyCallback_provider := by
    intro provider code nonce verifier profile h
    cases h
    rfl
  upperChar_ascii _ _ := rfl

def samplePassword : String := "hashed pw"

/-- User `n` with the address `name`, a verified password and a device that has
been seen before. -/
structure SampleUser where
  id : Uuid
  name : String
  state : UserState

def sampleTable {V : Type} (rows : List (Uuid × V)) : Table Uuid V :=
  rows.foldl (fun t row => t.add row.1 row.2) ∅

def sampleDb (users : List SampleUser) : Db where
  users := sampleTable (users.map fun u =>
    (u.id, ⟨some u.name, none, none, none, u.state, 1, none⟩))
  identities := sampleTable (users.map fun u =>
    (u.id, ⟨u.id, .password, u.name, some samplePassword, true⟩))
  mfaDevices := ∅
  credentials := ∅
  families := ∅
  tokens := ∅
  sessions := ∅
  organizations := ∅
  catalog := sampleTable [(.given 101, ⟨"OWNER", "members.manage", true⟩),
    (.given 102, ⟨"MEMBER", "projects.read", true⟩)]
  bindings := ∅
  invitations := ∅
  devices := sampleTable (users.map fun u => (u.id, ⟨u.id, 5, .unknown, none, 0⟩))
  staff := ∅
  requests := ∅
  history := ∅
  ephemeral := ∅
  contactChanges := ∅
  governed := ∅
  exports := ∅
  artifacts := ∅
  referrals := ∅
  audit := []

def sampleStart (db : Db) : Core Db World :=
  ⟨db, ⟨1000000, fun _ => none, [], []⟩⟩

/-- Two accounts that can log in. -/
def sampleCore : Core Db World :=
  sampleStart (sampleDb [⟨.given 1, "ann", .active⟩, ⟨.given 2, "bob", .active⟩])

/-- Ann has an authenticator; Bob and Eve are members of staff. -/
def staffedCore : Core Db World :=
  sampleStart
    { sampleDb [⟨.given 1, "ann", .active⟩, ⟨.given 2, "bob", .active⟩, ⟨.given 3, "eve", .active⟩]
      with
      mfaDevices := sampleTable
        [(.given 1, ⟨.given 1, .totp, none, .active, none, none, none, none, none⟩)]
      staff := sampleTable [(.given 201, ⟨.given 2, .supportAgentL2, none⟩),
        (.given 202, ⟨.given 3, .securitySupervisorL3, none⟩)] }

/-- What a token says whose holder has just passed a second check. -/
def strongClaims (user : Uuid) : AccessClaims :=
  ⟨user, .given 0, .given 0, .given 0, 0, 0, .web, ["totp"], none, none, []⟩

abbrev SampleMove := Move (application sampleEnv)

def steps (i n : Nat) : List SampleMove :=
  List.replicate n (.step i 0)

/-- Call `i` made and run for `n` steps. -/
def perform (i : Nat) (call : Call) (n : Nat) : List SampleMove :=
  .call i call :: steps i n

/-- A password login of a known device and the session that follows. -/
def signIn (i : Nat) (name : String) : List SampleMove :=
  perform i (.loginPassword name "pw" "phone" none) 16 ++
    perform (i + 1) (.createSession (.drawn i 0) .web "phone" none) 16

/-- A link for a new password, and the reset that uses it. -/
def mailLink (i : Nat) (name : String) : List SampleMove :=
  perform i (.requestPasswordReset name) 13

def useLink (i : Nat) (token : Token) (password : String) : List SampleMove :=
  perform i (.resetPassword token password) 22

/-- The state after a list of moves. -/
def reached (moves : List SampleMove) : Config schema World AuthError Result :=
  ((application sampleEnv).run (Service.start sampleCore) moves).getD (Service.start sampleCore)

theorem reachable_reached (moves : List SampleMove)
    (h : ((application sampleEnv).run (Service.start sampleCore) moves).isSome = true) :
    (application sampleEnv).Reachable sampleCore (reached moves) := by
  obtain ⟨s, hs⟩ := Option.isSome_iff_exists.mp h
  refine ⟨moves, ?_⟩
  simp [reached, hs]

/-- Whether some entry of a log has a property that depends on what came
before. -/
def anyEntry (p : Nat → Event → List (Nat × Event) → Bool) : List (Nat × Event) → Bool
  | [] => false
  | (i, e) :: earlier => p i e earlier || anyEntry p earlier

theorem exists_of_anyEntry {p : Nat → Event → List (Nat × Event) → Bool}
    {log : List (Nat × Event)} (h : anyEntry p log = true) :
    ∃ later i e earlier, log = later ++ (i, e) :: earlier ∧ p i e earlier = true := by
  induction log with
  | nil => cases h
  | cons entry rest ih =>
      obtain ⟨i, e⟩ := entry
      rcases Bool.or_eq_true_iff.mp h with hfirst | hrest
      · exact ⟨[], i, e, rest, rfl, hfirst⟩
      · obtain ⟨later, j, e', earlier, rfl, hp⟩ := ih hrest
        exact ⟨(i, e) :: later, j, e', earlier, rfl, hp⟩

theorem quiescent_reached {moves : List SampleMove}
    (h : ((application sampleEnv).run (Service.start sampleCore) moves).map (fun s =>
      ((application sampleEnv).callers moves).all fun i => Service.isOver (s.threads i)) =
        some true) : (reached moves).Quiescent := by
  obtain ⟨s, hs, hover⟩ := Option.map_eq_some_iff.mp h
  have hreached : reached moves = s := by simp [reached, hs]
  rw [hreached]
  exact Service.quiescent_of_over hs hover

end AuthCore
