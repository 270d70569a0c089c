/-
The two verifiers of access tokens: the provider of the API with the store part
of its authentication, and the gateway.  Both read the claims that the signing
and decoding of tokens hands on, and look the revocations up under names they
build themselves.
-/
import Std.Data.String.ToInt
import Mathlib.Algebra.Group.Int.Defs
import AuthCore.Model.Values

namespace AuthCore

def ClientType.value : ClientType → String
  | .web => "WEB"
  | .mobile => "MOBILE"

def ClientType.ofValue (s : String) : Option ClientType :=
  if s = "WEB" then some .web else if s = "MOBILE" then some .mobile else none

theorem ClientType.ofValue_value (client : ClientType) :
    ClientType.ofValue (ClientType.value client) = some client := by
  cases client with
  | web => rfl
  | mobile => rfl

namespace Gateway

/-- The values of a token's claims. -/
inductive Json where
  | text (value : String)
  | number (value : Int)
  | texts (values : List String)
deriving DecidableEq, Repr

abbrev Object := List (String × Json)

def Object.get (o : Object) (name : String) : Option Json :=
  (o.find? fun entry => entry.1 == name).map Prod.snd

/-- A point in time as the library represents it, in microseconds: the years 1
to 9999. -/
structure Datetime where
  micros : Int
  lower : -62135596800000000 ≤ micros
  upper : micros < 253402300800000000

/-- The whole seconds of a claim; what is less than a second is dropped. -/
def Datetime.seconds (t : Datetime) : Int :=
  t.micros / 1000000

/-- `int(t.timestamp())` rounds towards the epoch. -/
def Datetime.timestamp (t : Datetime) : Int :=
  t.micros.tdiv 1000000

/-- `t + timedelta`, which overflows after the year 9999. -/
def Datetime.add (t : Datetime) (seconds : Nat) : Option Datetime :=
  if h : t.micros + seconds * 1000000 < 253402300800000000 then
    some ⟨t.micros + seconds * 1000000, by have := t.lower; omega, h⟩
  else
    none

/-- `unicode.IsSpace`. -/
def isSpace (c : Char) : Bool :=
  let n := c.toNat
  n ∈ [9, 10, 11, 12, 13, 32, 133, 160, 5760, 8232, 8233, 8239, 8287, 12288] ||
    decide (8192 ≤ n) && decide (n ≤ 8202)

/-- `strings.TrimSpace(s) == ""`. -/
def blank (s : String) : Bool :=
  s.toList.all isSpace

/-- The text of an identifier and the reader of such texts. -/
structure UuidText where
  text : Uuid → String
  parse : String → Option Uuid
  parse_text : ∀ u, parse (text u) = some u
  not_blank : ∀ u, blank (text u) = false

theorem UuidText.ne_empty (format : UuidText) (u : Uuid) : format.text u ≠ "" := by
  intro h
  have hblank := format.not_blank u
  rw [h] at hblank
  cases hblank

structure IssueArgs where
  userId : Uuid
  sessionId : Uuid
  familyId : Uuid
  jti : Uuid
  clientType : ClientType
  assurance : List String
  now : Datetime
  workspaceId : Option Uuid
  workspaceType : Option String
  roles : List String

/-- The claims of the workspace, when both its parts are given. -/
def scopeClaims (format : UuidText) (args : IssueArgs) : Object :=
  match args.workspaceId, args.workspaceType with
  | some workspace, some type =>
      [("wid", .text (format.text workspace)), ("wtype", .text type), ("roles", .texts args.roles)]
  | _, _ => []

/-- `LocalRS256TokenProvider.issue`: the claims it signs, with the issuer and
the audience that both verifiers are configured with. -/
def issue (format : UuidText) (issuer audience : String) (accessTtl : Nat) (args : IssueArgs) :
    Option Object :=
  (args.now.add accessTtl).map fun expiresAt =>
    [("iss", .text issuer), ("aud", .text audience), ("sub", .text (format.text args.userId)),
      ("sid", .text (format.text args.sessionId)), ("fid", .text (format.text args.familyId)),
      ("jti", .text (format.text args.jti)), ("iat", .number args.now.seconds),
      ("nbf", .number args.now.seconds), ("exp", .number expiresAt.seconds),
      ("client_type", .text (ClientType.value args.clientType)),
      ("amr", .texts args.assurance)] ++ scopeClaims format args

/-- Redis: a text with the second it expires at. -/
abbrev Store := String → Option (String × Int)

def Store.get (r : Store) (now : Int) (name : String) : Option String :=
  match r name with
  | some (value, expiry) => if now < expiry then some value else none
  | none => none

def Store.set (r : Store) (name value : String) (expiry : Int) : Store :=
  Function.update r name (some (value, expiry))

def Store.delete (r : Store) (name : String) : Store :=
  Function.update r name none

/-- The names of `SecurityKeyFactory`; `opaque` is the keyed digest. -/
structure KeyFactory where
  format : UuidText
  opaqueText : String → String

namespace KeyFactory

variable (keys : KeyFactory)

def accessRevocation (jti : Uuid) : String :=
  "auth:revocation:jti:" ++ keys.opaqueText (keys.format.text jti)

def familyRevocation (family : Uuid) : String :=
  "auth:revocation:family:" ++ keys.opaqueText (keys.format.text family)

def userRevocation (user : Uuid) : String :=
  "auth:revocation:user:" ++ keys.opaqueText (keys.format.text user)

def organizationRevocation (user org : Uuid) : String :=
  "auth:revocation:org:" ++ keys.opaqueText (keys.format.text user) ++ ":" ++
    keys.opaqueText (keys.format.text org)

end KeyFactory

def userRevocationTtl : Int := 2592000

/-- The revocation methods of `RedisSecurityStore`. -/
inductive Revocation where
  | accessToken (jti : Uuid) (remainingLifetime : Nat)
  | family (family : Uuid) (remainingLifetime : Nat)
  | user (user : Uuid) (issuedBefore : Datetime)
  | organization (user org : Uuid) (issuedBefore : Datetime)
  | clearOrganization (user org : Uuid)

def Revocation.run (keys : KeyFactory) (now : Int) (r : Store) : Revocation → Store
  | accessToken jti remaining => r.set (keys.accessRevocation jti) "1" (now + remaining)
  | family id remaining => r.set (keys.familyRevocation id) "1" (now + max 1 remaining)
  | user id issuedBefore =>
      r.set (keys.userRevocation id) issuedBefore.timestamp.repr (now + userRevocationTtl)
  | organization id org issuedBefore =>
      r.set (keys.organizationRevocation id org) issuedBefore.timestamp.repr
        (now + userRevocationTtl)
  | clearOrganization id org => r.delete (keys.organizationRevocation id org)

/-- The states that revocations at some times lead to. -/
inductive Producible (keys : KeyFactory) : Store → Prop
  | empty : Producible keys fun _ => none
  | run {r : Store} (now : Int) (op : Revocation) :
      Producible keys r → Producible keys (op.run keys now r)

namespace Api

/-- `str(value)`. -/
def str : Json → String
  | .text s => s
  | .number n => n.repr
  | .texts values => "[" ++ ", ".intercalate (values.map fun s => "'" ++ s ++ "'") ++ "]"

/-- `int(value)`. -/
def int : Json → Option Int
  | .text s => s.toInt?
  | .number n => some n
  | .texts _ => none

/-- `tuple(str(item) for item in value)`. -/
def items : Json → Option (List String)
  | .text s => some (s.toList.map fun c => String.ofList [c])
  | .number _ => none
  | .texts values => some values

/-- Whether a claim is present and true as a condition. -/
def truthy : Option Json → Bool
  | some (.text s) => s != ""
  | some (.number n) => n != 0
  | some (.texts values) => !values.isEmpty
  | none => false

structure Claims where
  userId : Uuid
  sessionId : Uuid
  familyId : Uuid
  jti : Uuid
  issuedAt : Int
  expiresAt : Int
  clientType : ClientType
  assurance : List String
  workspaceId : Option Uuid
  workspaceType : Option String
  roles : List String
deriving DecidableEq, Repr

def uuid (format : UuidText) (o : Object) (name : String) : Option Uuid :=
  (o.get name).bind fun value => format.parse (str value)

/-- `LocalRS256TokenProvider.verify` on the decoded claims. -/
def verify (format : UuidText) (o : Object) : Option Claims := do
  let issuedAt ← (o.get "iat").bind int
  let expiresAt ← (o.get "exp").bind int
  let assurance ← items ((o.get "amr").getD (.texts []))
  let workspaceId ← if truthy (o.get "wid") then (uuid format o "wid").map some else some none
  let workspaceType := if truthy (o.get "wtype") then (o.get "wtype").map str else none
  let roles ← items ((o.get "roles").getD (.texts []))
  let userId ← uuid format o "sub"
  let sessionId ← uuid format o "sid"
  let familyId ← uuid format o "fid"
  let jti ← uuid format o "jti"
  let clientType ← (o.get "client_type").bind fun value => ClientType.ofValue (str value)
  return ⟨userId, sessionId, familyId, jti, issuedAt, expiresAt, clientType, assurance,
    workspaceId, workspaceType, roles⟩

/-- A stored cut-off, or none; an unreadable one is an exception. -/
def cutoff (r : Store) (now : Int) (name : String) : Option (Option Int) :=
  match r.get now name with
  | none => some none
  | some value => value.toInt?.map some

def issuedBefore (claims : Claims) : Option Int → Bool
  | some revokedAt => decide (claims.issuedAt ≤ revokedAt)
  | none => false

/-- The part of `SessionControl.authenticate` that reads the store. -/
def admits (keys : KeyFactory) (r : Store) (now : Int) (claims : Claims) : Bool :=
  if (r.get now (keys.accessRevocation claims.jti)).isSome then
    false
  else if (r.get now (keys.familyRevocation claims.familyId)).isSome then
    false
  else
    match cutoff r now (keys.userRevocation claims.userId) with
    | none => false
    | some revokedAt =>
        if issuedBefore claims revokedAt then
          false
        else
          match claims.workspaceId with
          | some workspace =>
              if claims.workspaceType = some "organization" then
                match cutoff r now (keys.organizationRevocation claims.userId workspace) with
                | none => false
                | some revokedAt => !issuedBefore claims revokedAt
              else
                true
          | none => true

/-- `decodes` is the library: the claims of a well-signed token for this issuer
and audience at this time. -/
def authenticate (keys : KeyFactory) (decodes : Object → Int → Bool) (r : Store) (now : Int)
    (o : Object) : Option Claims :=
  if decodes o now then
    (verify keys.format o).filter (admits keys r now)
  else
    none

end Api

structure VerifiedClaims where
  userID : String
  sessionID : String
  familyID : String
  jti : String
  clientType : String
  assurance : List String
  workspaceID : String
  workspaceType : String
  roles : List String
  issuedAt : Int
deriving DecidableEq, Repr

/-- `claims[name].(string)`. -/
def string (o : Object) (name : String) : Option String :=
  match o.get name with
  | some (.text s) => some s
  | _ => none

/-- The strings of a claim that is a list. -/
def strings (o : Object) (name : String) : List String :=
  match o.get name with
  | some (.texts values) => values
  | _ => []

def getIssuedAt (o : Object) : Option Int :=
  match o.get "iat" with
  | some (.number n) => some n
  | _ => none

def verifiedClaims (o : Object) : Option VerifiedClaims := do
  let userID ← string o "sub"
  let sessionID ← string o "sid"
  let familyID ← string o "fid"
  let jti ← string o "jti"
  let clientType ← string o "client_type"
  let issuedAt ← getIssuedAt o
  let workspaceID := (string o "wid").getD ""
  let workspaceType := (string o "wtype").getD ""
  if (workspaceID == "") != (workspaceType == "") then
    none
  else if blank userID || blank sessionID then
    none
  else
    return ⟨userID, sessionID, familyID, jti, clientType, strings o "amr", workspaceID,
      workspaceType, strings o "roles", issuedAt⟩

def redisKey (keys : KeyFactory) (family value : String) : String :=
  family ++ ":" ++ keys.opaqueText value

def organizationRedisKey (keys : KeyFactory) (userID workspaceID : String) : String :=
  "auth:revocation:org:" ++ keys.opaqueText userID ++ ":" ++ keys.opaqueText workspaceID

/-- `fmt.Sscan` into a 64-bit integer. -/
def scan (value : String) : Option Int :=
  value.toInt?.filter fun n => decide (-2 ^ 63 ≤ n) && decide (n < 2 ^ 63)

/-- Whether a stored cut-off lets the token pass. -/
def passesCutoff (claims : VerifiedClaims) : Option String → Bool
  | none => true
  | some value =>
      match scan value with
      | none => false
      | some revokedAt => decide (revokedAt < claims.issuedAt)

def checkRevocation (keys : KeyFactory) (r : Store) (now : Int) (claims : VerifiedClaims) : Bool :=
  if (r.get now (redisKey keys "auth:revocation:jti" claims.jti)).isSome ||
      (r.get now (redisKey keys "auth:revocation:family" claims.familyID)).isSome then
    false
  else if !passesCutoff claims (r.get now (redisKey keys "auth:revocation:user" claims.userID)) then
    false
  else if claims.workspaceID != "" && claims.workspaceType == "organization" then
    passesCutoff claims (r.get now (organizationRedisKey keys claims.userID claims.workspaceID))
  else
    true

/-- `JWTVerifier.Verify`. -/
def verify (keys : KeyFactory) (decodes : Object → Int → Bool) (r : Store) (now : Int)
    (o : Object) : Option VerifiedClaims :=
  if decodes o now then
    (verifiedClaims o).filter (checkRevocation keys r now)
  else
    none

end Gateway

end AuthCore
