/-
The two verifiers agree on every token that the provider issues with a named
workspace type, whatever has been revoked.
-/
import AuthCore.Gateway.Verifiers

namespace AuthCore

namespace Gateway

/-- The claims of the API as the gateway writes them. -/
def describe (format : UuidText) (claims : Api.Claims) : VerifiedClaims where
  userID := format.text claims.userId
  sessionID := format.text claims.sessionId
  familyID := format.text claims.familyId
  jti := format.text claims.jti
  clientType := ClientType.value claims.clientType
  assurance := claims.assurance
  workspaceID := (claims.workspaceId.map format.text).getD ""
  workspaceType := claims.workspaceType.getD ""
  roles := claims.roles
  issuedAt := claims.issuedAt

section Store

variable {keys : KeyFactory} {r : Store}

/-- Whatever is stored under `name` is the second of some point in time. -/
def Stamped (name : String) (r : Store) : Prop :=
  ∀ value expiry, r name = some (value, expiry) → ∃ t : Datetime, value = t.timestamp.repr

theorem Stamped.set_of_ne {name other value : String} {expiry : Int} (h : Stamped name r)
    (hne : name ≠ other) : Stamped name (r.set other value expiry) := by
  intro v e hget
  rw [Store.set, Function.update_of_ne hne] at hget
  exact h v e hget

theorem Stamped.set {name other : String} (t : Datetime) {expiry : Int} (h : Stamped name r) :
    Stamped name (r.set other t.timestamp.repr expiry) := by
  by_cases heq : name = other
  · subst heq
    intro v e hget
    rw [Store.set, Function.update_self, Option.some.injEq, Prod.mk.injEq] at hget
    exact ⟨t, hget.1.symm⟩
  · exact h.set_of_ne heq

theorem Stamped.delete {name other : String} (h : Stamped name r) :
    Stamped name (r.delete other) := by
  intro v e hget
  by_cases heq : name = other
  · subst heq
    rw [Store.delete, Function.update_self] at hget
    cases hget
  · rw [Store.delete, Function.update_of_ne heq] at hget
    exact h v e hget

theorem user_ne (x y : String) :
    "auth:revocation:user:" ++ x ≠ "auth:revocation:jti:" ++ y ∧
      "auth:revocation:user:" ++ x ≠ "auth:revocation:family:" ++ y := by
  constructor
  · intro h
    have hchars := congrArg String.toList h
    simp [String.toList_append] at hchars
  · intro h
    have hchars := congrArg String.toList h
    simp [String.toList_append] at hchars

theorem organization_ne (x y z : String) :
    "auth:revocation:org:" ++ x ++ ":" ++ y ≠ "auth:revocation:jti:" ++ z ∧
      "auth:revocation:org:" ++ x ++ ":" ++ y ≠ "auth:revocation:family:" ++ z := by
  constructor
  · intro h
    have hchars := congrArg String.toList h
    simp [String.toList_append] at hchars
  · intro h
    have hchars := congrArg String.toList h
    simp [String.toList_append] at hchars

/-- Under a name for users or organizations there are only cut-offs. -/
theorem Producible.stamped (h : Producible keys r) {name : String}
    (hne : ∀ id, name ≠ keys.accessRevocation id ∧ name ≠ keys.familyRevocation id) :
    Stamped name r := by
  induction h with
  | empty =>
      intro value expiry hget
      cases hget
  | run now op _ ih =>
      cases op with
      | accessToken jti remaining => exact ih.set_of_ne (hne jti).1
      | family id remaining => exact ih.set_of_ne (hne id).2
      | user id issuedBefore => exact ih.set issuedBefore
      | organization id org issuedBefore => exact ih.set issuedBefore
      | clearOrganization id org => exact ih.delete

/-- The seconds of a point in time fit 64 bits. -/
theorem scan_timestamp (t : Datetime) : scan t.timestamp.repr = some t.timestamp := by
  have hbound : t.timestamp.natAbs ≤ t.micros.natAbs := Int.natAbs_tdiv_le_natAbs _ _
  have hlower := t.lower
  have hupper := t.upper
  have hfits : -2 ^ 63 ≤ t.timestamp ∧ t.timestamp < 2 ^ 63 := by omega
  simp only [scan, Int.toInt?_repr, Option.filter_some, hfits.1, hfits.2, decide_true, Bool.and_self,
    if_true]

/-- Both verifiers read a cut-off the same way. -/
theorem passesCutoff_eq {name : String} (h : Stamped name r) (now : Int)
    (format : UuidText) (claims : Api.Claims) :
    passesCutoff (describe format claims) (r.get now name) =
      match Api.cutoff r now name with
      | none => false
      | some revokedAt => !Api.issuedBefore claims revokedAt := by
  unfold Api.cutoff
  cases hget : r.get now name with
  | none => rfl
  | some value =>
      have hstored : ∃ t : Datetime, value = t.timestamp.repr := by
        unfold Store.get at hget
        split at hget
        · rename_i stored expiry hentry
          split at hget
          · cases hget
            exact h _ _ hentry
          · cases hget
        · cases hget
      obtain ⟨t, rfl⟩ := hstored
      have hissued : (describe format claims).issuedAt = claims.issuedAt := rfl
      simp only [passesCutoff, scan_timestamp, Int.toInt?_repr, Option.map_some, hissued,
        Api.issuedBefore]
      by_cases hle : claims.issuedAt ≤ t.timestamp
      · simp [hle]
      · simp [hle, Int.not_le.mp hle]

end Store

section Claims

variable (format : UuidText) (args : IssueArgs)

/-- The workspace type that the API reads from the claims of a token. -/
def scopedType : Option String :=
  match args.workspaceId, args.workspaceType with
  | some _, some type => if type = "" then none else some type
  | _, _ => none

/-- The workspace that is named in the claims of a token. -/
def scopedWorkspace : Option Uuid :=
  match args.workspaceId, args.workspaceType with
  | some workspace, some _ => some workspace
  | _, _ => none

/-- What the API reads from a token. -/
def readClaims (expiresAt : Datetime) : Api.Claims where
  userId := args.userId
  sessionId := args.sessionId
  familyId := args.familyId
  jti := args.jti
  issuedAt := args.now.seconds
  expiresAt := expiresAt.seconds
  clientType := args.clientType
  assurance := args.assurance
  workspaceId := scopedWorkspace args
  workspaceType := scopedType args
  roles := if (scopedWorkspace args).isSome then args.roles else []

variable {format args} {issuer audience : String} {accessTtl : Nat} {o : Object}

theorem verify_issue (h : issue format issuer audience accessTtl args = some o) :
    ∃ expiresAt, Api.verify format o = some (readClaims args expiresAt) := by
  obtain ⟨expiresAt, _, rfl⟩ := Option.map_eq_some_iff.mp h
  refine ⟨expiresAt, ?_⟩
  have hclient := ClientType.ofValue_value args.clientType
  cases hworkspace : args.workspaceId with
  | none =>
      simp [Api.verify, scopeClaims, hworkspace, Object.get, Api.int, Api.items, Api.truthy,
        Api.uuid, Api.str, format.parse_text, hclient, readClaims, scopedWorkspace, scopedType]
  | some workspace =>
      cases htype : args.workspaceType with
      | none =>
          simp [Api.verify, scopeClaims, hworkspace, htype, Object.get, Api.int, Api.items,
            Api.truthy, Api.uuid, Api.str, format.parse_text, hclient, readClaims,
            scopedWorkspace, scopedType]
      | some type =>
          have hne := format.ne_empty workspace
          by_cases hempty : type = ""
          · simp [Api.verify, scopeClaims, hworkspace, htype, Object.get, Api.int, Api.items,
              Api.truthy, Api.uuid, Api.str, format.parse_text, hclient, readClaims,
              scopedWorkspace, scopedType, hne, hempty]
          · simp [Api.verify, scopeClaims, hworkspace, htype, Object.get, Api.int, Api.items,
              Api.truthy, Api.uuid, Api.str, format.parse_text, hclient, readClaims,
              scopedWorkspace, scopedType, hne, hempty]

theorem verifiedClaims_issue (h : issue format issuer audience accessTtl args = some o)
    (htype : args.workspaceType ≠ some "") (expiresAt : Datetime) :
    verifiedClaims o = some (describe format (readClaims args expiresAt)) := by
  obtain ⟨_, _, rfl⟩ := Option.map_eq_some_iff.mp h
  have huser := format.not_blank args.userId
  have hsession := format.not_blank args.sessionId
  cases hworkspace : args.workspaceId with
  | none =>
      simp [verifiedClaims, scopeClaims, hworkspace, Object.get, string, strings, getIssuedAt,
        huser, hsession, describe, readClaims, scopedWorkspace, scopedType]
  | some workspace =>
      cases hsome : args.workspaceType with
      | none =>
          simp [verifiedClaims, scopeClaims, hworkspace, hsome, Object.get, string, strings,
            getIssuedAt, huser, hsession, describe, readClaims, scopedWorkspace, scopedType]
      | some type =>
          have hne := format.ne_empty workspace
          have hnamed : type ≠ "" := fun heq => htype (by rw [hsome, heq])
          simp [verifiedClaims, scopeClaims, hworkspace, hsome, Object.get, string, strings,
            getIssuedAt, huser, hsession, describe, readClaims, scopedWorkspace, scopedType, hne,
            hnamed]

end Claims

section Names

variable (keys : KeyFactory) (id : Uuid)

theorem redisKey_jti : redisKey keys "auth:revocation:jti" (keys.format.text id) =
    keys.accessRevocation id := by
  have hname : "auth:revocation:jti" ++ ":" = "auth:revocation:jti:" := by decide
  unfold redisKey KeyFactory.accessRevocation
  rw [hname]

theorem redisKey_family : redisKey keys "auth:revocation:family" (keys.format.text id) =
    keys.familyRevocation id := by
  have hname : "auth:revocation:family" ++ ":" = "auth:revocation:family:" := by decide
  unfold redisKey KeyFactory.familyRevocation
  rw [hname]

theorem redisKey_user : redisKey keys "auth:revocation:user" (keys.format.text id) =
    keys.userRevocation id := by
  have hname : "auth:revocation:user" ++ ":" = "auth:revocation:user:" := by decide
  unfold redisKey KeyFactory.userRevocation
  rw [hname]

end Names

/-- Whether the cut-off of an organization applies. -/
theorem scoped_describe (format : UuidText) (claims : Api.Claims) (org : Uuid)
    (h : claims.workspaceId = some org) :
    ((describe format claims).workspaceID != "" &&
      (describe format claims).workspaceType == "organization") =
      decide (claims.workspaceType = some "organization") := by
  have hne := format.ne_empty org
  cases htype : claims.workspaceType with
  | none => simp [describe, h, htype]
  | some type =>
      have hnamed : (format.text org != "") = true := by simpa using hne
      simp [describe, h, htype, hnamed, beq_eq_decide]

/-- The gateway looks up what the API looks up. -/
theorem checkRevocation_describe {keys : KeyFactory} {r : Store} (h : Producible keys r)
    (now : Int) (claims : Api.Claims) :
    checkRevocation keys r now (describe keys.format claims) = Api.admits keys r now claims := by
  have hcutoff : ∀ name, (∀ id, name ≠ keys.accessRevocation id ∧ name ≠ keys.familyRevocation id) →
      passesCutoff (describe keys.format claims) (r.get now name) = _ :=
    fun name hname => passesCutoff_eq (h.stamped hname) now keys.format claims
  have huser := hcutoff (keys.userRevocation claims.userId) fun id => user_ne _ _
  have horg := fun org => hcutoff (keys.organizationRevocation claims.userId org)
    fun id => organization_ne _ _ _
  have hjti := redisKey_jti keys claims.jti
  have hfamily := redisKey_family keys claims.familyId
  have hname := redisKey_user keys claims.userId
  unfold checkRevocation Api.admits
  have htexts : (describe keys.format claims).jti = keys.format.text claims.jti ∧
      (describe keys.format claims).familyID = keys.format.text claims.familyId ∧
      (describe keys.format claims).userID = keys.format.text claims.userId := ⟨rfl, rfl, rfl⟩
  rw [htexts.1, htexts.2.1, htexts.2.2, hjti, hfamily, hname, huser]
  by_cases htoken : (r.get now (keys.accessRevocation claims.jti)).isSome = true
  · simp [htoken]
  · by_cases hrevoked : (r.get now (keys.familyRevocation claims.familyId)).isSome = true
    · simp [htoken, hrevoked]
    · cases hread : Api.cutoff r now (keys.userRevocation claims.userId) with
      | none => simp [htoken, hrevoked]
      | some revokedAt =>
          by_cases hcut : Api.issuedBefore claims revokedAt = true
          · simp [htoken, hrevoked, hcut]
          · cases hworkspace : claims.workspaceId with
            | none => simp [htoken, hrevoked, hcut, describe, hworkspace]
            | some org =>
                have hid : (describe keys.format claims).workspaceID = keys.format.text org := by
                  simp [describe, hworkspace]
                have hkey : organizationRedisKey keys (keys.format.text claims.userId)
                    (describe keys.format claims).workspaceID =
                    keys.organizationRevocation claims.userId org := by
                  unfold organizationRedisKey KeyFactory.organizationRevocation
                  rw [hid]
                rw [scoped_describe keys.format claims org hworkspace, hkey, horg org]
                by_cases horganization : claims.workspaceType = some "organization"
                · simp only [htoken, hrevoked, hcut, horganization, decide_true, if_true, if_false,
                    Bool.false_or, Bool.false_eq_true]
                  rfl
                · simp [htoken, hrevoked, hcut, horganization]

/-- For every token issued without a workspace or with a named workspace type,
every state of the store that revocations lead to and every time, the gateway
and the API give the same verdict and read the same claims. -/
theorem verifiers_agree (keys : KeyFactory) (decodes : Object → Int → Bool)
    {issuer audience : String} {accessTtl : Nat} {args : IssueArgs} {o : Object}
    (hissue : issue keys.format issuer audience accessTtl args = some o)
    (htype : args.workspaceType ≠ some "") {r : Store} (h : Producible keys r) (now : Int) :
    verify keys decodes r now o =
      (Api.authenticate keys decodes r now o).map (describe keys.format) := by
  obtain ⟨expiresAt, hread⟩ := verify_issue hissue
  have hverified := verifiedClaims_issue hissue htype expiresAt
  unfold verify Api.authenticate
  rw [hread, hverified]
  by_cases hdecodes : decodes o now = true
  · simp only [hdecodes, if_true, Option.filter_some, checkRevocation_describe h]
    split
    · rfl
    · rfl
  · simp [hdecodes]

/-- Identifiers written in strokes. -/
def sampleText : Uuid → String
  | .given n => String.ofList ('g' :: List.replicate n '|')
  | .drawn call serial =>
      String.ofList ('d' :: (List.replicate call '|' ++ '.' :: List.replicate serial '|'))

def sampleParse (s : String) : Option Uuid :=
  match s.toList with
  | 'g' :: strokes => some (.given strokes.length)
  | 'd' :: strokes =>
      some (.drawn (strokes.takeWhile (· == '|')).length
        ((strokes.dropWhile (· == '|')).length - 1))
  | _ => none

def sampleFormat : UuidText where
  text := sampleText
  parse := sampleParse
  parse_text u := by
    cases u with
    | given n => simp [sampleText, sampleParse]
    | drawn call serial => simp [sampleText, sampleParse]
  not_blank u := by
    cases u with
    | given n => simp [sampleText, blank, isSpace]
    | drawn call serial => simp [sampleText, blank, isSpace]

/-- A digest that keeps everything. -/
def sampleKeys : KeyFactory :=
  ⟨sampleFormat, fun s => s⟩

def sampleTime : Datetime :=
  ⟨1000000, by decide, by decide⟩

/-- A token for a workspace of the given type. -/
def sampleArgs (type : String) : IssueArgs :=
  ⟨.given 1, .given 2, .given 3, .given 4, .web, ["password"], sampleTime, some (.given 5),
    some type, ["OWNER"]⟩

theorem verifiers_agree_on_organization :
    ∃ o, issue sampleFormat "auth" "api" 900 (sampleArgs "organization") = some o ∧
      verify sampleKeys (fun _ _ => true) (fun _ => none) 5 o =
        (Api.authenticate sampleKeys (fun _ _ => true) (fun _ => none) 5 o).map
          (describe sampleFormat) := by
  have hissue : (issue sampleFormat "auth" "api" 900 (sampleArgs "organization")).isSome = true := by
    decide
  obtain ⟨o, ho⟩ := Option.isSome_iff_exists.mp hissue
  exact ⟨o, ho, verifiers_agree sampleKeys _ ho (by decide) .empty 5⟩

/-- With an empty workspace type the API accepts what the gateway rejects. -/
theorem verifiers_differ :
    ∃ o, issue sampleFormat "auth" "api" 900 (sampleArgs "") = some o ∧
      verify sampleKeys (fun _ _ => true) (fun _ => none) 5 o = none ∧
      (Api.authenticate sampleKeys (fun _ _ => true) (fun _ => none) 5 o).isSome = true := by
  refine ⟨_, rfl, ?_, ?_⟩
  · decide
  · decide

end Gateway

end AuthCore
