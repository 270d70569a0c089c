/-
The search of audit records: the cursor between two pages, the query of the
repository and the control around it.  `δ` are the datetimes and `ι` the
identifiers of records, each as the database orders them.
-/
import AuthCore.Audit.Metadata
import AuthCore.Codec.Base64
import AuthCore.Relational.Table
import AuthCore.Relational.Keyset
import AuthCore.Model.Account
import Mathlib.Data.Prod.Lex

namespace AuthCore

open Relational

/-- The columns of an audit record apart from its key. -/
structure AuditRow (δ : Type) where
  actorUserId : Option Uuid
  subjectUserId : Option Uuid
  orgId : Option Uuid
  eventType : String
  outcome : String
  correlationId : Uuid
  metadata : List (String × Json)
  occurredAt : δ

structure AuditRecord (δ ι : Type) extends AuditRow δ where
  auditId : ι

structure AuditSearchFilter (δ : Type) where
  subjectUserId : Option Uuid
  eventType : Option String
  outcome : Option String
  occurredFrom : Option δ
  occurredTo : Option δ

structure AuditPage (δ ι : Type) where
  items : List (AuditRecord δ ι)
  nextCursor : Option String

/-- What `datetime.fromisoformat` reads. -/
inductive ParsedTime (δ : Type) where
  | naive
  | aware (time : δ)
deriving DecidableEq

/-- The text forms of the standard library; what is no such text is a
`ValueError`. -/
structure TextForms (δ ι : Type) where
  isoformat : δ → String
  fromisoformat : String → Option (ParsedTime δ)
  uuidText : ι → String
  uuid : String → Option ι
  fromisoformat_isoformat : ∀ time, fromisoformat (isoformat time) = some (.aware time)
  uuid_uuidText : ∀ id, uuid (uuidText id) = some id
  bar_not_mem : ∀ time, '|' ∉ (isoformat time).toList

/-- How far `binascii.a2b_base64` has come in a group of four. -/
inductive Quad where
  | zero
  | one (left : Base64.Sextet)
  | two (left : Base64.Sextet)
  | three (left : Base64.Sextet)

/-- `binascii.a2b_base64`, which skips what is no digit and stops where the
padding of a group is complete. -/
def a2bBase64 (quad : Quad) (pads : Nat) : List Char → Option (List UInt8)
  | [] =>
      match quad with
      | .zero => some []
      | _ => none
  | c :: rest =>
      if c = '=' then
        match quad with
        | .zero => a2bBase64 quad pads rest
        | .one _ => a2bBase64 quad pads rest
        | .two _ => if 4 ≤ 2 + (pads + 1) then some [] else a2bBase64 quad (pads + 1) rest
        | .three _ => if 4 ≤ 3 + (pads + 1) then some [] else a2bBase64 quad (pads + 1) rest
      else
        match Base64.Alphabet.standard.digit c with
        | none => a2bBase64 quad pads rest
        | some d =>
            match quad with
            | .zero => a2bBase64 (.one d) 0 rest
            | .one left =>
                (a2bBase64 (.two d) 0 rest).map (Base64.octet (left.val * 4 + d.val / 16) :: ·)
            | .two left =>
                (a2bBase64 (.three d) 0 rest).map
                  (Base64.octet (left.val % 16 * 16 + d.val / 4) :: ·)
            | .three left =>
                (a2bBase64 .zero 0 rest).map (Base64.octet (left.val % 4 * 64 + d.val) :: ·)

/-- The translation of `base64.urlsafe_b64decode`. -/
def fromUrlSafe (c : Char) : Char :=
  if c = '-' then '+' else if c = '_' then '/' else c

/-- `base64.urlsafe_b64decode`: a character outside of ASCII is a `ValueError`. -/
def urlsafeB64decode (text : List Char) : Option (List UInt8) :=
  if text.all (·.val < 128) then a2bBase64 .zero 0 (text.map fromUrlSafe) else none

/-- `str.encode` -/
def utf8 (text : String) : List UInt8 :=
  text.toByteArray.data.toList

/-- `bytes.decode` -/
def ofUtf8 (bytes : List UInt8) : Option String :=
  String.fromUTF8? ⟨bytes.toArray⟩

/-- `decoded.split("|", 1)` into two parts. -/
def splitBar (text : String) : Option (String × String) :=
  match text.toList.span (· ≠ '|') with
  | (_, []) => none
  | (left, _ :: right) => some (String.ofList left, String.ofList right)

namespace AuditQueryControl

variable {δ ι : Type}

def auditCursorInvalid : AuthError :=
  .privacy .auditCursorInvalid "The audit-page cursor is invalid or expired." 400

def recentMfaRequired : AuthError :=
  .privacy .recentMfaRequired "Complete a recent extra security check before continuing." 403

def auditForbidden : AuthError :=
  .privacy .auditForbidden "You are not authorized to review security audit history." 403

def encodeCursor (forms : TextForms δ ι) (occurredAt : δ) (auditId : ι) : String :=
  let value := utf8 (forms.isoformat occurredAt ++ "|" ++ forms.uuidText auditId)
  String.ofList ((Base64.Alphabet.urlSafe.encode value).rdropWhile (· == '='))

/-- What `decode_cursor` reads; every failure on the way is a `ValueError`. -/
def readCursor (forms : TextForms δ ι) (cursor : String) : Option (δ × ι) := do
  let padding := List.replicate (Base64.missing cursor.length) '='
  let decoded ← ofUtf8 (← urlsafeB64decode (cursor.toList ++ padding))
  let (occurredAt, auditId) ← splitBar decoded
  match ← forms.fromisoformat occurredAt with
  | .naive => none
  | .aware parsedTime => return (parsedTime, ← forms.uuid auditId)

def decodeCursor (forms : TextForms δ ι) (cursor : String) : Except AuthError (δ × ι) :=
  match readCursor forms cursor with
  | some position => .ok position
  | none => .error auditCursorInvalid

def strongMethods : List String :=
  ["totp", "passkey", "email", "sms", "backup_code", "backup_codes"]

def requireRecentMfa (claims : AccessClaims) : Except AuthError Unit :=
  if claims.assurance.any strongMethods.contains then .ok () else .error recentMfaRequired

def redact (lower : String → String) (record : AuditRecord δ ι) : AuditRecord δ ι :=
  { record with metadata := safeMetadata lower record.metadata }

end AuditQueryControl

namespace AuditRepository

open AuditQueryControl

variable {δ ι : Type} [LinearOrder δ] [LinearOrder ι]

/-- The conditions of the filters; an empty text asks for nothing. -/
def conditions (filters : AuditSearchFilter δ) (row : AuditRow δ) : Bool :=
  (filters.subjectUserId.all fun user => decide (row.subjectUserId = some user)) &&
  (filters.eventType.all fun event => event == "" || row.eventType == event) &&
  (filters.outcome.all fun outcome => outcome == "" || row.outcome == outcome) &&
  (filters.occurredFrom.all fun start => decide (start ≤ row.occurredAt)) &&
  filters.occurredTo.all fun last => decide (row.occurredAt ≤ last)

/-- The condition of the cursor. -/
def behind (cursor : Option (δ × ι)) (id : ι) (row : AuditRow δ) : Bool :=
  cursor.all fun position => decide (row.occurredAt < position.1) ||
    (decide (row.occurredAt = position.1) && decide (id < position.2))

/-- The columns the pages are ordered by. -/
def rank (entry : ι × AuditRow δ) : δ ×ₗ ι :=
  toLex (entry.2.occurredAt, entry.1)

def toRecord (entry : ι × AuditRow δ) : AuditRecord δ ι :=
  { entry.2 with auditId := entry.1 }

/-- The record of the search itself. -/
def queried (actor : Uuid) (filters : AuditSearchFilter δ) (correlationId : Uuid) (count : Nat)
    (now : δ) : AuditRow δ where
  actorUserId := some actor
  subjectUserId := some (filters.subjectUserId.getD actor)
  orgId := none
  eventType := "AUDIT_LOGS_QUERIED"
  outcome := "success"
  correlationId := correlationId
  metadata :=
    [("event_filter_applied", .bool filters.eventType.isSome),
      ("outcome_filter_applied", .bool filters.outcome.isSome),
      ("subject_filter_applied", .bool filters.subjectUserId.isSome),
      ("result_count", .int count)]
  occurredAt := now

def searchAuditLogs (forms : TextForms δ ι) (table : Table ι (AuditRow δ)) (actor : Uuid)
    (filters : AuditSearchFilter δ) (cursor : Option (δ × ι)) (limit : Nat)
    (correlationId : Uuid) (id : ι) (now : δ) : AuditPage δ ι × Table ι (AuditRow δ) :=
  let records := (ranked rank
    (table.select fun id row => conditions filters row && behind cursor id row)).take (limit + 1)
  let hasMore := decide (limit < records.length)
  let selected := records.take limit
  let nextCursor := match selected.getLast? with
    | none => none
    | some last => if hasMore then some (encodeCursor forms last.2.occurredAt last.1) else none
  (⟨selected.map toRecord, nextCursor⟩,
    table.add id (queried actor filters correlationId selected.length now))

end AuditRepository

namespace AuditQueryControl

variable {δ ι : Type} [LinearOrder δ] [LinearOrder ι]

/-- `if cursor`: no cursor and an empty one are the same. -/
def cursorOf (forms : TextForms δ ι) (cursor : Option String) :
    Except AuthError (Option (δ × ι)) :=
  match cursor with
  | none => .ok none
  | some text => if text = "" then .ok none else (decodeCursor forms text).map some

/-- One search; `id` and `now` are what the database puts into the record of it. -/
def search (forms : TextForms δ ι) (lower : String → String)
    (staffHasRole : Uuid → StaffRole → Bool) (table : Table ι (AuditRow δ))
    (claims : AccessClaims) (filters : AuditSearchFilter δ) (cursor : Option String) (limit : Nat)
    (correlationId : Uuid) (id : ι) (now : δ) :
    Except AuthError (AuditPage δ ι × Table ι (AuditRow δ)) := do
  requireRecentMfa claims
  if ¬staffHasRole claims.userId .securitySupervisorL3 then
    throw auditForbidden
  let position ← cursorOf forms cursor
  let (page, after) := AuditRepository.searchAuditLogs forms table claims.userId filters position
    limit correlationId id now
  return (⟨page.items.map (redact lower), page.nextCursor⟩, after)

end AuditQueryControl

end AuthCore
