/-
The codec of cursors with the exceptions of its parsers.  A cursor is any `str`,
and of what the parsers raise on the way only three classes are caught.
-/
import AuthCore.Audit.Cursor
import AuthCore.Audit.IsoText

namespace AuthCore

open Base64

/-- An exception by its class. -/
inductive Raised where
  | binasciiError
  | unicodeDecodeError
  | valueError
  | typeError
  | overflowError
  | privacyError (error : AuthError)

/-- The `except` clause of `decode_cursor`. -/
def Raised.caught : Raised → Bool
  | .binasciiError => true
  | .unicodeDecodeError => true
  | .valueError => true
  | .typeError => false
  | .overflowError => false
  | .privacyError _ => false

/-- A code point of a `str`, which may be a lone surrogate. -/
abbrev CodePoint := Fin 1114112

def codePoint (c : Char) : CodePoint :=
  Fin.ofNat 1114112 c.toNat

def codePoints (text : String) : List CodePoint :=
  text.toList.map codePoint

/-- `datetime.fromisoformat` and `UUID` on a text. -/
structure Parsers where
  fromisoformat : String → Except Raised (ParsedTime AwareDatetime)
  uuid : String → Except Raised UUID

/-- What the parsers are documented to do: they read what `isoformat` and `str`
write, and other texts they cannot read are a `ValueError`. -/
structure Parsers.AsDocumented (parsers : Parsers) : Prop where
  fromisoformat_isoformat : ∀ t : AwareDatetime,
    parsers.fromisoformat t.isoformat = .ok (.aware t)
  fromisoformat_error : ∀ {text error},
    parsers.fromisoformat text = .error error → error = .valueError
  uuid_text : ∀ id : UUID, parsers.uuid id.text = .ok id
  uuid_error : ∀ {text error}, parsers.uuid text = .error error → error = .valueError

/-- The answer of a parser, or what it raises without one. -/
def orRaise {α : Type} (raised : Raised) : Option α → Except Raised α
  | some value => .ok value
  | none => .error raised

/-- `base64.urlsafe_b64decode` on a `str` -/
def urlsafeB64decodeStr (text : List CodePoint) : Except Raised (List UInt8) :=
  if text.all (·.val < 128) then
    orRaise .binasciiError
      (a2bBase64 .zero 0 ((text.map fun point => Char.ofNat point.val).map fromUrlSafe))
  else
    .error .valueError

namespace SqlAlchemyAuditRepository

def encodeCursor (occurredAt : AwareDatetime) (auditId : UUID) : String :=
  let value := utf8 (occurredAt.isoformat ++ "|" ++ auditId.text)
  String.ofList ((Alphabet.urlSafe.encode value).rdropWhile (· == '='))

end SqlAlchemyAuditRepository

namespace AuditQueryControl

/-- The body of the `try` in `decode_cursor`. -/
def parseCursor (parsers : Parsers) (cursor : List CodePoint) :
    Except Raised (AwareDatetime × UUID) := do
  let padding := List.replicate (missing cursor.length) (codePoint '=')
  let decoded ← orRaise .unicodeDecodeError (ofUtf8 (← urlsafeB64decodeStr (cursor ++ padding)))
  let (occurredAt, auditId) ← orRaise .valueError (splitBar decoded)
  match ← parsers.fromisoformat occurredAt with
  | .naive => throw .valueError
  | .aware parsedTime => return (parsedTime, ← parsers.uuid auditId)

/-- `decode_cursor` -/
def decodeCursorStr (parsers : Parsers) (cursor : List CodePoint) :
    Except Raised (AwareDatetime × UUID) :=
  match parseCursor parsers cursor with
  | .ok position => .ok position
  | .error raised =>
      if raised.caught then .error (.privacyError auditCursorInvalid) else .error raised

end AuditQueryControl

/-- The parsers as the search of audit records sees them. -/
def Parsers.forms (parsers : Parsers) (h : parsers.AsDocumented) :
    TextForms AwareDatetime UUID where
  isoformat := AwareDatetime.isoformat
  fromisoformat text := (parsers.fromisoformat text).toOption
  uuidText := UUID.text
  uuid text := (parsers.uuid text).toOption
  fromisoformat_isoformat t := by rw [h.fromisoformat_isoformat]; rfl
  uuid_uuidText id := by rw [h.uuid_text]; rfl
  bar_not_mem := AwareDatetime.bar_not_mem_isoformat

/-- Nothing leaves a computation but what the `except` clause catches. -/
def AllCaught {α : Type} (result : Except Raised α) : Prop :=
  ∀ raised, result = .error raised → raised.caught = true

section Caught

variable {α β : Type}

theorem allCaught_ok (a : α) : AllCaught (.ok a) := by
  intro raised heq
  cases heq

theorem allCaught_error {raised : Raised} (h : raised.caught = true) :
    AllCaught (.error raised : Except Raised α) := by
  rintro _ ⟨⟩
  exact h

theorem allCaught_orRaise {raised : Raised} (h : raised.caught = true) (answer : Option α) :
    AllCaught (orRaise raised answer) := by
  cases answer with
  | none => exact allCaught_error h
  | some a => exact allCaught_ok a

theorem AllCaught.bind {result : Except Raised α} {next : α → Except Raised β}
    (h : AllCaught result) (hnext : ∀ a, AllCaught (next a)) : AllCaught (result >>= next) := by
  cases result with
  | ok a => exact hnext a
  | error raised => exact allCaught_error (h raised rfl)

theorem toOption_bind (result : Except Raised α) (next : α → Except Raised β) :
    (result >>= next).toOption = result.toOption.bind fun a => (next a).toOption := by
  cases result with
  | ok a => rfl
  | error raised => rfl

theorem toOption_orRaise (raised : Raised) (answer : Option α) :
    (orRaise raised answer).toOption = answer := by
  cases answer with
  | none => rfl
  | some a => rfl

end Caught

theorem val_codePoint (c : Char) : (codePoint c).val = c.toNat := by
  have hvalid : c.toNat < 1114112 := by
    rcases c.valid with hlow | ⟨_, hhigh⟩
    · exact Nat.lt_trans hlow (by decide)
    · exact hhigh
  exact Nat.mod_eq_of_lt hvalid

theorem toOption_urlsafeB64decodeStr (text : List Char) :
    (urlsafeB64decodeStr (text.map codePoint)).toOption = urlsafeB64decode text := by
  have hascii : (text.map codePoint).all (fun point => decide (point.val < 128)) =
      text.all fun c => decide (c.val < 128) := by
    rw [List.all_map]
    congr 1
    funext c
    rw [Function.comp_apply, val_codePoint]
    exact decide_eq_decide.mpr Iff.rfl
  have hchars : (text.map codePoint).map (fun point => Char.ofNat point.val) = text := by
    rw [List.map_map]
    conv_rhs => rw [← List.map_id text]
    apply List.map_congr_left
    intro c _
    rw [Function.comp_apply, val_codePoint, Char.ofNat_toNat, id_eq]
  unfold urlsafeB64decodeStr urlsafeB64decode
  rw [hascii, hchars]
  by_cases htext : text.all (fun c => decide (c.val < 128)) = true
  · rw [if_pos htext, if_pos htext, toOption_orRaise]
  · rw [if_neg htext, if_neg htext]
    rfl

namespace AuditQueryControl

variable {parsers : Parsers}

/-- Every way in which the four parsers fail is caught. -/
theorem allCaught_parseCursor (h : parsers.AsDocumented) (cursor : List CodePoint) :
    AllCaught (parseCursor parsers cursor) := by
  have hbytes : ∀ text, AllCaught (urlsafeB64decodeStr text) := by
    intro text
    unfold urlsafeB64decodeStr
    split
    · exact allCaught_orRaise rfl _
    · exact allCaught_error rfl
  have htime : ∀ text, AllCaught (parsers.fromisoformat text) := by
    intro text raised hraised
    rw [h.fromisoformat_error hraised]
    rfl
  have hid : ∀ text, AllCaught (parsers.uuid text) := by
    intro text raised hraised
    rw [h.uuid_error hraised]
    rfl
  unfold parseCursor
  apply AllCaught.bind (hbytes _)
  intro bytes
  apply AllCaught.bind (allCaught_orRaise rfl _)
  intro decoded
  apply AllCaught.bind (allCaught_orRaise rfl _)
  intro parts
  apply AllCaught.bind (htime _)
  intro parsed
  cases parsed with
  | naive => exact allCaught_error rfl
  | aware time => exact AllCaught.bind (hid _) fun id => allCaught_ok _

/-- Without its exceptions the body is what the search reads a cursor by. -/
theorem toOption_parseCursor (h : parsers.AsDocumented) (text : String) :
    (parseCursor parsers (codePoints text)).toOption = readCursor (parsers.forms h) text := by
  have hpadded : ∀ n, codePoints text ++ List.replicate n (codePoint '=') =
      (text.toList ++ List.replicate n '=').map codePoint := by
    intro n
    rw [List.map_append, List.map_replicate, codePoints]
  have hlength : (codePoints text).length = text.length := by
    rw [codePoints, List.length_map, String.length_toList]
  unfold parseCursor readCursor
  simp only [toOption_bind, hpadded, hlength, toOption_urlsafeB64decodeStr, toOption_orRaise]
  apply congrArg (Option.bind _)
  funext bytes
  apply congrArg (Option.bind _)
  funext decoded
  apply congrArg (Option.bind _)
  funext parts
  apply congrArg (Option.bind _)
  funext parsed
  cases parsed with
  | naive => rfl
  | aware time =>
      dsimp only
      rw [toOption_bind]
      rfl

/-- On a text the control answers as in the search. -/
theorem decodeCursorStr_codePoints (h : parsers.AsDocumented) (text : String) :
    decodeCursorStr parsers (codePoints text) =
      (decodeCursor (parsers.forms h) text).mapError .privacyError := by
  have hread := toOption_parseCursor h text
  have hcaught := allCaught_parseCursor h (codePoints text)
  unfold decodeCursorStr decodeCursor
  rw [← hread]
  cases hparsed : parseCursor parsers (codePoints text) with
  | ok position => rfl
  | error raised =>
      dsimp only
      rw [if_pos (hcaught raised hparsed)]
      rfl

theorem encodeCursor_eq (h : parsers.AsDocumented) (t : AwareDatetime) (id : UUID) :
    encodeCursor (parsers.forms h) t id = SqlAlchemyAuditRepository.encodeCursor t id := by
  unfold encodeCursor SqlAlchemyAuditRepository.encodeCursor
  dsimp only [Parsers.forms]

/-- The cursor codec: a position is read back from the text that either class
writes for it, and what any text gives is a position or the one error. -/
theorem cursor_codec (parsers : Parsers) (h : parsers.AsDocumented) :
    (∀ t id, decodeCursorStr parsers (codePoints (SqlAlchemyAuditRepository.encodeCursor t id)) =
      .ok (t, id)) ∧
    (∀ t id, encodeCursor (parsers.forms h) t id = SqlAlchemyAuditRepository.encodeCursor t id) ∧
    ∀ cursor, (∃ t id, decodeCursorStr parsers cursor = .ok (t, id)) ∨
      decodeCursorStr parsers cursor = .error (.privacyError auditCursorInvalid) := by
  refine ⟨?_, encodeCursor_eq h, ?_⟩
  · intro t id
    rw [decodeCursorStr_codePoints h, ← encodeCursor_eq h, decodeCursor, readCursor_encodeCursor]
    rfl
  · intro cursor
    have hcaught := allCaught_parseCursor h cursor
    unfold decodeCursorStr
    cases hparsed : parseCursor parsers cursor with
    | ok position => exact Or.inl ⟨position.1, position.2, rfl⟩
    | error raised => exact Or.inr (if_pos (hcaught raised hparsed))

/-- The parsers of the texts that `isoformat` and `str` write. -/
def isoParsers : Parsers where
  fromisoformat text := orRaise .valueError (AwareDatetime.readIsoformat text)
  uuid text := orRaise .valueError (UUID.readText text)

theorem isoParsers_asDocumented : isoParsers.AsDocumented := by
  have herror : ∀ {α : Type} {answer : Option α} {error : Raised},
      orRaise .valueError answer = .error error → error = .valueError := by
    intro α answer error heq
    cases answer with
    | none =>
        cases heq
        rfl
    | some a => cases heq
  constructor
  case fromisoformat_isoformat =>
    intro t
    unfold isoParsers
    dsimp only
    rw [AwareDatetime.readIsoformat_isoformat, orRaise]
  case uuid_text =>
    intro id
    unfold isoParsers
    dsimp only
    rw [UUID.readText_text, orRaise]
  case fromisoformat_error => exact herror
  case uuid_error => exact herror

/-- The last microsecond of a leap day, some hours behind UTC. -/
def sampleTime : AwareDatetime :=
  ⟨⟨2024, 2, 29, 23, 59, 59, 999999, -16200000000⟩, by decide⟩

def sampleId : UUID :=
  ⟨291, by decide⟩

theorem cursor_codec_sample :
    decodeCursorStr isoParsers
      (codePoints (SqlAlchemyAuditRepository.encodeCursor sampleTime sampleId)) =
        .ok (sampleTime, sampleId) :=
  (cursor_codec isoParsers isoParsers_asDocumented).1 sampleTime sampleId

example : sampleTime.isoformat = "2024-02-29T23:59:59.999999-04:30" := by
  decide +kernel

example : sampleId.text = "00000000-0000-0000-0000-000000000123" := by
  decide +kernel

end AuditQueryControl

end AuthCore
