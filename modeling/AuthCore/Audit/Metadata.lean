/-
The metadata of audit records and what a reviewer sees of it.  A Python dict is
the list of its items in their order, and `lower` is `str.lower`, of which
nothing is assumed.
-/
import Mathlib.Data.List.Infix

namespace AuthCore

/-- A decoded value.  A float is known by its shortest text and a value that JSON
does not have by its type. -/
inductive Json where
  | null
  | bool (value : Bool)
  | int (value : Int)
  | float (text : String)
  | string (value : String)
  | list (items : List Json)
  | object (entries : List (String × Json))
  | other (typeName : String)
deriving Repr

namespace AuditQueryControl

def redacted : Json :=
  .string "[REDACTED]"

def sensitiveMetadataTerms : List String :=
  ["assertion", "code", "email", "evidence", "ip", "password", "phone", "secret", "token",
    "user_agent"]

/-- `safe[key] = value`: a key that is there keeps its place. -/
def setItem (key : String) (value : Json) : List (String × Json) → List (String × Json)
  | [] => [(key, value)]
  | entry :: rest =>
      if entry.1 = key then (key, value) :: rest else entry :: setItem key value rest

/-- `value[:120]` -/
def shortened (value : String) : String :=
  String.ofList (value.toList.take 120)

variable (lower : String → String)

def sensitive (key : String) : Bool :=
  sensitiveMetadataTerms.any fun term => decide (term.toList <:+: (lower key).toList)

mutual

/-- The loop of `_safe_metadata` with what it has put in `safe`. -/
def safeEntries (safe : List (String × Json)) : List (String × Json) → List (String × Json)
  | [] => safe
  | (key, value) :: rest =>
      safeEntries (setItem key (if sensitive lower key then redacted else safeValue value) safe) rest

/-- The first `n` items. -/
def safeItems (n : Nat) : List Json → List Json
  | [] => []
  | item :: rest =>
      match n with
      | 0 => []
      | n + 1 => safeValue item :: safeItems n rest

def safeValue : Json → Json
  | .object entries => .object (safeEntries [] entries)
  | .list items => .list (safeItems 20 items)
  | .string value => .string (shortened value)
  | .null => .null
  | .bool value => .bool value
  | .int value => .int value
  | .float text => .float text
  | .other _ => redacted

end

def safeMetadata (metadata : List (String × Json)) : List (String × Json) :=
  safeEntries lower [] metadata

end AuditQueryControl

end AuthCore
