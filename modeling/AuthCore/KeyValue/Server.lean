/-
A key-value server: texts, and hashes of texts, under text keys.  Every command is atomic; a
value that has expired is not there.  A command fails on a value of another type and on a text
that is no number.
-/
import Mathlib.Data.Set.Function
import Std.Data.String.ToNat

namespace KeyValue

inductive Datum where
  | text (value : String)
  | hash (fields : String → Option String)

/-- Values with the times they expire at, if they do. -/
abbrev Server := String → Option (Datum × Option Nat)

/-- A number in the form in which the server writes it. -/
def readNumber (s : String) : Option Nat :=
  s.toNat?.filter fun n => n.repr == s

@[simp]
theorem readNumber_repr (n : Nat) : readNumber n.repr = some n := by
  simp [readNumber]

namespace Server

/-- What is under a key, unless it has expired. -/
def lookup (s : Server) (now : Nat) (key : String) : Option (Datum × Option Nat) :=
  (s key).filter fun entry => entry.2.all fun expiry => now < expiry

def store (s : Server) (key : String) (datum : Datum) (expiry : Option Nat) : Server :=
  Function.update s key (some (datum, expiry))

/-- `DEL` -/
def del (key : String) (s : Server) : Server :=
  Function.update s key none

/-- `SET` with `EX`, whatever was there. -/
def setEx (now : Nat) (key value : String) (lifetime : Nat) (s : Server) : Server :=
  s.store key (.text value) (some (now + lifetime))

/-- `EXISTS` -/
def present (now : Nat) (key : String) (s : Server) : Bool :=
  (s.lookup now key).isSome

/-- `GET` -/
def get (now : Nat) (key : String) (s : Server) : Option (Option String) :=
  match s.lookup now key with
  | none => some none
  | some (.text value, _) => some (some value)
  | some (.hash _, _) => none

/-- `GETDEL` -/
def getdel (now : Nat) (key : String) (s : Server) : Option (Option String × Server) := do
  return (← s.get now key, s.del key)

/-- `EXPIRE` -/
def expire (now : Nat) (key : String) (lifetime : Nat) (s : Server) : Server :=
  match s.lookup now key with
  | none => s
  | some (datum, _) => s.store key datum (some (now + lifetime))

/-- `INCR` counts from nought and keeps the expiry. -/
def incr (now : Nat) (key : String) (s : Server) : Option (Nat × Server) :=
  match s.lookup now key with
  | none => some (1, s.store key (.text (Nat.repr 1)) none)
  | some (.text value, expiry) => do
      let count ← readNumber value
      return (count + 1, s.store key (.text (count + 1).repr) expiry)
  | some (.hash _, _) => none

def setFields (fields : String → Option String) (values : List (String × String)) :
    String → Option String :=
  values.foldl (fun fields entry => Function.update fields entry.1 (some entry.2)) fields

/-- `HSET` keeps the other fields and the expiry. -/
def hset (now : Nat) (key : String) (values : List (String × String)) (s : Server) :
    Option Server :=
  match s.lookup now key with
  | none => some (s.store key (.hash (setFields (fun _ => none) values)) none)
  | some (.hash fields, expiry) => some (s.store key (.hash (setFields fields values)) expiry)
  | some (.text _, _) => none

/-- `HGET` -/
def hget (now : Nat) (key field : String) (s : Server) : Option (Option String) :=
  match s.lookup now key with
  | none => some none
  | some (.hash fields, _) => some (fields field)
  | some (.text _, _) => none

/-- `HINCRBY` by one, from nought. -/
def hincr (now : Nat) (key field : String) (s : Server) : Option (Nat × Server) :=
  match s.lookup now key with
  | none => some (1, s.store key (.hash (setFields (fun _ => none) [(field, Nat.repr 1)])) none)
  | some (.hash fields, expiry) => do
      let count ← readNumber ((fields field).getD "0")
      return (count + 1, s.store key (.hash (setFields fields [(field, (count + 1).repr)])) expiry)
  | some (.text _, _) => none

section Commands

variable {s : Server} {now : Nat} {key : String}

theorem lookup_eq_none (h : s key = none) : s.lookup now key = none := by
  simp [lookup, h]

theorem lookup_of_expired {datum : Datum} {expiry : Nat} (h : s key = some (datum, some expiry))
    (hpast : ¬now < expiry) : s.lookup now key = none := by
  simp [lookup, h, hpast]

theorem lookup_of_live {datum : Datum} {expiry : Option Nat} (h : s key = some (datum, expiry))
    (hlive : ∀ time, expiry = some time → now < time) :
    s.lookup now key = some (datum, expiry) := by
  rw [lookup, h, Option.filter_some, if_pos]
  cases expiry with
  | none => rfl
  | some time => simpa using hlive time rfl

@[simp]
theorem lookup_store (datum : Datum) (expiry : Option Nat)
    (hlive : ∀ time, expiry = some time → now < time) :
    (s.store key datum expiry).lookup now key = some (datum, expiry) :=
  lookup_of_live (by simp [store]) hlive

@[simp]
theorem store_store (datum datum' : Datum) (expiry expiry' : Option Nat) :
    (s.store key datum expiry).store key datum' expiry' = s.store key datum' expiry' := by
  simp [store]

@[simp]
theorem del_store (datum : Datum) (expiry : Option Nat) :
    (s.store key datum expiry).del key = s.del key := by
  simp [store, del]

end Commands

end Server

/-- A map with values of its own kind under each of its keys. -/
abbrev Typed {K : Type} (V : K → Type) := (k : K) → Option (V k × Option Nat)

section Representation

variable {K : Type} {V : K → Type} [DecidableEq K]

/-- The server holds what the map has under the keys of `D`, under their names and in the form
in which values are written. -/
def Represents (name : K → String) (write : (k : K) → V k → Datum) (D : Set K) (s : Server)
    (m : Typed V) : Prop :=
  ∀ k ∈ D, s (name k) = (m k).map fun entry => (write k entry.1, entry.2)

variable {name : K → String} {write : (k : K) → V k → Datum} {D : Set K} {s : Server}
  {m : Typed V} {k : K}

theorem Represents.store (h : Represents name write D s m) (hname : Set.InjOn name D)
    (hk : k ∈ D) (value : V k) (expiry : Option Nat) :
    Represents name write D (s.store (name k) (write k value) expiry)
      (Function.update m k (some (value, expiry))) := by
  intro k' hk'
  by_cases heq : k' = k
  · subst heq
    simp [Server.store]
  · have hne : name k' ≠ name k := fun hsame => heq (hname hk' hk hsame)
    rw [Server.store, Function.update_of_ne hne, Function.update_of_ne heq]
    exact h k' hk'

theorem Represents.del (h : Represents name write D s m) (hname : Set.InjOn name D)
    (hk : k ∈ D) :
    Represents name write D (s.del (name k)) (Function.update m k none) := by
  intro k' hk'
  by_cases heq : k' = k
  · subst heq
    simp [Server.del]
  · have hne : name k' ≠ name k := fun hsame => heq (hname hk' hk hsame)
    rw [Server.del, Function.update_of_ne hne, Function.update_of_ne heq]
    exact h k' hk'

end Representation

end KeyValue
