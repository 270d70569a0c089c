/-
Numerals of a fixed width, the most significant digit first: their digits, their
value, and the texts and bytes they are written as.
-/
import Mathlib.Algebra.Order.Ring.Nat
import Mathlib.Data.List.Basic

namespace Numeral

/-- The last `width` digits of a number. -/
def digits (base : Nat) : Nat → Nat → List Nat
  | 0, _ => []
  | width + 1, n => digits base width (n / base) ++ [n % base]

def value (base : Nat) (ds : List Nat) : Nat :=
  ds.foldl (fun sum d => sum * base + d) 0

variable {base : Nat}

@[simp] theorem length_digits (width n : Nat) : (digits base width n).length = width := by
  induction width generalizing n with
  | zero => rfl
  | succ width ih => rw [digits, List.length_append, ih, List.length_singleton]

theorem lt_of_mem_digits (hbase : 0 < base) {width n d : Nat} (hd : d ∈ digits base width n) :
    d < base := by
  induction width generalizing n with
  | zero => simp [digits] at hd
  | succ width ih =>
      rcases List.mem_append.mp hd with hleft | hlast
      · exact ih hleft
      · rw [List.mem_singleton.mp hlast]
        exact Nat.mod_lt n hbase

theorem value_concat (ds : List Nat) (d : Nat) :
    value base (ds ++ [d]) = value base ds * base + d := by
  rw [value, List.foldl_append]
  rfl

/-- A number that fits into the width is the value of its digits. -/
theorem value_digits {width n : Nat} (hn : n < base ^ width) :
    value base (digits base width n) = n := by
  induction width generalizing n with
  | zero =>
      rw [pow_zero, Nat.lt_one_iff] at hn
      rw [hn]
      rfl
  | succ width ih =>
      have hquotient : n / base < base ^ width := by
        apply Nat.div_lt_of_lt_mul
        rwa [pow_succ'] at hn
      rw [digits, value_concat, ih hquotient]
      exact Nat.div_add_mod' n base

/-- The bytes of a number, the most significant first. -/
def bigEndian (size n : Nat) : List UInt8 :=
  (digits 256 size n).map UInt8.ofNat

def ofBigEndian (bytes : List UInt8) : Nat :=
  value 256 (bytes.map UInt8.toNat)

/-- A number that fits into the bytes is read from them. -/
theorem ofBigEndian_bigEndian {size n : Nat} (hn : n < 256 ^ size) :
    ofBigEndian (bigEndian size n) = n := by
  have hbytes : ∀ d ∈ digits 256 size n, (UInt8.toNat ∘ UInt8.ofNat) d = id d := by
    intro d hd
    have hlt := lt_of_mem_digits (by decide) hd
    rw [Function.comp_apply, UInt8.toNat_ofNat', id_eq]
    exact Nat.mod_eq_of_lt hlt
  rw [ofBigEndian, bigEndian, List.map_map, List.map_congr_left hbytes, List.map_id]
  exact value_digits hn

/-- A number in the digits of a base up to sixteen. -/
def text (base width n : Nat) : List Char :=
  (digits base width n).map Nat.digitChar

@[simp] theorem length_text (width n : Nat) : (text base width n).length = width := by
  rw [text, List.length_map, length_digits]

def digitValue (c : Char) : Option Nat :=
  if '0' ≤ c ∧ c ≤ '9' then some (c.toNat - 48)
  else if 'a' ≤ c ∧ c ≤ 'f' then some (c.toNat - 87)
  else if 'A' ≤ c ∧ c ≤ 'F' then some (c.toNat - 55)
  else none

theorem digitValue_digitChar {d : Nat} (hd : d < 16) : digitValue (Nat.digitChar d) = some d := by
  revert d
  decide

/-- A number is written in nothing but digits. -/
theorem not_mem_text (hpositive : 0 < base) (hbase : base ≤ 16) {c : Char}
    (hc : digitValue c = none) (width n : Nat) : c ∉ text base width n := by
  intro hmem
  obtain ⟨d, hd, rfl⟩ := List.mem_map.mp hmem
  have hlt := Nat.lt_of_lt_of_le (lt_of_mem_digits hpositive hd) hbase
  rw [digitValue_digitChar hlt] at hc
  cases hc

/-- The digits at the start of a text, and what follows them. -/
def readDigits (base : Nat) : Nat → List Char → Option (List Nat × List Char)
  | 0, rest => some ([], rest)
  | _ + 1, [] => none
  | width + 1, c :: rest =>
      match digitValue c with
      | none => none
      | some d =>
          if d < base then (readDigits base width rest).map fun read => (d :: read.1, read.2)
          else none

def read (base width : Nat) (characters : List Char) : Option (Nat × List Char) :=
  (readDigits base width characters).map fun read => (value base read.1, read.2)

theorem readDigits_map (hbase : base ≤ 16) {ds : List Nat} (hds : ∀ d ∈ ds, d < base)
    (rest : List Char) :
    readDigits base ds.length (ds.map Nat.digitChar ++ rest) = some (ds, rest) := by
  induction ds with
  | nil => rfl
  | cons d tail ih =>
      have hd : d < base := hds d List.mem_cons_self
      have htail := ih fun e he => hds e (List.mem_cons_of_mem d he)
      rw [List.length_cons, List.map_cons, List.cons_append, readDigits,
        digitValue_digitChar (Nat.lt_of_lt_of_le hd hbase)]
      dsimp only
      rw [if_pos hd, htail]
      rfl

/-- A number that fits into the width is read from its text. -/
theorem read_text (hpositive : 0 < base) (hbase : base ≤ 16) {width n : Nat}
    (hn : n < base ^ width) (rest : List Char) :
    read base width (text base width n ++ rest) = some (n, rest) := by
  have hds : ∀ d ∈ digits base width n, d < base := fun d => lt_of_mem_digits hpositive
  have hread := readDigits_map hbase hds rest
  rw [length_digits] at hread
  rw [read, text, hread, Option.map_some, value_digits hn]

end Numeral
