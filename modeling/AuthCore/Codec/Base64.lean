/-
Base 64: bytes as six-bit digits and back, the alphabets the digits are written
in, and the padding that fills the last group of four.
-/
import Mathlib.Data.List.DropRight
import Mathlib.Data.Fin.Basic

namespace Base64

abbrev Sextet := Fin 64

def sextet (n : Nat) : Sextet :=
  Fin.ofNat 64 n

def octet (n : Nat) : UInt8 :=
  UInt8.ofNat n

/-- The digits of bytes, three bytes in four digits; a last group of one or two
bytes is filled up with zero bits. -/
def sextets : List UInt8 → List Sextet
  | [] => []
  | [a] => [sextet (a.toNat / 4), sextet (a.toNat % 4 * 16)]
  | [a, b] =>
      [sextet (a.toNat / 4), sextet (a.toNat % 4 * 16 + b.toNat / 16),
        sextet (b.toNat % 16 * 4)]
  | a :: b :: c :: rest =>
      sextet (a.toNat / 4) :: sextet (a.toNat % 4 * 16 + b.toNat / 16) ::
        sextet (b.toNat % 16 * 4 + c.toNat / 64) :: sextet c.toNat :: sextets rest

/-- How many digits are missing in the last group. -/
def missing (length : Nat) : Nat :=
  (4 - length % 4) % 4

theorem val_sextet (n : Nat) : (sextet n).val = n % 64 :=
  rfl

theorem octet_eq {n : Nat} {a : UInt8} (h : n = a.toNat) : octet n = a := by
  rw [h]
  exact UInt8.ofNat_toNat

/-- The first byte of a group, whatever the second digit holds besides. -/
theorem first_octet (a : UInt8) {n : Nat} (hn : n < 16) :
    octet ((sextet (a.toNat / 4)).val * 4 + (sextet (a.toNat % 4 * 16 + n)).val / 16) = a := by
  have ha := a.toNat_lt
  apply octet_eq
  rw [val_sextet, val_sextet]
  omega

theorem second_octet (m : Nat) (b : UInt8) {n : Nat} (hn : n < 4) :
    octet ((sextet (m % 4 * 16 + b.toNat / 16)).val % 16 * 16 +
      (sextet (b.toNat % 16 * 4 + n)).val / 4) = b := by
  have hb := b.toNat_lt
  apply octet_eq
  rw [val_sextet, val_sextet]
  omega

theorem third_octet (m : Nat) (c : UInt8) :
    octet ((sextet (m % 16 * 4 + c.toNat / 64)).val % 4 * 64 + (sextet c.toNat).val) = c := by
  have hc := c.toNat_lt
  apply octet_eq
  rw [val_sextet, val_sextet]
  omega

/-- No group holds a single digit. -/
theorem missing_sextets (bytes : List UInt8) : missing (sextets bytes).length ≤ 2 := by
  fun_induction sextets bytes with
  | case1 => decide
  | case2 a => simp [missing]
  | case3 a b => simp [missing]
  | case4 a b c rest ih =>
      unfold missing at ih ⊢
      simp only [List.length_cons]
      omega

/-- The bytes of digits in groups of four; what a last group of two or three
digits has besides whole bytes is dropped, and one digit is no group. -/
def octets : List Sextet → Option (List UInt8)
  | [] => some []
  | [_] => none
  | [p, q] => some [octet (p.val * 4 + q.val / 16)]
  | [p, q, r] =>
      some [octet (p.val * 4 + q.val / 16), octet (q.val % 16 * 16 + r.val / 4)]
  | p :: q :: r :: s :: rest =>
      (octets rest).map fun bytes =>
        octet (p.val * 4 + q.val / 16) :: octet (q.val % 16 * 16 + r.val / 4) ::
          octet (r.val % 4 * 64 + s.val) :: bytes

/-- Bytes are read back from their digits, without any padding. -/
theorem octets_sextets (bytes : List UInt8) : octets (sextets bytes) = some bytes := by
  fun_induction sextets bytes with
  | case1 => rfl
  | case2 a =>
      have hfirst := first_octet a (n := 0) (by omega)
      rw [Nat.add_zero] at hfirst
      rw [octets, hfirst]
  | case3 a b =>
      have hb := b.toNat_lt
      have hfirst := first_octet a (n := b.toNat / 16) (by omega)
      have hsecond := second_octet a.toNat b (n := 0) (by omega)
      rw [Nat.add_zero] at hsecond
      rw [octets, hfirst, hsecond]
  | case4 a b c rest ih =>
      have hb := b.toNat_lt
      have hc := c.toNat_lt
      have hfirst := first_octet a (n := b.toNat / 16) (by omega)
      have hsecond := second_octet a.toNat b (n := c.toNat / 64) (by omega)
      have hthird := third_octet b.toNat c
      rw [octets, ih, hfirst, hsecond, hthird]
      rfl

/-- How the digits are written; the padding is none of them. -/
structure Alphabet where
  char : Sextet → Char
  digit : Char → Option Sextet
  digit_char : ∀ d, digit (char d) = some d
  not_padding : ∀ d, char d ≠ '='

namespace Alphabet

/-- The place of a character in a list of digits. -/
def digitOf (digits : List Char) (c : Char) : Option Sextet :=
  (digits.idxOf? c).map sextet

def standardDigits : List Char :=
  "ABCDEFGHIJKLMNOPQRSTUVWXYZabcdefghijklmnopqrstuvwxyz0123456789+/".toList

def urlSafeDigits : List Char :=
  "ABCDEFGHIJKLMNOPQRSTUVWXYZabcdefghijklmnopqrstuvwxyz0123456789-_".toList

def standard : Alphabet where
  char d := standardDigits.getD d.val 'A'
  digit := digitOf standardDigits
  digit_char := by decide +kernel
  not_padding := by decide +kernel

def urlSafe : Alphabet where
  char d := urlSafeDigits.getD d.val 'A'
  digit := digitOf urlSafeDigits
  digit_char := by decide +kernel
  not_padding := by decide +kernel

variable (A : Alphabet)

/-- The text of bytes, filled up to whole groups. -/
def encode (bytes : List UInt8) : List Char :=
  (sextets bytes).map A.char ++ List.replicate (missing (sextets bytes).length) '='

/-- Without its padding the text is the digits alone. -/
theorem stripped_encode (bytes : List UInt8) :
    (A.encode bytes).rdropWhile (· == '=') = (sextets bytes).map A.char := by
  unfold encode
  generalize missing (sextets bytes).length = n
  induction n with
  | zero =>
      rw [List.replicate_zero, List.append_nil]
      apply List.rdropWhile_eq_self_iff.mpr
      intro hne
      rw [List.getLast_map, beq_iff_eq]
      exact A.not_padding _
  | succ n ih =>
      rw [List.replicate_succ', ← List.append_assoc, List.rdropWhile_concat,
        if_pos (beq_self_eq_true _), ih]

end Alphabet

end Base64
