import Mathlib.Data.List.Basic
import Mathlib.Logic.Function.Basic
import Mathlib.Tactic.IntervalCases

/-! # Hexadecimal text

Bytes are written as two lower-case digits each. Reading accepts digits of both
cases and white space between the bytes.
-/

namespace SwarmHost.Hex

def digit (n : ℕ) : Char := Char.ofNat (if n < 10 then 48 + n else 87 + n)

def value (c : Char) : Option ℕ :=
  if 48 ≤ c.toNat ∧ c.toNat ≤ 57 then some (c.toNat - 48)
  else if 97 ≤ c.toNat ∧ c.toNat ≤ 102 then some (c.toNat - 87)
  else if 65 ≤ c.toNat ∧ c.toNat ≤ 70 then some (c.toNat - 55)
  else none

def isSpace (c : Char) : Bool := c.toNat = 32 ∨ 9 ≤ c.toNat ∧ c.toNat ≤ 13

def digits (bytes : List UInt8) : List Char :=
  bytes.flatMap fun b => [digit (b.toNat / 16), digit (b.toNat % 16)]

def encode (bytes : List UInt8) : String := String.ofList (digits bytes)

def decodeChars : List Char → Option (List UInt8)
  | [] => some []
  | [c] => if isSpace c then some [] else none
  | c :: d :: rest =>
    if isSpace c then decodeChars (d :: rest)
    else
      match value c, value d with
      | some x, some y => (decodeChars rest).map (UInt8.ofNat (16 * x + y) :: ·)
      | _, _ => none

def decode (text : String) : Option (List UInt8) := decodeChars text.toList

theorem value_digit {n : ℕ} (h : n < 16) : value (digit n) = some n := by
  interval_cases n <;> rfl

theorem isSpace_digit {n : ℕ} (h : n < 16) : isSpace (digit n) = false := by
  interval_cases n <;> rfl

theorem decodeChars_digits (bytes : List UInt8) : decodeChars (digits bytes) = some bytes := by
  induction bytes with
  | nil => rfl
  | cons b bytes ih =>
    have hb : b.toNat < 256 := b.toNat_lt
    have hhigh : b.toNat / 16 < 16 := by omega
    have hlow : b.toNat % 16 < 16 := by omega
    have hbyte : UInt8.ofNat (16 * (b.toNat / 16) + b.toNat % 16) = b := by
      rw [Nat.div_add_mod, UInt8.ofNat_toNat]
    change decodeChars (digit (b.toNat / 16) :: digit (b.toNat % 16) :: digits bytes) = _
    rw [decodeChars, isSpace_digit hhigh, value_digit hhigh, value_digit hlow, ih]
    simp [hbyte]

theorem decode_encode (bytes : List UInt8) : decode (encode bytes) = some bytes := by
  rw [decode, encode, String.toList_ofList, decodeChars_digits]

theorem encode_injective : Function.Injective encode := by
  intro a b h
  have ha := decode_encode a
  rw [h, decode_encode] at ha
  exact (Option.some.inj ha).symm

end SwarmHost.Hex
