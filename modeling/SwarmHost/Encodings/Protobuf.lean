import Mathlib.Data.List.Basic

/-! # Messages of length-delimited fields

The wire format of messages whose fields are all bytes, strings or messages: a field
is its tag and its length, both as varints, and its content. Reading gives back the
fields that were written, in their order.
-/

namespace SwarmHost.Protobuf

abbrev Field := ℕ × List UInt8

/-- Seven bits in a byte, the lowest first; all bytes but the last have the high bit set. -/
def writeVarint : (fuel n : ℕ) → List UInt8
  | 0, n => [UInt8.ofNat n]
  | fuel + 1, n =>
    if n < 128 then [UInt8.ofNat n] else UInt8.ofNat (n % 128 + 128) :: writeVarint fuel (n / 128)

def varint (n : ℕ) : List UInt8 := writeVarint n n

/-- The number at the start and the bytes after it. -/
def readVarint : List UInt8 → Option (ℕ × List UInt8)
  | [] => none
  | b :: bytes =>
    if b.toNat < 128 then some (b.toNat, bytes)
    else (readVarint bytes).map fun (n, rest) => (b.toNat - 128 + 128 * n, rest)

def writeField (field : Field) : List UInt8 :=
  varint (8 * field.1 + 2) ++ varint field.2.length ++ field.2

def readField (bytes : List UInt8) : Option (Field × List UInt8) := do
  let (tag, bytes) ← readVarint bytes
  guard (tag % 8 = 2)
  let (length, bytes) ← readVarint bytes
  guard (length ≤ bytes.length)
  return ((tag / 8, bytes.take length), bytes.drop length)

def write (fields : List Field) : List UInt8 := fields.flatMap writeField

def readFields : (fuel : ℕ) → List UInt8 → Option (List Field)
  | 0, bytes => if bytes = [] then some [] else none
  | fuel + 1, bytes =>
    if bytes = [] then some []
    else (readField bytes).bind fun (field, rest) => (readFields fuel rest).map (field :: ·)

def read (bytes : List UInt8) : Option (List Field) := readFields bytes.length bytes

def repeated (number : ℕ) (fields : List Field) : List (List UInt8) :=
  (fields.filter (·.1 = number)).map Prod.snd

/-- The content of a field that is not repeated; the last one counts. -/
def singular (number : ℕ) (fields : List Field) : List UInt8 :=
  (repeated number fields).getLast?.getD []

def present (number : ℕ) (content : List UInt8) : List Field :=
  if content = [] then [] else [(number, content)]

variable {number m n : ℕ} {content : List UInt8} {fields fields' : List Field}

theorem readVarint_writeVarint {fuel : ℕ} (h : n ≤ fuel) (rest : List UInt8) :
    readVarint (writeVarint fuel n ++ rest) = some (n, rest) := by
  induction fuel generalizing n with
  | zero =>
    obtain rfl : n = 0 := by omega
    rfl
  | succ fuel ih =>
    rw [writeVarint]
    split
    · next hn =>
      have hbyte : (UInt8.ofNat n).toNat = n := by rw [UInt8.toNat_ofNat']; omega
      rw [List.singleton_append, readVarint, hbyte, if_pos hn]
    · next hn =>
      have hbyte : (UInt8.ofNat (n % 128 + 128)).toNat = n % 128 + 128 := by
        rw [UInt8.toNat_ofNat']; omega
      have hvalue : n % 128 + 128 - 128 + 128 * (n / 128) = n := by omega
      rw [List.cons_append, readVarint, hbyte, if_neg (by omega), ih (by omega)]
      simp only [Option.map_some, hvalue]

theorem readVarint_varint (n : ℕ) (rest : List UInt8) :
    readVarint (varint n ++ rest) = some (n, rest) :=
  readVarint_writeVarint (Nat.le_refl _) rest

theorem readField_writeField (field : Field) (rest : List UInt8) :
    readField (writeField field ++ rest) = some (field, rest) := by
  have htag : (8 * field.1 + 2) % 8 = 2 := by omega
  have hnumber : (8 * field.1 + 2) / 8 = field.1 := by omega
  simp [readField, writeField, readVarint_varint, htag, hnumber, guard]

theorem length_writeVarint (fuel n : ℕ) : 0 < (writeVarint fuel n).length := by
  cases fuel with
  | zero => exact Nat.one_pos
  | succ fuel =>
    rw [writeVarint]
    split <;> exact Nat.succ_pos _

theorem length_writeField (field : Field) : 0 < (writeField field).length := by
  have htag := length_writeVarint (8 * field.1 + 2) (8 * field.1 + 2)
  simp only [writeField, varint, List.length_append]
  omega

theorem readFields_write {fuel : ℕ} (h : (write fields).length ≤ fuel) :
    readFields fuel (write fields) = some fields := by
  induction fields generalizing fuel with
  | nil => cases fuel <;> rfl
  | cons field fields ih =>
    have hcons : write (field :: fields) = writeField field ++ write fields := rfl
    have hpos := length_writeField field
    rw [hcons, List.length_append] at h
    cases fuel with
    | zero => omega
    | succ fuel =>
      have hne : writeField field ++ write fields ≠ [] := fun hnil => by
        have hlength := congrArg List.length hnil
        rw [List.length_append, List.length_nil] at hlength
        omega
      have hrest : readFields fuel (write fields) = some fields := ih (by omega)
      rw [hcons, readFields, if_neg hne, readField_writeField, Option.bind_some]
      exact congrArg (Option.map (field :: ·)) hrest

/-- What is written reads back as the same fields. -/
theorem read_write (fields : List Field) : read (write fields) = some fields :=
  readFields_write (Nat.le_refl _)

@[simp] theorem repeated_append :
    repeated number (fields ++ fields') = repeated number fields ++ repeated number fields' := by
  simp [repeated]

@[simp] theorem repeated_present_self :
    repeated number (present number content) = if content = [] then [] else [content] := by
  unfold present
  split <;> simp [repeated]

theorem repeated_present_of_ne (h : m ≠ number) : repeated number (present m content) = [] := by
  unfold present
  split <;> simp [repeated, h]

theorem repeated_map_self (contents : List (List UInt8)) :
    repeated number (contents.map (number, ·)) = contents := by
  simp [repeated, List.filter_map, Function.comp_def]

theorem repeated_map_of_ne (h : m ≠ number) (contents : List (List UInt8)) :
    repeated number (contents.map (m, ·)) = [] := by
  simp [repeated, List.filter_map, Function.comp_def, h]

end SwarmHost.Protobuf
