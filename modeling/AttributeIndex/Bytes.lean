namespace AttributeIndex

abbrev Bytes := List UInt8

namespace Bytes

-- The power of numbers that the core lemmas are about, where algebra is imported as well.
attribute [local instance (high)] instPowNat

def ofNat : (width value : Nat) → Bytes
  | 0, _ => []
  | width + 1, value => UInt8.ofNat (value / 256 ^ width) :: ofNat width value

def toNat : Bytes → Nat
  | [] => 0
  | byte :: rest => byte.toNat * 256 ^ rest.length + toNat rest

def ofUInt64 (value : UInt64) : Bytes :=
  ofNat 8 value.toNat

def toUInt64 (bytes : Bytes) : UInt64 :=
  UInt64.ofNat (toNat bytes)

@[simp]
theorem length_ofNat (width value : Nat) : (ofNat width value).length = width := by
  induction width with
  | zero => rfl
  | succ width ih => simp [ofNat, ih]

@[simp]
theorem length_ofUInt64 (value : UInt64) : (ofUInt64 value).length = 8 :=
  length_ofNat 8 value.toNat

theorem toNat_lt (bytes : Bytes) : toNat bytes < 256 ^ bytes.length := by
  induction bytes with
  | nil => simp [toNat]
  | cons byte rest ih =>
    have small := byte.toNat_lt
    have scaled : (byte.toNat + 1) * 256 ^ rest.length ≤ 256 * 256 ^ rest.length :=
      Nat.mul_le_mul_right _ (by omega)
    rw [Nat.add_mul, Nat.one_mul] at scaled
    rw [toNat, List.length_cons, Nat.pow_succ, Nat.mul_comm (256 ^ rest.length) 256]
    omega

theorem toNat_ofNat (width value : Nat) : toNat (ofNat width value) = value % 256 ^ width := by
  induction width with
  | zero => simp [ofNat, toNat, Nat.mod_one]
  | succ width ih =>
    have digit : (UInt8.ofNat (value / 256 ^ width)).toNat = value / 256 ^ width % 256 :=
      UInt8.toNat_ofNat'
    rw [ofNat, toNat, length_ofNat, ih, digit, Nat.pow_succ, Nat.mod_mul, Nat.mul_comm,
      Nat.add_comm]

theorem ofNat_mul_add (width factor value : Nat) :
    ofNat width (factor * 256 ^ width + value) = ofNat width value := by
  induction width generalizing factor with
  | zero => rfl
  | succ width ih =>
    have shifted : factor * 256 ^ (width + 1) = factor * 256 * 256 ^ width := by
      rw [Nat.pow_succ, Nat.mul_comm (256 ^ width), Nat.mul_assoc]
    have digit : UInt8.ofNat (factor * 256 + value / 256 ^ width) =
        UInt8.ofNat (value / 256 ^ width) := by
      apply UInt8.toNat_inj.1
      rw [UInt8.toNat_ofNat', UInt8.toNat_ofNat']
      omega
    rw [ofNat, ofNat, shifted, ih, Nat.mul_comm _ (256 ^ width),
      Nat.mul_add_div (Nat.pow_pos (by omega)), digit]

@[simp]
theorem ofNat_toNat (bytes : Bytes) : ofNat bytes.length (toNat bytes) = bytes := by
  induction bytes with
  | nil => rfl
  | cons byte rest ih =>
    have digit : (byte.toNat * 256 ^ rest.length + toNat rest) / 256 ^ rest.length = byte.toNat := by
      rw [Nat.mul_comm, Nat.mul_add_div (Nat.pow_pos (by omega)),
        Nat.div_eq_of_lt (toNat_lt rest), Nat.add_zero]
    rw [List.length_cons, ofNat, toNat, digit, ofNat_mul_add, ih, UInt8.ofNat_toNat]

@[simp]
theorem toUInt64_ofUInt64 (value : UInt64) : (ofUInt64 value).toUInt64 = value := by
  have small := value.toNat_lt
  rw [toUInt64, ofUInt64, toNat_ofNat, Nat.mod_eq_of_lt (by omega), UInt64.ofNat_toNat]

theorem ofUInt64_toUInt64 {bytes : Bytes} (eight : bytes.length = 8) :
    ofUInt64 bytes.toUInt64 = bytes := by
  have small : toNat bytes < 2 ^ 64 := by simpa [eight] using toNat_lt bytes
  rw [ofUInt64, toUInt64, UInt64.toNat_ofNat', Nat.mod_eq_of_lt small, ← eight, ofNat_toNat]

def split? : Nat → Bytes → Option (Bytes × Bytes)
  | 0, bytes => some ([], bytes)
  | _ + 1, [] => none
  | count + 1, byte :: bytes => (split? count bytes).map fun (front, rest) => (byte :: front, rest)

theorem split?_eq (count : Nat) (bytes : Bytes) :
    split? count bytes =
      if count ≤ bytes.length then some (bytes.take count, bytes.drop count) else none := by
  induction count generalizing bytes with
  | zero => simp [split?]
  | succ count ih =>
    cases bytes with
    | nil => simp [split?]
    | cons byte bytes =>
      simp only [split?, ih, List.length_cons, Nat.add_le_add_iff_right]
      split <;> simp

def hexDigit (value : Nat) : Char :=
  if value < 10 then Char.ofNat ('0'.toNat + value) else Char.ofNat ('a'.toNat + (value - 10))

def hexValue? (digit : Char) : Option Nat :=
  if '0' ≤ digit ∧ digit ≤ '9' then some (digit.toNat - '0'.toNat)
  else if 'a' ≤ digit ∧ digit ≤ 'f' then some (digit.toNat - 'a'.toNat + 10)
  else if 'A' ≤ digit ∧ digit ≤ 'F' then some (digit.toNat - 'A'.toNat + 10)
  else none

def toHex (bytes : Bytes) : String :=
  String.ofList (bytes.flatMap fun byte => [hexDigit (byte.toNat / 16), hexDigit (byte.toNat % 16)])

def ofHexDigits? : List Char → Option Bytes
  | [] => some []
  | [_] => none
  | high :: low :: rest => do
    let high ← hexValue? high
    let low ← hexValue? low
    let bytes ← ofHexDigits? rest
    some (UInt8.ofNat (16 * high + low) :: bytes)

def ofHex? (text : String) : Option Bytes :=
  ofHexDigits? text.toList

end Bytes

end AttributeIndex
