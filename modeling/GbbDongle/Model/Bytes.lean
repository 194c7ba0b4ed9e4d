import Mathlib.Order.Defs.LinearOrder
import Mathlib.Data.List.Lex
import Mathlib.Data.List.TakeWhile
import Mathlib.Data.UInt

/-!
# Byte strings

`std::string` is a sequence of bytes, compared byte by byte as unsigned
values, and nothing in the firmware asks it to be text. The hex codec and the
CRC at the bottom of `gbb_protocol.cpp` are here as well: they are what the
executor and the parser share, and they know nothing but bytes.
-/

namespace Gbb

/-- The order of `char_traits<char>`: bytes as unsigned numbers. -/
instance instLinearOrderUInt8 : LinearOrder UInt8 where
  le_refl := UInt8.le_refl
  le_trans _ _ _ := UInt8.le_trans
  le_antisymm _ _ := UInt8.le_antisymm
  le_total := UInt8.le_total
  toDecidableLE := inferInstance
  toDecidableLT := inferInstance
  toDecidableEq := inferInstance
  lt_iff_le_not_ge a b := by
    rw [UInt8.lt_iff_toNat_lt, UInt8.le_iff_toNat_le, UInt8.le_iff_toNat_le]
    omega

/-- `std::string`, and `std::vector<uint8_t>` for frames. -/
abbrev Bytes := List UInt8

/-- The bytes of an ASCII literal. -/
def text (s : String) : Bytes := s.toList.map fun c => UInt8.ofNat c.toNat

/-- What assigning a `const char *` to a string keeps: everything up to the
first NUL. -/
def cstr (s : Bytes) : Bytes := s.takeWhile (· ≠ 0)

/-- A string that survives the way through a `const char *`. -/
def NulFree (s : Bytes) : Prop := 0 ∉ s

theorem nulFree_cstr (s : Bytes) : NulFree (cstr s) := fun h => by
  have := List.mem_takeWhile_imp h
  simp at this

theorem cstr_of_nulFree {s : Bytes} (h : NulFree s) : cstr s = s := by
  rw [cstr, List.takeWhile_eq_self_iff]
  intro b hb
  have : b ≠ 0 := fun h0 => h (h0 ▸ hb)
  simpa using this

/-- The characters `str_trim_copy` strips: blank, tab, CR, LF, FF, VT. -/
def isSpace (c : UInt8) : Bool :=
  c == 32 || c == 9 || c == 13 || c == 10 || c == 12 || c == 11

/-- `str_trim_copy`. -/
def strTrimCopy (s : Bytes) : Bytes :=
  ((s.dropWhile isSpace).reverse.dropWhile isSpace).reverse

theorem nulFree_strTrimCopy {s : Bytes} (h : NulFree s) : NulFree (strTrimCopy s) := by
  intro hz
  rw [strTrimCopy, List.mem_reverse] at hz
  have h1 := (List.dropWhile_suffix isSpace).subset hz
  exact h ((List.dropWhile_suffix isSpace).subset (List.mem_reverse.mp h1))

/-! ## The hex codec -/

/-- The digit `HEX[n]` for a nibble. -/
def hexDigit (n : UInt8) : UInt8 := if n < 10 then n + 48 else n + 55

/-- `bytes_to_hex`. -/
def bytesToHex : Bytes → Bytes
  | [] => []
  | b :: rest => hexDigit (b >>> 4) :: hexDigit (b &&& 0x0F) :: bytesToHex rest

/-- `hex_nibble`, with `none` for the source's `-1`. -/
def hexNibble (c : UInt8) : Option UInt8 :=
  if 48 ≤ c ∧ c ≤ 57 then some (c - 48)
  else if 65 ≤ c ∧ c ≤ 70 then some (c - 65 + 10)
  else if 97 ≤ c ∧ c ≤ 102 then some (c - 97 + 10)
  else none

/-- The loop of `hex_to_bytes`: two characters a byte, pushed to `out`. A bad
character leaves what was pushed before it. -/
def hexPairs : Bytes → Bytes → Bool × Bytes
  | hi :: lo :: rest, out =>
      match hexNibble hi, hexNibble lo with
      | some h, some l => hexPairs rest (out ++ [(h <<< 4) ||| l])
      | _, _ => (false, out)
  | _, out => (true, out)

/-- `hex_to_bytes`: the verdict, and what the output vector holds afterwards.
An odd length returns before the vector is cleared. -/
def hexToBytes (hex : Bytes) (out : Bytes) : Bool × Bytes :=
  if hex.length % 2 ≠ 0 then (false, out) else hexPairs hex []

/-- The frame a hex text spells, if it spells one. -/
def hexDecode (hex : Bytes) : Option Bytes :=
  if (hexToBytes hex []).1 then some (hexToBytes hex []).2 else none

/-- The verdict and the decoded bytes do not depend on the old contents of the
output vector. -/
theorem hexDecode_of_hexToBytes {hex out : Bytes} (h : (hexToBytes hex out).1 = true) :
    hexDecode hex = some (hexToBytes hex out).2 := by
  rw [hexToBytes] at h
  split at h
  · cases h
  · next heven =>
      rw [hexDecode, hexToBytes, hexToBytes, if_neg heven, if_neg heven, if_pos h]

@[simp] theorem length_bytesToHex (b : Bytes) : (bytesToHex b).length = 2 * b.length := by
  induction b with
  | nil => rfl
  | cons x rest ih =>
      rw [bytesToHex, List.length_cons, List.length_cons, ih, List.length_cons]
      omega

/-! ## The CRC -/

/-- One bit of the Modbus CRC register. -/
def crcBit (crc : UInt16) : UInt16 :=
  if crc &&& 1 ≠ 0 then (crc >>> 1) ^^^ 0xA001 else crc >>> 1

/-- One byte: the exclusive or, then eight bits. -/
def crcByte (crc : UInt16) (b : UInt8) : UInt16 :=
  crcBit (crcBit (crcBit (crcBit (crcBit (crcBit (crcBit (crcBit (crc ^^^ b.toUInt16))))))))

/-- `modbus_crc16`: polynomial 0xA001, register preset to all ones. -/
def modbusCrc16 (data : Bytes) : UInt16 := data.foldl crcByte 0xFFFF

/-- The check of `finish_line_ok_`: the last two bytes of the frame, low byte
first, are the CRC of the rest. -/
def crcOk (frame : Bytes) : Bool :=
  let n := frame.length
  modbusCrc16 (frame.take (n - 2)) ==
    ((frame.getD (n - 2) 0).toUInt16 ||| ((frame.getD (n - 1) 0).toUInt16 <<< 8))

/-- The request of `docs/protocol.md`: read register 0x204, three of them. -/
example : crcOk [0x01, 0x03, 0x02, 0x04, 0x00, 0x03, 0x45, 0xB2] = true := by decide +kernel

end Gbb
