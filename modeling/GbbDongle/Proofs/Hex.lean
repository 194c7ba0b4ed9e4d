import GbbDongle.Model.Bytes

/-!
# The hex codec

`bytes_to_hex` and `hex_to_bytes` undo each other, up to the case of the
letters. What a single character or a single byte does is checked on all of
them; the rest is two inductions along the pairs of characters: what the loop
of `hex_to_bytes` pushes behind the bytes it has, and that a bad character
anywhere makes it fail.
-/

namespace Gbb

variable {hex out out' b : Bytes} {c hi lo n : UInt8}

/-- The characters of a hex text. -/
def hexDigits : Bytes := text "0123456789ABCDEFabcdef"

/-- `toupper` on the letters of a hex text. -/
def upperHex (c : UInt8) : UInt8 := if 97 ≤ c ∧ c ≤ 102 then c - 32 else c

/-! ## One character, one byte -/

/-- A fact about bytes may be checked on each of them. -/
theorem forall_byte {p : UInt8 → Prop} (h : ∀ n : Fin 256, p (.ofFin n)) (b : UInt8) : p b :=
  h b.toFin

theorem hexNibble_isSome : (hexNibble c).isSome = true ↔ c ∈ hexDigits :=
  forall_byte (p := fun c => (hexNibble c).isSome = true ↔ c ∈ hexDigits) (by decide +kernel) c

theorem hexDigit_of_hexNibble (h : hexNibble c = some n) : n < 16 ∧ hexDigit n = upperHex c :=
  forall_byte (p := fun c => ∀ n ∈ hexNibble c, n < 16 ∧ hexDigit n = upperHex c)
    (by decide +kernel) c n h

theorem hexNibble_hexDigit (h : n < 16) : hexNibble (hexDigit n) = some n :=
  forall_byte (p := fun n => n < 16 → hexNibble (hexDigit n) = some n) (by decide +kernel) n h

/-- A byte is made of its two nibbles. -/
theorem nibbles_of_byte (b : UInt8) :
    b >>> 4 < 16 ∧ b &&& 0x0F < 16 ∧ ((b >>> 4) <<< 4) ||| (b &&& 0x0F) = b :=
  forall_byte
    (p := fun b => b >>> 4 < 16 ∧ b &&& 0x0F < 16 ∧ ((b >>> 4) <<< 4) ||| (b &&& 0x0F) = b)
    (by decide +kernel) b

/-- Two nibbles can be read off the byte they make. -/
theorem byte_of_nibbles {h l : UInt8} (hh : h < 16) (hl : l < 16) :
    ((h <<< 4) ||| l) >>> 4 = h ∧ ((h <<< 4) ||| l) &&& 0x0F = l := by
  have hall : ∀ h l : Fin 16,
      ((UInt8.ofNat h <<< 4) ||| UInt8.ofNat l) >>> 4 = UInt8.ofNat h ∧
        ((UInt8.ofNat h <<< 4) ||| UInt8.ofNat l) &&& 0x0F = UInt8.ofNat l := by
    decide +kernel
  have hpair := hall ⟨h.toNat, UInt8.lt_iff_toNat_lt.mp hh⟩ ⟨l.toNat, UInt8.lt_iff_toNat_lt.mp hl⟩
  rwa [UInt8.ofNat_toNat, UInt8.ofNat_toNat] at hpair

/-! ## The loop -/

/-- A pair of characters is pushed as a byte, or ends the loop. -/
theorem hexPairs_cons {rest : Bytes} :
    hexPairs (hi :: lo :: rest) out =
      match hexNibble hi, hexNibble lo with
      | some h, some l => hexPairs rest (out ++ [(h <<< 4) ||| l])
      | _, _ => (false, out) := rfl

/-- An even text is made of pairs. -/
theorem even_pairs {P : Bytes → Prop} (hnil : P [])
    (hcons : ∀ hi lo rest, P rest → P (hi :: lo :: rest)) :
    ∀ hex : Bytes, hex.length % 2 = 0 → P hex
  | [], _ => hnil
  | [_], h => absurd h Nat.one_ne_zero
  | hi :: lo :: rest, h => by
      rw [List.length_cons, List.length_cons] at h
      exact hcons hi lo rest (even_pairs hnil hcons rest (by omega))

/-- The loop goes through exactly when every character is a digit. -/
theorem hexPairs_fst (heven : hex.length % 2 = 0) :
    ∀ out, (hexPairs hex out).1 = true ↔ ∀ c ∈ hex, c ∈ hexDigits := by
  refine even_pairs (P := fun hex =>
    ∀ out, (hexPairs hex out).1 = true ↔ ∀ c ∈ hex, c ∈ hexDigits) ?_ ?_ hex heven
  · intro out
    simp [hexPairs]
  · intro hi lo rest ih out
    rw [hexPairs_cons]
    simp only [List.mem_cons, forall_eq_or_imp, ← hexNibble_isSome (c := hi),
      ← hexNibble_isSome (c := lo)]
    cases hexNibble hi with
    | none => simp
    | some h =>
        cases hexNibble lo with
        | none => simp
        | some l => simpa using ih (out ++ [(h <<< 4) ||| l])

/-- What it pushes spells the text again, in capitals. -/
theorem hexPairs_snd (heven : hex.length % 2 = 0) :
    ∀ out, (hexPairs hex out).1 = true →
      ∃ pushed, (hexPairs hex out).2 = out ++ pushed ∧ bytesToHex pushed = hex.map upperHex := by
  refine even_pairs (P := fun hex => ∀ out, (hexPairs hex out).1 = true →
    ∃ pushed, (hexPairs hex out).2 = out ++ pushed ∧ bytesToHex pushed = hex.map upperHex)
    ?_ ?_ hex heven
  · intro out _
    exact ⟨[], (List.append_nil out).symm, rfl⟩
  · intro hi lo rest ih out hok
    rw [hexPairs_cons] at hok ⊢
    cases hhi : hexNibble hi with
    | none => simp [hhi] at hok
    | some h =>
        cases hlo : hexNibble lo with
        | none => simp [hhi, hlo] at hok
        | some l =>
            simp only [hhi, hlo] at hok ⊢
            obtain ⟨pushed, hpushed, hspell⟩ := ih _ hok
            obtain ⟨hh, hdigit⟩ := hexDigit_of_hexNibble hhi
            obtain ⟨hl, hdigit'⟩ := hexDigit_of_hexNibble hlo
            obtain ⟨hhigh, hlow⟩ := byte_of_nibbles hh hl
            refine ⟨((h <<< 4) ||| l) :: pushed, ?_, ?_⟩
            · rw [hpushed, List.append_assoc]
              rfl
            · rw [bytesToHex, hhigh, hlow, hspell, hdigit, hdigit', List.map_cons, List.map_cons]

/-- The text of a byte string is read as that byte string. -/
theorem hexPairs_bytesToHex (b out : Bytes) : hexPairs (bytesToHex b) out = (true, out ++ b) := by
  induction b generalizing out with
  | nil =>
      rw [bytesToHex, List.append_nil]
      rfl
  | cons x rest ih =>
      obtain ⟨hhigh, hlow, hbyte⟩ := nibbles_of_byte x
      rw [bytesToHex, hexPairs_cons, hexNibble_hexDigit hhigh, hexNibble_hexDigit hlow]
      simp only [hbyte, ih, List.append_assoc, List.singleton_append]

/-! ## The codec -/

theorem hexToBytes_even (heven : hex.length % 2 = 0) : hexToBytes hex out = hexPairs hex [] := by
  rw [hexToBytes, if_neg (by omega)]

theorem hexToBytes_accepts :
    (hexToBytes hex out).1 = true ↔ hex.length % 2 = 0 ∧ ∀ c ∈ hex, c ∈ hexDigits := by
  by_cases heven : hex.length % 2 = 0
  · rw [hexToBytes_even heven, hexPairs_fst heven]
    exact (and_iff_right heven).symm
  · rw [hexToBytes, if_pos heven]
    exact ⟨fun h => Bool.noConfusion h, fun h => absurd h.1 heven⟩

theorem hexToBytes_bytesToHex (b out : Bytes) : hexToBytes (bytesToHex b) out = (true, b) := by
  have heven : (bytesToHex b).length % 2 = 0 := by
    rw [length_bytesToHex]
    omega
  rw [hexToBytes_even heven, hexPairs_bytesToHex, List.nil_append]

theorem hexDecode_bytesToHex (b : Bytes) : hexDecode (bytesToHex b) = some b := by
  rw [hexDecode, hexToBytes_bytesToHex, if_pos rfl]

/-- The codec is exact: what is accepted, what an accepted text decodes to, that
every byte string comes back, and that the old contents of the output vector
show in none of this. -/
theorem hex_codec_exact :
    (∀ hex out, (hexToBytes hex out).1 = true ↔
      hex.length % 2 = 0 ∧ ∀ c ∈ hex, c ∈ hexDigits) ∧
    (∀ hex out, (hexToBytes hex out).1 = true →
      bytesToHex (hexToBytes hex out).2 = hex.map upperHex) ∧
    (∀ b out, hexToBytes (bytesToHex b) out = (true, b)) ∧
    ∀ hex out out', (hexToBytes hex out).1 = (hexToBytes hex out').1 ∧
      ((hexToBytes hex out).1 = true → (hexToBytes hex out).2 = (hexToBytes hex out').2) := by
  refine ⟨fun hex out => hexToBytes_accepts, ?_, hexToBytes_bytesToHex, ?_⟩
  · intro hex out hok
    have heven := (hexToBytes_accepts.mp hok).1
    rw [hexToBytes_even heven] at hok ⊢
    obtain ⟨pushed, hpushed, hspell⟩ := hexPairs_snd heven [] hok
    rw [hpushed, List.nil_append, hspell]
  · intro hex out out'
    by_cases heven : hex.length % 2 = 0
    · rw [hexToBytes_even heven, hexToBytes_even heven]
      exact ⟨rfl, fun _ => rfl⟩
    · rw [hexToBytes, hexToBytes, if_pos heven, if_pos heven]
      exact ⟨rfl, fun h => Bool.noConfusion h⟩

end Gbb
