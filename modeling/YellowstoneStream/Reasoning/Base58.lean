import Mathlib.Data.Nat.Digits.Defs
import YellowstoneStream.Reasoning.Text

/-! Base 58 texts of byte strings: a `1` for each leading zero, then the digits of the rest. -/

namespace YellowstoneStream.Reasoning.Base58

def alphabet : List Char := "123456789ABCDEFGHJKLMNPQRSTUVWXYZabcdefghijkmnopqrstuvwxyz".toList

def digitChar (d : Nat) : Char := (alphabet[d]?).getD '1'

/-- The number whose bytes these are, the greatest first. -/
def valueOf (bytes : List UInt8) : Nat := Nat.ofDigits 256 (bytes.reverse.map UInt8.toNat)

def encodeChars (bytes : List UInt8) : List Char :=
  (bytes.takeWhile fun byte => byte = 0).map (fun _ => '1') ++
    (Nat.digits 58 (valueOf (bytes.dropWhile fun byte => byte = 0))).reverse.map digitChar

def encode (bytes : List UInt8) : String := .ofList (encodeChars bytes)

theorem encode_nil : encode [] = "" := by
  simp [encode, encodeChars, valueOf]

theorem digitChar_not_whitespace (d : Nat) : Text.isWhitespace (digitChar d) = false := by
  have halphabet : (alphabet.all fun c => !Text.isWhitespace c) = true := by decide
  rw [digitChar]
  cases hd : alphabet[d]? with
  | none => rfl
  | some c => simpa using List.all_eq_true.mp halphabet c (List.mem_of_getElem? hd)

theorem valueOf_ne_zero {byte : UInt8} {bytes : List UInt8} (h : byte ≠ 0) :
    valueOf (byte :: bytes) ≠ 0 := by
  have hbyte : 0 < byte.toNat := Nat.pos_of_ne_zero fun hzero => h (UInt8.toNat_inj.mp hzero)
  rw [valueOf, List.reverse_cons, List.map_append, Nat.ofDigits_append]
  have htop : 0 < 256 ^ (bytes.reverse.map UInt8.toNat).length * byte.toNat :=
    Nat.mul_pos (Nat.pow_pos (by decide)) hbyte
  simp only [List.map_cons, List.map_nil, Nat.ofDigits_singleton]
  omega

theorem encodeChars_ne_nil {bytes : List UInt8} (h : bytes ≠ []) : encodeChars bytes ≠ [] := by
  cases bytes with
  | nil => exact absurd rfl h
  | cons byte bytes =>
      by_cases hzero : byte = 0
      · simp [encodeChars, hzero]
      · rw [encodeChars, List.dropWhile_cons_of_neg (by simpa using hzero)]
        intro hnil
        have hdigits := (List.append_eq_nil_iff.mp hnil).2
        rw [List.map_eq_nil_iff, List.reverse_eq_nil_iff, Nat.digits_eq_nil_iff_eq_zero] at hdigits
        exact valueOf_ne_zero hzero hdigits

theorem encode_nonblank (bytes : List UInt8) (h : bytes ≠ []) :
    Text.isBlank (encode bytes) = false := by
  obtain ⟨c, hc⟩ := List.exists_mem_of_ne_nil _ (encodeChars_ne_nil h)
  have hspace : Text.isWhitespace c = false := by
    rcases List.mem_append.mp hc with hone | hdigit
    · obtain ⟨_, -, rfl⟩ := List.mem_map.mp hone
      rfl
    · obtain ⟨d, -, rfl⟩ := List.mem_map.mp hdigit
      exact digitChar_not_whitespace d
  refine Text.not_isBlank ?_ hspace
  rw [encode, String.toList_ofList]
  exact hc

end YellowstoneStream.Reasoning.Base58
