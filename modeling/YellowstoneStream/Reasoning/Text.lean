import Mathlib.Data.List.Basic
import Mathlib.Data.List.TakeWhile

/-! Plain texts: white space around them, lists with a separator, and decimal numbers. -/

namespace YellowstoneStream.Reasoning.Text

/-- The characters with the Unicode property `White_Space`. -/
def isWhitespace (c : Char) : Bool :=
  0x09 ≤ c.toNat && c.toNat ≤ 0x0D || 0x2000 ≤ c.toNat && c.toNat ≤ 0x200A ||
    [0x20, 0x85, 0xA0, 0x1680, 0x2028, 0x2029, 0x202F, 0x205F, 0x3000].contains c.toNat

def trim (text : String) : String :=
  .ofList ((text.toList.dropWhile isWhitespace).reverse.dropWhile isWhitespace).reverse

def isBlank (text : String) : Bool := (trim text).isEmpty

/-- A blank text has nothing but white space. -/
theorem isWhitespace_of_isBlank {text : String} (h : isBlank text = true) :
    ∀ c ∈ text.toList, isWhitespace c = true := by
  rw [isBlank, String.isEmpty_iff, trim, String.ofList_eq_empty_iff, List.reverse_eq_nil_iff,
    List.dropWhile_eq_nil_iff] at h
  intro c hc
  rw [← List.takeWhile_append_dropWhile (p := isWhitespace) (l := text.toList)] at hc
  rcases List.mem_append.mp hc with htaken | hdropped
  · exact List.mem_takeWhile_imp htaken
  · exact h c (List.mem_reverse.mpr hdropped)

theorem not_isBlank {text : String} {c : Char} (hc : c ∈ text.toList)
    (hspace : isWhitespace c = false) : isBlank text = false := by
  rw [← Bool.not_eq_true]
  intro hblank
  rw [isWhitespace_of_isBlank hblank c hc] at hspace
  cases hspace

/-- The pieces between the separators; a text without separators is one piece. -/
def pieces (separator : Char) (text : String) : List String :=
  (text.toList.splitOn separator).map .ofList

theorem pieces_ne_nil (separator : Char) (text : String) : pieces separator text ≠ [] :=
  fun h => List.splitOn_ne_nil separator text.toList (List.map_eq_nil_iff.mp h)

/-- A sign in front of a number without sign may only be a plus. -/
def unsignedDigits : List Char → List Char
  | '+' :: digits => digits
  | digits => digits

/-- The number at most `max` that the decimal text stands for. -/
def parseUnsigned (max : Nat) (text : String) : Option Nat :=
  let digits := unsignedDigits text.toList
  let value := Nat.ofDigitChars 10 digits 0
  if !digits.isEmpty && digits.all Char.isDigit && value ≤ max then some value else none

theorem parseUnsigned_le {max value : Nat} {text : String}
    (h : parseUnsigned max text = some value) : value ≤ max := by
  simp only [parseUnsigned, Option.ite_none_right_eq_some, Option.some.injEq, Bool.and_eq_true,
    decide_eq_true_eq] at h
  obtain ⟨⟨-, hle⟩, rfl⟩ := h
  exact hle

theorem unsignedDigits_of_isDigit {digits : List Char} (h : ∀ c ∈ digits, c.isDigit = true) :
    unsignedDigits digits = digits := by
  unfold unsignedDigits
  split
  · exact absurd (h '+' List.mem_cons_self) (by decide)
  · rfl

/-- Every number in range is read back. -/
theorem parseUnsigned_toString {max value : Nat} (h : value ≤ max) :
    parseUnsigned max (toString value) = some value := by
  have hdigits : ∀ c ∈ Nat.toDigits 10 value, c.isDigit = true :=
    fun c hc => Nat.isDigit_of_mem_toDigits (by decide) (by decide) hc
  have hlist : (toString value).toList = Nat.toDigits 10 value := Nat.toList_repr
  unfold parseUnsigned
  rw [hlist, unsignedDigits_of_isDigit hdigits]
  dsimp only
  rw [Nat.ofDigitChars_ten_toDigits, if_pos]
  simp only [Bool.and_eq_true, Bool.not_eq_true', List.isEmpty_eq_false_iff, List.all_eq_true,
    decide_eq_true_eq]
  exact ⟨⟨Nat.toDigits_ne_nil, hdigits⟩, h⟩

end YellowstoneStream.Reasoning.Text
