import Mathlib.Data.List.Basic

/-!
# Lines

The lines of a file the way a buffered reader cuts them out of its bytes: a line ends at a line
feed, which a carriage return may precede, and only the last one may lack its end.
-/

namespace YellowstoneStream.Reasoning.Lines

def lineFeed : UInt8 := 10
def carriageReturn : UInt8 := 13

/-- The bytes of a text in UTF-8. -/
def textBytes (text : String) : List UInt8 := text.toList.flatMap String.utf8EncodeChar

def decode (bytes : List UInt8) : Option String := String.fromUTF8? bytes.toByteArray

def stripReturn (line : List UInt8) : List UInt8 :=
  if line.getLast? = some carriageReturn then line.dropLast else line

/-- The lines that are ended by a line feed, without their ends. -/
def ended (bytes : List UInt8) : List (List UInt8) :=
  (bytes.splitOn lineFeed).dropLast.map stripReturn

/-- What follows the last line feed. -/
def unended (bytes : List UInt8) : List UInt8 := (bytes.splitOn lineFeed).getLast?.getD []

/-- An open file: its bytes, and what reading fails with behind them, if it does. -/
structure Source (ε : Type) where
  bytes : List UInt8
  failure : Option ε

variable {ε : Type}

/-- The last item of `lines`, if the file does not end with a line feed or cannot be read on. -/
def lastLine (invalidText : ε) (source : Source ε) : List (Except ε String) :=
  match source.failure with
  | some err => [.error err]
  | none =>
      if unended source.bytes = [] then []
      else [((decode (unended source.bytes)).map .ok).getD (.error invalidText)]

/-- `BufRead::lines`. -/
def lines (invalidText : ε) (source : Source ε) : List (Except ε String) :=
  (ended source.bytes).map (fun line => ((decode line).map .ok).getD (.error invalidText)) ++
    lastLine invalidText source

/-! ## Texts in bytes -/

@[simp] theorem textBytes_append (a b : String) :
    textBytes (a ++ b) = textBytes a ++ textBytes b := by
  rw [textBytes, String.toList_append, List.flatMap_append]
  rfl

theorem decode_textBytes (text : String) : decode (textBytes text) = some text := by
  have hbytes : (textBytes text).toByteArray = text.toByteArray := by
    rw [← String.utf8Encode_toList]
    rfl
  rw [decode, hbytes, String.fromUTF8?, dif_pos text.isValidUTF8]
  rfl

theorem le_or_right (a b : UInt8) : b.toNat ≤ (a ||| b).toNat := by
  rw [UInt8.toNat_or]
  exact Nat.right_le_or

/-- A byte below 128 is a character of its own. -/
theorem eq_of_mem_encodeChar {c : Char} {byte : UInt8} (h : byte ∈ String.utf8EncodeChar c)
    (hlt : byte.toNat < 128) : byte.toNat = c.toNat := by
  have hsize : c.utf8Size = 1 ∨ c.utf8Size = 2 ∨ c.utf8Size = 3 ∨ c.utf8Size = 4 := by
    have hpos := c.utf8Size_pos
    have hle := c.utf8Size_le_four
    omega
  -- the bytes of a longer character all have their first bit set
  have hhigh : ∀ {a b : UInt8}, byte = a ||| b → 128 ≤ b.toNat → False := by
    rintro a b rfl hb
    have hle := le_or_right a b
    omega
  rcases hsize with hone | htwo | hthree | hfour
  · rw [String.utf8EncodeChar_eq_singleton hone, List.mem_singleton] at h
    rw [Char.utf8Size_eq_one_iff, UInt32.le_iff_toNat_le] at hone
    rw [h, UInt32.toNat_toUInt8]
    exact Nat.mod_eq_of_lt (Nat.lt_of_le_of_lt hone (by decide))
  · rw [String.utf8EncodeChar_eq_cons_cons htwo] at h
    simp only [List.mem_cons, List.not_mem_nil, or_false] at h
    rcases h with h | h <;> exact (hhigh h (by decide)).elim
  · rw [String.utf8EncodeChar_eq_cons_cons_cons hthree] at h
    simp only [List.mem_cons, List.not_mem_nil, or_false] at h
    rcases h with h | h | h <;> exact (hhigh h (by decide)).elim
  · rw [String.utf8EncodeChar_eq_cons_cons_cons_cons hfour] at h
    simp only [List.mem_cons, List.not_mem_nil, or_false] at h
    rcases h with h | h | h | h <;> exact (hhigh h (by decide)).elim

/-- A text on one line: it has no character that ends a line or belongs to the end of one. -/
def Unbroken (text : String) : Prop := ∀ c ∈ text.toList, c ≠ '\n' ∧ c ≠ '\r'

theorem Unbroken.append {text rest : String} (h : Unbroken text) (hrest : Unbroken rest) :
    Unbroken (text ++ rest) := by
  intro c hc
  rw [String.toList_append] at hc
  exact (List.mem_append.mp hc).elim (h c) (hrest c)

theorem Unbroken.lineFeed_not_mem {text : String} (h : Unbroken text) :
    lineFeed ∉ textBytes text := by
  intro hmem
  obtain ⟨c, hc, hbyte⟩ := List.mem_flatMap.mp hmem
  exact (h c hc).1 (Char.toNat_inj.mp (eq_of_mem_encodeChar hbyte (by decide)).symm)

theorem Unbroken.carriageReturn_not_mem {text : String} (h : Unbroken text) :
    carriageReturn ∉ textBytes text := by
  intro hmem
  obtain ⟨c, hc, hbyte⟩ := List.mem_flatMap.mp hmem
  exact (h c hc).2 (Char.toNat_inj.mp (eq_of_mem_encodeChar hbyte (by decide)).symm)

/-! ## Cutting lines off -/

section Cut

variable {line rest : List UInt8} {invalidText : ε} {failure : Option ε}

theorem stripReturn_concat (line : List UInt8) :
    stripReturn (line ++ [carriageReturn]) = line := by
  rw [stripReturn, List.getLast?_concat, if_pos rfl, List.dropLast_concat]

theorem stripReturn_of_not_mem (h : carriageReturn ∉ line) : stripReturn line = line :=
  if_neg fun hlast => h (List.mem_of_getLast? hlast)

variable (h : lineFeed ∉ line)
include h

/-- The first line feed ends the first line. -/
theorem lines_cons : lines invalidText ⟨line ++ lineFeed :: rest, failure⟩ =
    ((decode (stripReturn line)).map .ok).getD (.error invalidText) ::
      lines invalidText ⟨rest, failure⟩ := by
  have hsplit : (line ++ lineFeed :: rest).splitOn lineFeed = line :: rest.splitOn lineFeed :=
    List.splitOn_append_cons_self_of_not_mem h rest
  have hne := List.splitOn_ne_nil lineFeed rest
  have hended : ended (line ++ lineFeed :: rest) = stripReturn line :: ended rest := by
    rw [ended, hsplit, List.dropLast_cons_of_ne_nil hne, List.map_cons]
    rfl
  have hunended : unended (line ++ lineFeed :: rest) = unended rest := by
    rw [unended, hsplit, List.getLast?_cons_of_ne_nil hne]
    rfl
  rw [lines, lines, hended, List.map_cons, List.cons_append, lastLine, lastLine, hunended]

/-- Without a line feed there is at most one line, which keeps its last byte. -/
theorem lines_of_not_mem : lines invalidText ⟨line, none⟩ =
    if line = [] then [] else [((decode line).map .ok).getD (.error invalidText)] := by
  have hsplit : line.splitOn lineFeed = [line] := List.splitOn_eq_singleton h
  have hended : ended line = [] := by rw [ended, hsplit]; rfl
  have hunended : unended line = line := by rw [unended, hsplit]; rfl
  rw [lines, hended, lastLine, hunended]
  rfl

end Cut

/-! ## Written lines -/

/-- A line and whether it ends as on Windows, in bytes. -/
def writeLine (line : String × Bool) : List UInt8 :=
  textBytes line.1 ++ if line.2 then [carriageReturn, lineFeed] else [lineFeed]

theorem lines_writeLine {invalidText : ε} {failure : Option ε} {line : String × Bool}
    (h : Unbroken line.1) (rest : List UInt8) :
    lines invalidText ⟨writeLine line ++ rest, failure⟩ =
      .ok line.1 :: lines invalidText ⟨rest, failure⟩ := by
  obtain ⟨text, windows⟩ := line
  have hfeed := h.lineFeed_not_mem
  cases windows with
  | false =>
      have hsame : writeLine (text, false) ++ rest = textBytes text ++ lineFeed :: rest :=
        List.append_cons .. |>.symm
      rw [hsame, lines_cons hfeed, stripReturn_of_not_mem h.carriageReturn_not_mem,
        decode_textBytes]
      rfl
  | true =>
      have hsame : writeLine (text, true) ++ rest =
          (textBytes text ++ [carriageReturn]) ++ lineFeed :: rest := by
        simp [writeLine]
      have hmem : lineFeed ∉ textBytes text ++ [carriageReturn] := by
        rw [List.mem_append, List.mem_singleton, not_or]
        exact ⟨hfeed, by decide⟩
      rw [hsame, lines_cons hmem, stripReturn_concat, decode_textBytes]
      rfl

/-- The texts that are written on lines of their own are read back, however the lines end and also
when the last one does not. -/
theorem lines_of_written {invalidText : ε} {written : List (String × Bool)} {last : Option String}
    (h : ∀ line ∈ written, Unbroken line.1) (hlast : ∀ text ∈ last, Unbroken text ∧ text ≠ "") :
    lines invalidText ⟨written.flatMap writeLine ++ (last.map textBytes).getD [], none⟩ =
      (written.map Prod.fst ++ last.toList).map .ok := by
  induction written with
  | nil =>
      cases last with
      | none => exact lines_of_not_mem List.not_mem_nil
      | some text =>
          obtain ⟨hunbroken, hne⟩ := hlast text rfl
          have hbytes : textBytes text ≠ [] := by
            intro hnil
            have htext := decode_textBytes text
            rw [hnil] at htext
            exact hne (Option.some.inj htext).symm
          show lines invalidText ⟨textBytes text, none⟩ = _
          rw [lines_of_not_mem hunbroken.lineFeed_not_mem, if_neg hbytes, decode_textBytes]
          rfl
  | cons line written ih =>
      rw [List.flatMap_cons, List.append_assoc, lines_writeLine (h line List.mem_cons_self),
        ih fun l hl => h l (List.mem_cons_of_mem _ hl)]
      rfl

end YellowstoneStream.Reasoning.Lines
