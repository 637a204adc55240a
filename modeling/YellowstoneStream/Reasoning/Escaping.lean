import Mathlib.Data.List.Basic

/-!
# Escaped text and delimited records

A text is escaped by writing a mark before every special symbol, the mark included.  An unescaped
special symbol then ends the text unambiguously, so records of named fields written with such
delimiters can be read back.
-/

namespace YellowstoneStream.Reasoning

structure EscapeScheme (α : Type) where
  special : α → Bool
  mark : α
  special_mark : special mark = true

namespace EscapeScheme

variable {α : Type} (scheme : EscapeScheme α)

def escape (text : List α) : List α :=
  text.flatMap fun c => if scheme.special c then [scheme.mark, c] else [c]

/-- An unescaped special symbol: what may follow an escaped text. -/
def IsDelimiter (d : α) : Prop := scheme.special d = true ∧ d ≠ scheme.mark

def Delimited (rest : List α) : Prop :=
  rest = [] ∨ ∃ d tail, rest = d :: tail ∧ scheme.IsDelimiter d

@[simp] theorem escape_nil : scheme.escape [] = [] := rfl

theorem escape_cons (c : α) (text : List α) :
    scheme.escape (c :: text) =
      (if scheme.special c then [scheme.mark, c] else [c]) ++ scheme.escape text := rfl

@[simp] theorem escape_append (a b : List α) :
    scheme.escape (a ++ b) = scheme.escape a ++ scheme.escape b := by
  simp only [escape, List.flatMap_append]

/-- Text without special symbols is its own escaped form. -/
theorem escape_eq_self {text : List α} (h : ∀ c ∈ text, scheme.special c = false) :
    scheme.escape text = text := by
  induction text with
  | nil => rfl
  | cons c text ih =>
      rw [escape_cons, ih fun d hd => h d (List.mem_cons_of_mem _ hd), h c List.mem_cons_self]
      rfl

/-- A delimited tail never starts like a nonempty escaped text. -/
theorem delimited_ne_escape_cons {rest : List α} (hrest : scheme.Delimited rest) (c : α)
    (text tail : List α) : rest ≠ scheme.escape (c :: text) ++ tail := by
  rw [escape_cons]
  rcases hrest with rfl | ⟨d, rest, rfl, hd, hmark⟩
  · split <;> simp
  · -- the escaped text starts with the mark or with a plain symbol, and `d` is neither
    split
    · rintro ⟨⟩
      exact hmark rfl
    · rename_i hplain
      rintro ⟨⟩
      exact hplain hd

/-- Escaped text determines itself and its end inside a longer text. -/
theorem escape_append_injective (a b : List α) {s t : List α} (hs : scheme.Delimited s)
    (ht : scheme.Delimited t) (h : scheme.escape a ++ s = scheme.escape b ++ t) :
    a = b ∧ s = t := by
  induction a generalizing b with
  | nil =>
      cases b with
      | nil => exact ⟨rfl, h⟩
      | cons c b => exact absurd h (scheme.delimited_ne_escape_cons hs c b t)
  | cons c a ih =>
      cases b with
      | nil => exact absurd h.symm (scheme.delimited_ne_escape_cons ht c a s)
      | cons d b =>
          rw [escape_cons, escape_cons, List.append_assoc, List.append_assoc] at h
          -- when only one of the two symbols is special, the other one is its mark
          by_cases hc : scheme.special c <;> by_cases hd : scheme.special d
          · rw [if_pos hc, if_pos hd] at h
            obtain ⟨hhead, hrest⟩ := List.cons.inj (List.cons.inj h).2
            obtain ⟨htext, htail⟩ := ih b hrest
            exact ⟨by rw [hhead, htext], htail⟩
          · rw [if_pos hc, if_neg hd] at h
            exact absurd ((List.cons.inj h).1 ▸ scheme.special_mark) hd
          · rw [if_neg hc, if_pos hd] at h
            exact absurd ((List.cons.inj h).1.symm ▸ scheme.special_mark) hc
          · rw [if_neg hc, if_neg hd] at h
            obtain ⟨hhead, hrest⟩ := List.cons.inj h
            obtain ⟨htext, htail⟩ := ih b hrest
            exact ⟨by rw [hhead, htext], htail⟩

/-- One field of a record: separator, name, assignment sign, value. -/
def encodeField (separator assign : α) (field : List α × List α) : List α :=
  separator :: (scheme.escape field.1 ++ assign :: scheme.escape field.2)

def encodeFields (separator assign : α) (fields : List (List α × List α)) : List α :=
  fields.flatMap (scheme.encodeField separator assign)

@[simp] theorem encodeFields_nil (separator assign : α) :
    scheme.encodeFields separator assign [] = [] := rfl

theorem encodeFields_cons (separator assign : α) (field : List α × List α)
    (fields : List (List α × List α)) :
    scheme.encodeFields separator assign (field :: fields) =
      separator :: (scheme.escape field.1 ++
        assign :: (scheme.escape field.2 ++ scheme.encodeFields separator assign fields)) := by
  simp only [encodeFields, encodeField, List.flatMap_cons, List.cons_append, List.append_assoc]

theorem encodeFields_delimited {separator : α} (assign : α) (hsep : scheme.IsDelimiter separator)
    (fields : List (List α × List α)) :
    scheme.Delimited (scheme.encodeFields separator assign fields) := by
  cases fields with
  | nil => exact .inl rfl
  | cons field fields => exact .inr ⟨separator, _, encodeFields_cons .., hsep⟩

theorem encodeFields_injective {separator assign : α} (hsep : scheme.IsDelimiter separator)
    (hassign : scheme.IsDelimiter assign) :
    Function.Injective (scheme.encodeFields separator assign) := by
  intro a b h
  induction a generalizing b with
  | nil =>
      cases b with
      | nil => rfl
      | cons field b => simp [encodeFields, encodeField] at h
  | cons field a ih =>
      cases b with
      | nil => simp [encodeFields, encodeField] at h
      | cons field' b =>
          rw [encodeFields_cons, encodeFields_cons] at h
          obtain ⟨hname, hrest⟩ := scheme.escape_append_injective field.1 field'.1
            (.inr ⟨assign, _, rfl, hassign⟩) (.inr ⟨assign, _, rfl, hassign⟩) (List.cons.inj h).2
          obtain ⟨hvalue, htail⟩ := scheme.escape_append_injective field.2 field'.2
            (scheme.encodeFields_delimited assign hsep a)
            (scheme.encodeFields_delimited assign hsep b) (List.cons.inj hrest).2
          rw [ih htail, Prod.ext hname hvalue]

end EscapeScheme

end YellowstoneStream.Reasoning
