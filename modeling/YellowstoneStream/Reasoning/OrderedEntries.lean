import Mathlib.Data.List.Basic
import Mathlib.Order.Lattice

/-!
# Ordered entries

A map as the list of its entries in ascending order of their keys.  Entries are put in one after
the other, and a later one takes the place of an earlier one with its key.
-/

namespace YellowstoneStream.Reasoning

variable {κ ν : Type} [LinearOrder κ]

def putEntry (entry : κ × ν) : List (κ × ν) → List (κ × ν)
  | [] => [entry]
  | first :: rest =>
      if entry.1 < first.1 then entry :: first :: rest
      else if entry.1 = first.1 then entry :: rest
      else first :: putEntry entry rest

def orderedEntries (entries : List (κ × ν)) : List (κ × ν) :=
  entries.foldl (fun ordered entry => putEntry entry ordered) []

def IsOrdered (entries : List (κ × ν)) : Prop := entries.Pairwise fun a b => a.1 < b.1

theorem mem_of_mem_putEntry {entry e : κ × ν} {entries : List (κ × ν)}
    (h : e ∈ putEntry entry entries) : e = entry ∨ e ∈ entries := by
  induction entries with
  | nil => exact .inl (List.mem_singleton.mp h)
  | cons first rest ih =>
      rw [putEntry] at h
      split at h
      · exact List.mem_cons.mp h
      · split at h
        · rcases List.mem_cons.mp h with hnew | hrest
          · exact .inl hnew
          · exact .inr (List.mem_cons_of_mem _ hrest)
        · rcases List.mem_cons.mp h with rfl | hput
          · exact .inr List.mem_cons_self
          · exact (ih hput).imp_right (List.mem_cons_of_mem _)

theorem isOrdered_putEntry {entry : κ × ν} {entries : List (κ × ν)} (h : IsOrdered entries) :
    IsOrdered (putEntry entry entries) := by
  induction entries with
  | nil => exact List.pairwise_singleton _ _
  | cons first rest ih =>
      obtain ⟨hfirst, hrest⟩ := List.pairwise_cons.mp h
      rw [putEntry]
      split
      · rename_i hlt
        refine List.pairwise_cons.mpr ⟨fun e he => ?_, h⟩
        rcases List.mem_cons.mp he with rfl | he
        · exact hlt
        · exact hlt.trans (hfirst e he)
      · rename_i hle
        split
        · rename_i heq
          refine List.pairwise_cons.mpr ⟨fun e he => ?_, hrest⟩
          rw [heq]
          exact hfirst e he
        · rename_i hne
          refine List.pairwise_cons.mpr ⟨fun e he => ?_, ih hrest⟩
          rcases mem_of_mem_putEntry he with rfl | he
          · exact lt_of_le_of_ne (not_lt.mp hle) (Ne.symm hne)
          · exact hfirst e he

/-- An entry behind all others is put at the end. -/
theorem putEntry_of_lt {entry : κ × ν} {entries : List (κ × ν)}
    (h : ∀ e ∈ entries, e.1 < entry.1) : putEntry entry entries = entries ++ [entry] := by
  induction entries with
  | nil => rfl
  | cons first rest ih =>
      obtain ⟨hfirst, hrest⟩ := List.forall_mem_cons.mp h
      rw [putEntry, if_neg hfirst.le.not_gt, if_neg hfirst.ne', ih hrest]
      rfl

theorem foldl_putEntry_isOrdered (entries : List (κ × ν)) {ordered : List (κ × ν)}
    (h : IsOrdered ordered) :
    IsOrdered (entries.foldl (fun ordered entry => putEntry entry ordered) ordered) := by
  induction entries generalizing ordered with
  | nil => exact h
  | cons entry entries ih => exact ih (isOrdered_putEntry h)

theorem isOrdered_orderedEntries (entries : List (κ × ν)) : IsOrdered (orderedEntries entries) :=
  foldl_putEntry_isOrdered entries List.Pairwise.nil

theorem foldl_putEntry_of_isOrdered {ordered entries : List (κ × ν)}
    (h : IsOrdered (ordered ++ entries)) :
    entries.foldl (fun ordered entry => putEntry entry ordered) ordered = ordered ++ entries := by
  induction entries generalizing ordered with
  | nil => exact (List.append_nil _).symm
  | cons entry entries ih =>
      have hlt : ∀ e ∈ ordered, e.1 < entry.1 := fun e he =>
        (List.pairwise_append.mp h).2.2 e he entry List.mem_cons_self
      rw [List.append_cons] at h ⊢
      rw [List.foldl_cons, putEntry_of_lt hlt, ih h]

/-- Entries that are in order stay as they are. -/
theorem orderedEntries_of_isOrdered {entries : List (κ × ν)} (h : IsOrdered entries) :
    orderedEntries entries = entries :=
  foldl_putEntry_of_isOrdered h

theorem mem_of_mem_foldl_putEntry {entries ordered : List (κ × ν)} {e : κ × ν}
    (h : e ∈ entries.foldl (fun ordered entry => putEntry entry ordered) ordered) :
    e ∈ entries ∨ e ∈ ordered := by
  induction entries generalizing ordered with
  | nil => exact .inr h
  | cons entry entries ih =>
      rcases ih h with hlater | hput
      · exact .inl (List.mem_cons_of_mem _ hlater)
      · rcases mem_of_mem_putEntry hput with rfl | hbefore
        · exact .inl List.mem_cons_self
        · exact .inr hbefore

theorem mem_of_mem_orderedEntries {entries : List (κ × ν)} {e : κ × ν}
    (h : e ∈ orderedEntries entries) : e ∈ entries :=
  (mem_of_mem_foldl_putEntry h).resolve_right List.not_mem_nil

end YellowstoneStream.Reasoning
