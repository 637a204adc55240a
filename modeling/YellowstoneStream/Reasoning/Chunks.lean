import Mathlib.Data.List.Induction

/-! Cutting a list into chunks of one size as its elements arrive, and the rest that is left. -/

namespace YellowstoneStream.Reasoning

variable {α : Type}

def cut (size : Nat) (acc : List (List α) × List α) (a : α) : List (List α) × List α :=
  if size ≤ acc.2.length + 1 then (acc.1 ++ [acc.2 ++ [a]], []) else (acc.1, acc.2 ++ [a])

def fullChunks (size : Nat) (xs : List α) : List (List α) := (xs.foldl (cut size) ([], [])).1

def remainder (size : Nat) (xs : List α) : List α := (xs.foldl (cut size) ([], [])).2

/-- The full chunks and, when it is not empty, the rest. -/
def chunks (size : Nat) (xs : List α) : List (List α) :=
  fullChunks size xs ++ if (remainder size xs).isEmpty then [] else [remainder size xs]

/-- The chunk that `a` completes, if it completes one. -/
def completed (size : Nat) (xs : List α) (a : α) : List (List α) :=
  if size ≤ (remainder size xs).length + 1 then [remainder size xs ++ [a]] else []

variable (size : Nat)

@[simp] theorem fullChunks_nil : fullChunks size ([] : List α) = [] := rfl
@[simp] theorem remainder_nil : remainder size ([] : List α) = [] := rfl

theorem fold_cut_snoc (xs : List α) (a : α) :
    (xs ++ [a]).foldl (cut size) ([], []) = cut size (fullChunks size xs, remainder size xs) a :=
  List.foldl_append

theorem fullChunks_snoc (xs : List α) (a : α) :
    fullChunks size (xs ++ [a]) = fullChunks size xs ++ completed size xs a := by
  rw [fullChunks, fold_cut_snoc, cut, completed]
  split
  · rfl
  · rw [List.append_nil]

theorem remainder_snoc (xs : List α) (a : α) :
    remainder size (xs ++ [a]) =
      if size ≤ (remainder size xs).length + 1 then [] else remainder size xs ++ [a] := by
  rw [remainder, fold_cut_snoc, cut]
  split <;> rfl

theorem flatten_fullChunks (xs : List α) :
    (fullChunks size xs).flatten ++ remainder size xs = xs := by
  induction xs using List.reverseRecOn with
  | nil => rfl
  | append_singleton xs a ih =>
      rw [fullChunks_snoc, completed, remainder_snoc]
      split
      · rw [List.flatten_append, List.flatten_singleton, List.append_nil, ← List.append_assoc, ih]
      · rw [List.append_nil, ← List.append_assoc, ih]

theorem flatten_chunks (xs : List α) : (chunks size xs).flatten = xs := by
  rw [chunks, List.flatten_append]
  by_cases h : (remainder size xs).isEmpty
  · have hflat := flatten_fullChunks size xs
    rw [List.isEmpty_iff.mp h, List.append_nil] at hflat
    rw [if_pos h, List.flatten_nil, List.append_nil, hflat]
  · rw [if_neg h, List.flatten_singleton, flatten_fullChunks]

theorem mem_of_mem_chunks {xs c : List α} {a : α} (hc : c ∈ chunks size xs) (ha : a ∈ c) :
    a ∈ xs := by
  rw [← flatten_chunks size xs]
  exact List.mem_flatten_of_mem hc ha

theorem exists_mem_chunks {xs : List α} {a : α} (ha : a ∈ xs) : ∃ c ∈ chunks size xs, a ∈ c := by
  rw [← flatten_chunks size xs] at ha
  exact List.mem_flatten.mp ha

theorem fullChunks_ne_nil {xs c : List α} (h : c ∈ fullChunks size xs) : c ≠ [] := by
  induction xs using List.reverseRecOn with
  | nil => exact absurd h List.not_mem_nil
  | append_singleton xs a ih =>
      rw [fullChunks_snoc, completed] at h
      split at h
      · rcases List.mem_append.mp h with h | h
        · exact ih h
        · rw [List.mem_singleton.mp h]
          exact List.append_ne_nil_of_right_ne_nil _ (List.cons_ne_nil _ _)
      · rw [List.append_nil] at h
        exact ih h

theorem chunks_ne_nil {xs c : List α} (h : c ∈ chunks size xs) : c ≠ [] := by
  rcases List.mem_append.mp h with h | h
  · exact fullChunks_ne_nil size h
  · split at h
    · exact absurd h List.not_mem_nil
    · rename_i hne
      rw [List.mem_singleton.mp h]
      exact fun hnil => hne (List.isEmpty_iff.mpr hnil)

theorem prefix_fullChunks {xs ys : List α} (h : xs <+: ys) :
    fullChunks size xs <+: fullChunks size ys := by
  obtain ⟨more, rfl⟩ := h
  induction more using List.reverseRecOn with
  | nil =>
      simp only [List.append_nil, List.prefix_rfl]
  | append_singleton more a ih =>
      rw [← List.append_assoc, fullChunks_snoc]
      exact ih.trans (List.prefix_append _ _)

section Positive

variable {size} (hsize : 0 < size)
include hsize

theorem remainder_length_lt (xs : List α) : (remainder size xs).length < size := by
  induction xs using List.reverseRecOn with
  | nil => exact hsize
  | append_singleton xs a ih =>
      rw [remainder_snoc]
      split
      · exact hsize
      · rw [List.length_append, List.length_singleton]
        omega

theorem remainder_length (xs : List α) : (remainder size xs).length = xs.length % size := by
  induction xs using List.reverseRecOn with
  | nil => exact (Nat.zero_mod size).symm
  | append_singleton xs a ih =>
      have hlt := remainder_length_lt hsize xs
      rw [remainder_snoc, List.length_append, List.length_singleton, Nat.add_mod, ← ih]
      split
      · rename_i hfull
        have hsum : (remainder size xs).length + 1 = size := by omega
        rw [Nat.add_mod_mod, hsum, Nat.mod_self]
        rfl
      · rw [Nat.add_mod_mod, Nat.mod_eq_of_lt (by omega), List.length_append]
        rfl

theorem length_of_mem_fullChunks {xs c : List α} (h : c ∈ fullChunks size xs) :
    c.length = size := by
  induction xs using List.reverseRecOn with
  | nil => exact absurd h List.not_mem_nil
  | append_singleton xs a ih =>
      rw [fullChunks_snoc, completed] at h
      split at h
      · rename_i hfull
        rcases List.mem_append.mp h with h | h
        · exact ih h
        · have hlt := remainder_length_lt hsize xs
          rw [List.mem_singleton.mp h, List.length_append, List.length_singleton]
          omega
      · rw [List.append_nil] at h
        exact ih h

/-- Every chunk but the last has exactly the given size, and the last between one and that. -/
theorem chunks_length {xs c : List α} {done rest : List (List α)}
    (h : chunks size xs = done ++ c :: rest) :
    0 < c.length ∧ c.length ≤ size ∧ (rest ≠ [] → c.length = size) := by
  have hmem : c ∈ chunks size xs := by
    rw [h]
    exact List.mem_append_right _ List.mem_cons_self
  refine ⟨List.length_pos_iff.mpr (chunks_ne_nil size hmem), ?_, ?_⟩
  · rcases List.mem_append.mp hmem with hmem | hmem
    · exact Nat.le_of_eq (length_of_mem_fullChunks hsize hmem)
    · split at hmem
      · exact absurd hmem List.not_mem_nil
      · rw [List.mem_singleton.mp hmem]
        exact Nat.le_of_lt (remainder_length_lt hsize xs)
  · intro hrest
    apply @length_of_mem_fullChunks _ _ hsize xs
    rw [chunks] at h
    split at h
    · rw [List.append_nil] at h
      rw [h]
      exact List.mem_append_right _ List.mem_cons_self
    · -- the last chunk is the last element of `rest`
      obtain ⟨front, last, rfl⟩ : ∃ front last, rest = front ++ [last] :=
        ⟨_, _, (List.dropLast_concat_getLast hrest).symm⟩
      rw [← List.cons_append, ← List.append_assoc] at h
      rw [(List.append_inj' h rfl).1]
      exact List.mem_append_right _ List.mem_cons_self

/-- What fits into one chunk is one chunk. -/
theorem chunks_of_length_le {xs : List α} (hne : xs ≠ []) (hle : xs.length ≤ size) :
    chunks size xs = [xs] := by
  have hflat := flatten_chunks size xs
  cases hchunks : chunks size xs with
  | nil =>
      rw [hchunks] at hflat
      exact absurd hflat.symm hne
  | cons c rest =>
      rw [hchunks, List.flatten_cons] at hflat
      have hrest : rest = [] := by
        by_contra hrest
        have hlength := (@chunks_length _ _ hsize xs c [] rest hchunks).2.2 hrest
        obtain ⟨d, rest, rfl⟩ := List.exists_cons_of_ne_nil hrest
        have hd := (@chunks_length _ _ hsize xs d [c] rest hchunks).1
        -- the first chunk is full, so a second one would be too much
        have htotal := congrArg List.length hflat
        rw [List.length_append, List.flatten_cons, List.length_append] at htotal
        omega
      rw [hrest] at hflat ⊢
      rw [List.flatten_nil, List.append_nil] at hflat
      rw [hflat]

/-- The first chunks hold the first elements. -/
theorem flatten_take_chunks (xs : List α) (k : Nat) :
    ((chunks size xs).take k).flatten = xs.take (k * size) := by
  have hlengths : ∀ done c rest, chunks size xs = done ++ c :: rest →
      c.length ≤ size ∧ (rest ≠ [] → c.length = size) := fun done c rest h =>
    (chunks_length hsize h).2
  have hflat := flatten_chunks size xs
  generalize chunks size xs = cs at hlengths hflat
  subst hflat
  induction cs generalizing k with
  | nil => simp
  | cons c cs ih =>
      obtain ⟨hle, hfull⟩ := hlengths [] c cs rfl
      cases k with
      | zero => simp
      | succ k =>
          have hrest := ih k fun done c' rest h => hlengths (c :: done) c' rest (by rw [h]; rfl)
          rw [List.take_succ_cons, List.flatten_cons, List.flatten_cons, hrest, List.take_append]
          -- the first chunk fits whole, and is full unless nothing follows it
          have hc : c.take ((k + 1) * size) = c := by
            apply List.take_of_length_le
            rw [Nat.add_mul]
            omega
          rw [hc]
          by_cases hnil : cs = []
          · simp [hnil]
          · rw [hfull hnil, Nat.add_mul]
            congr 2
            omega

end Positive

end YellowstoneStream.Reasoning
