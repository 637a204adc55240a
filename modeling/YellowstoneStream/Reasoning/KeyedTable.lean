import Mathlib.Data.List.Nodup

/-!
# Tables with a unique key

Rows in insertion order under a unique key, with the two conflict policies of an SQL insert:
keeping the stored row (`DO NOTHING`) and merging into it (`DO UPDATE`).
-/

namespace YellowstoneStream.Reasoning

structure KeyedTable {α κ : Type} (key : α → κ) where
  rows : List α
  unique : (rows.map key).Nodup

/-- A conflict policy that never changes the key of the stored row. -/
structure MergeRule {α κ : Type} (key : α → κ) where
  merge : α → α → α
  key_merge : ∀ old new, key (merge old new) = key old

namespace KeyedTable

variable {α κ : Type} [DecidableEq κ] {key : α → κ}

def empty : KeyedTable key := ⟨[], List.nodup_nil⟩

def keys (table : KeyedTable key) : List κ := table.rows.map key

def find (table : KeyedTable key) (k : κ) : Option α := table.rows.find? fun row => key row = k

@[simp] theorem find_empty (k : κ) : (empty : KeyedTable key).find k = none := rfl

theorem find_eq_some_iff (table : KeyedTable key) (k : κ) (row : α) :
    table.find k = some row ↔ row ∈ table.rows ∧ key row = k := by
  obtain ⟨rows, unique⟩ := table
  induction rows with
  | nil => simp [find]
  | cons first rows ih =>
      rw [List.map_cons, List.nodup_cons] at unique
      have hrest := ih unique.2
      simp only [find] at hrest ⊢
      by_cases hk : key first = k
      · rw [List.find?_cons_of_pos (by simpa using hk), Option.some_inj]
        constructor
        · rintro rfl
          exact ⟨List.mem_cons_self, hk⟩
        · rintro ⟨hmem, hrow⟩
          rcases List.mem_cons.mp hmem with rfl | hmem
          · rfl
          · exact absurd (List.mem_map.mpr ⟨row, hmem, hrow.trans hk.symm⟩) unique.1
      · rw [List.find?_cons_of_neg (by simpa using hk), hrest, List.mem_cons]
        constructor
        · exact fun h => ⟨.inr h.1, h.2⟩
        · rintro ⟨rfl | hmem, hrow⟩
          · exact absurd hrow hk
          · exact ⟨hmem, hrow⟩

theorem find_eq_none_iff (table : KeyedTable key) (k : κ) :
    table.find k = none ↔ k ∉ table.keys := by
  simp [find, keys, List.find?_eq_none]

theorem mem_keys_iff (table : KeyedTable key) (k : κ) :
    k ∈ table.keys ↔ ∃ row, table.find k = some row := by
  rw [← not_iff_not, ← find_eq_none_iff, Option.eq_none_iff_forall_ne_some, not_exists]

/-! ## Inserting without touching stored rows -/

def insertNew (table : KeyedTable key) (row : α) : KeyedTable key :=
  if h : key row ∈ table.keys then table
  else
    { rows := table.rows ++ [row]
      unique := by
        rw [List.map_append, List.map_singleton, List.nodup_append]
        refine ⟨table.unique, List.nodup_singleton _, ?_⟩
        rintro k hk _ hrow rfl
        exact h (List.mem_singleton.mp hrow ▸ hk) }

def insertAllNew (table : KeyedTable key) (rows : List α) : KeyedTable key :=
  rows.foldl insertNew table

theorem insertNew_of_mem {table : KeyedTable key} {row : α} (h : key row ∈ table.keys) :
    table.insertNew row = table := dif_pos h

theorem insertNew_rows_of_not_mem {table : KeyedTable key} {row : α} (h : key row ∉ table.keys) :
    (table.insertNew row).rows = table.rows ++ [row] := by
  rw [insertNew, dif_neg h]

theorem find_insertNew (table : KeyedTable key) (row : α) (k : κ) :
    (table.insertNew row).find k = (table.find k).or (if key row = k then some row else none) := by
  by_cases h : key row ∈ table.keys
  · rw [insertNew_of_mem h]
    split
    · rename_i hk
      obtain ⟨stored, hstored⟩ := (mem_keys_iff table k).mp (hk ▸ h)
      rw [hstored, Option.some_or]
    · rw [Option.or_none]
  · rw [find, insertNew_rows_of_not_mem h, List.find?_append, find]
    congr 1
    by_cases hk : key row = k <;> simp [hk]

@[simp] theorem insertAllNew_nil (table : KeyedTable key) : table.insertAllNew [] = table := rfl

@[simp] theorem insertAllNew_cons (table : KeyedTable key) (row : α) (rows : List α) :
    table.insertAllNew (row :: rows) = (table.insertNew row).insertAllNew rows := rfl

@[simp] theorem insertAllNew_append (table : KeyedTable key) (a b : List α) :
    table.insertAllNew (a ++ b) = (table.insertAllNew a).insertAllNew b :=
  List.foldl_append

/-- Every key holds its stored row, or else the first of the new rows that carries it. -/
theorem find_insertAllNew (table : KeyedTable key) (rows : List α) (k : κ) :
    (table.insertAllNew rows).find k = (table.find k).or (rows.find? fun row => key row = k) := by
  induction rows generalizing table with
  | nil => simp
  | cons row rows ih =>
      rw [insertAllNew_cons, ih, find_insertNew, Option.or_assoc, List.find?_cons]
      by_cases hk : key row = k <;> simp [hk]

theorem mem_keys_insertAllNew (table : KeyedTable key) (rows : List α) (k : κ) :
    k ∈ (table.insertAllNew rows).keys ↔ k ∈ table.keys ∨ k ∈ rows.map key := by
  rw [← not_iff_not, ← find_eq_none_iff, find_insertAllNew, Option.or_eq_none_iff,
    find_eq_none_iff, not_or]
  simp [List.find?_eq_none]

/-- The stored rows stay in front, in place. -/
theorem insertAllNew_rows (table : KeyedTable key) (rows : List α) :
    ∃ added, (table.insertAllNew rows).rows = table.rows ++ added := by
  induction rows generalizing table with
  | nil => exact ⟨[], by simp⟩
  | cons row rows ih =>
      obtain ⟨added, hadded⟩ := ih (table.insertNew row)
      rw [insertAllNew_cons, hadded]
      by_cases h : key row ∈ table.keys
      · exact ⟨added, by rw [insertNew_of_mem h]⟩
      · exact ⟨row :: added, by
          rw [insertNew_rows_of_not_mem h, List.append_assoc, List.singleton_append]⟩

/-- No row comes from elsewhere. -/
theorem mem_of_mem_insertAllNew {table : KeyedTable key} {rows : List α} {row : α}
    (h : row ∈ (table.insertAllNew rows).rows) : row ∈ table.rows ∨ row ∈ rows := by
  have hfind := (find_eq_some_iff (table.insertAllNew rows) (key row) row).mpr ⟨h, rfl⟩
  rw [find_insertAllNew, Option.or_eq_some_iff] at hfind
  rcases hfind with hstored | ⟨-, hnew⟩
  · exact .inl ((find_eq_some_iff table (key row) row).mp hstored).1
  · exact .inr (List.mem_of_find?_eq_some hnew)

theorem insertAllNew_length_le (table : KeyedTable key) (rows : List α) :
    (table.insertAllNew rows).rows.length ≤ table.rows.length + rows.length := by
  induction rows generalizing table with
  | nil => exact Nat.le_refl _
  | cons row rows ih =>
      have hrest := ih (table.insertNew row)
      have hone : (table.insertNew row).rows.length ≤ table.rows.length + 1 := by
        by_cases h : key row ∈ table.keys
        · rw [insertNew_of_mem h]
          exact Nat.le_succ _
        · have happend := congrArg List.length (insertNew_rows_of_not_mem h)
          rw [List.length_append, List.length_singleton] at happend
          omega
      rw [insertAllNew_cons, List.length_cons]
      omega

theorem insertAllNew_of_subset {table : KeyedTable key} {rows : List α}
    (h : ∀ row ∈ rows, key row ∈ table.keys) : table.insertAllNew rows = table := by
  induction rows with
  | nil => rfl
  | cons row rows ih =>
      rw [insertAllNew_cons, insertNew_of_mem (h row List.mem_cons_self)]
      exact ih fun r hr => h r (List.mem_cons_of_mem _ hr)

/-- Rows that were inserted before may be inserted again. -/
theorem insertAllNew_again (table : KeyedTable key) (a b : List α) :
    (table.insertAllNew a).insertAllNew (a ++ b) = table.insertAllNew (a ++ b) := by
  have hstored : ∀ row ∈ a, key row ∈ (table.insertAllNew a).keys := fun row hrow =>
    (mem_keys_insertAllNew table a _).mpr (.inr (List.mem_map_of_mem hrow))
  rw [insertAllNew_append, insertAllNew_of_subset hstored, insertAllNew_append]

/-! ## Merging into stored rows -/

def upsertRows (rule : MergeRule key) (row : α) : List α → List α
  | [] => [row]
  | old :: rest =>
      if key old = key row then rule.merge old row :: rest else old :: upsertRows rule row rest

theorem mem_keys_upsertRows (rule : MergeRule key) (row : α) (rows : List α) (k : κ) :
    k ∈ (upsertRows rule row rows).map key ↔ k = key row ∨ k ∈ rows.map key := by
  induction rows with
  | nil => simp [upsertRows]
  | cons old rest ih =>
      rw [upsertRows]
      split
      · rename_i hkey
        simp only [List.map_cons, rule.key_merge, List.mem_cons, hkey, or_self_left]
      · simp only [List.map_cons, List.mem_cons, ih]
        tauto

theorem upsertRows_unique (rule : MergeRule key) (row : α) {rows : List α}
    (h : (rows.map key).Nodup) : ((upsertRows rule row rows).map key).Nodup := by
  induction rows with
  | nil => exact List.nodup_singleton _
  | cons old rest ih =>
      rw [List.map_cons, List.nodup_cons] at h
      rw [upsertRows]
      split
      · rw [List.map_cons, List.nodup_cons, rule.key_merge]
        exact h
      · rename_i hkey
        rw [List.map_cons, List.nodup_cons, mem_keys_upsertRows]
        exact ⟨fun hmem => hmem.elim hkey h.1, ih h.2⟩

def upsert (rule : MergeRule key) (table : KeyedTable key) (row : α) : KeyedTable key :=
  ⟨upsertRows rule row table.rows, upsertRows_unique rule row table.unique⟩

def upsertAll (rule : MergeRule key) (table : KeyedTable key) (rows : List α) : KeyedTable key :=
  rows.foldl (upsert rule) table

/-- What one merged row leaves under its key. -/
def merged (rule : MergeRule key) (stored : Option α) (row : α) : α :=
  match stored with
  | some old => rule.merge old row
  | none => row

theorem find_upsert (rule : MergeRule key) (table : KeyedTable key) (row : α) (k : κ) :
    (table.upsert rule row).find k =
      if key row = k then some (merged rule (table.find k) row) else table.find k := by
  obtain ⟨rows, unique⟩ := table
  simp only [find, upsert]
  clear unique
  induction rows with
  | nil => by_cases hk : key row = k <;> simp [upsertRows, merged, hk]
  | cons old rest ih =>
      rw [upsertRows]
      by_cases hold : key old = key row
      · by_cases hk : key row = k
        · simp [hold, hk, rule.key_merge, merged]
        · simp [hold, hk, rule.key_merge]
      · -- the walk goes past `old`, which then cannot carry the new row's key
        rw [if_neg hold, List.find?_cons, ih, List.find?_cons]
        by_cases hk : key old = k
        · simp only [hk, decide_true]
          rw [if_neg fun h => hold (hk.trans h.symm)]
        · simp only [hk, decide_false]

@[simp] theorem upsertAll_nil (rule : MergeRule key) (table : KeyedTable key) :
    table.upsertAll rule [] = table := rfl

@[simp] theorem upsertAll_cons (rule : MergeRule key) (table : KeyedTable key) (row : α)
    (rows : List α) :
    table.upsertAll rule (row :: rows) = (table.upsert rule row).upsertAll rule rows := rfl

@[simp] theorem upsertAll_append (rule : MergeRule key) (table : KeyedTable key) (a b : List α) :
    table.upsertAll rule (a ++ b) = (table.upsertAll rule a).upsertAll rule b :=
  List.foldl_append

theorem mem_keys_upsertAll (rule : MergeRule key) (table : KeyedTable key) (rows : List α) (k : κ) :
    k ∈ (table.upsertAll rule rows).keys ↔ k ∈ table.keys ∨ k ∈ rows.map key := by
  induction rows generalizing table with
  | nil => simp
  | cons row rows ih =>
      rw [upsertAll_cons, ih, List.map_cons, List.mem_cons, keys, upsert, mem_keys_upsertRows,
        ← keys]
      tauto

theorem find_upsertAll_of_not_mem (rule : MergeRule key) (table : KeyedTable key) {rows : List α}
    {k : κ} (h : k ∉ rows.map key) : (table.upsertAll rule rows).find k = table.find k := by
  induction rows generalizing table with
  | nil => rfl
  | cons row rows ih =>
      rw [List.map_cons, List.mem_cons, not_or] at h
      rw [upsertAll_cons, ih _ h.2, find_upsert, if_neg (Ne.symm h.1)]

/-- A statement that touches each key once merges each row into what was stored before it. -/
theorem find_upsertAll_of_mem (rule : MergeRule key) (table : KeyedTable key) {rows : List α}
    (hnodup : (rows.map key).Nodup) {row : α} (h : row ∈ rows) :
    (table.upsertAll rule rows).find (key row) =
      some (merged rule (table.find (key row)) row) := by
  induction rows generalizing table with
  | nil => exact absurd h List.not_mem_nil
  | cons first rows ih =>
      rw [List.map_cons, List.nodup_cons] at hnodup
      rw [upsertAll_cons]
      -- no other row of the statement touches the key again
      rcases List.mem_cons.mp h with rfl | hmem
      · rw [find_upsertAll_of_not_mem rule _ hnodup.1, find_upsert, if_pos rfl]
      · have hne : key first ≠ key row := fun heq => hnodup.1 (heq ▸ List.mem_map_of_mem hmem)
        rw [ih _ hnodup.2 hmem, find_upsert, if_neg hne]

end KeyedTable

end YellowstoneStream.Reasoning
