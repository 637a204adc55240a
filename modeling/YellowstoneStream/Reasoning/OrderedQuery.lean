import Mathlib.Data.List.Sort

/-!
# Queries with an order and a limit

`ORDER BY` arranges the matching rows by one comparison after the other, and `LIMIT` keeps the
first of them.  Rows that compare equal may stand in any order, so that a query has one answer only
where the comparison separates the rows.
-/

namespace YellowstoneStream.Reasoning

/-- A comparison that an `ORDER BY` can arrange by. -/
structure RowOrder (α : Type) where
  compare : α → α → Ordering
  lawful : Std.TransCmp compare

namespace RowOrder

variable {α β : Type}

def ints : RowOrder Int := ⟨Ord.compare, inferInstance⟩

/-- `DESC`. -/
def desc (order : RowOrder α) : RowOrder α where
  compare a b := order.compare b a
  lawful := @Std.TransCmp.opposite _ order.compare order.lawful

def on (column : β → α) (order : RowOrder α) : RowOrder β where
  compare a b := order.compare (column a) (column b)
  lawful :=
    { eq_swap := order.lawful.eq_swap
      isLE_trans := order.lawful.isLE_trans }

/-- `NULLS LAST`. -/
def nullsLast (order : RowOrder α) : RowOrder (Option α) where
  compare
    | some a, some b => order.compare a b
    | some _, none => .lt
    | none, some _ => .gt
    | none, none => .eq
  lawful :=
    { eq_swap := by
        rintro (_ | a) (_ | b)
        · rfl
        · rfl
        · rfl
        · exact order.lawful.eq_swap
      isLE_trans := by
        rintro (_ | a) (_ | b) (_ | c) hab hbc
        case some.some.some => exact order.lawful.isLE_trans hab hbc
        case some.none.some => exact absurd hbc Bool.false_ne_true
        all_goals first | rfl | exact hab | exact hbc }

/-- A second comparison for what the first leaves equal. -/
def andThen (first second : RowOrder α) : RowOrder α where
  compare := compareLex first.compare second.compare
  lawful :=
    have := first.lawful
    have := second.lawful
    inferInstance

theorem andThen_eq_iff (first second : RowOrder α) (a b : α) :
    (first.andThen second).compare a b = .eq ↔
      first.compare a b = .eq ∧ second.compare a b = .eq := compareLex_eq_eq

/-! ## Arrangements -/

/-- The one may stand before the other. -/
def le (order : RowOrder α) (a b : α) : Prop := (order.compare a b).isLE = true

variable (order : RowOrder α)

instance : DecidableRel order.le := fun _ _ => inferInstanceAs (Decidable (_ = true))

instance : IsTrans α order.le := ⟨fun _ _ _ hab hbc => order.lawful.isLE_trans hab hbc⟩

instance : Std.Total order.le where
  total a b := by
    have hswap := @order.lawful.eq_swap a b
    unfold le
    rw [hswap]
    cases order.compare b a <;> simp

/-- No two of the rows compare equal. -/
def Separates (rows : List α) : Prop :=
  ∀ a ∈ rows, ∀ b ∈ rows, order.compare a b = .eq → a = b

/-- What a query may answer. -/
def Answers (limit : Nat) (rows page : List α) : Prop :=
  ∃ arranged : List α, arranged.Perm rows ∧ arranged.Pairwise order.le ∧
    page = arranged.take limit

def top (limit : Nat) (rows : List α) : List α := (rows.insertionSort order.le).take limit

variable {order} {limit : Nat} {rows added page : List α}

theorem answers_top : order.Answers limit rows (order.top limit rows) :=
  ⟨_, rows.perm_insertionSort order.le, rows.pairwise_insertionSort order.le, rfl⟩

theorem Separates.of_perm {others : List α} (h : order.Separates rows)
    (hperm : rows.Perm others) : order.Separates others := fun a ha b hb =>
  h a (hperm.mem_iff.mpr ha) b (hperm.mem_iff.mpr hb)

theorem Separates.of_subset {others : List α} (h : order.Separates rows)
    (hsubset : others ⊆ rows) : order.Separates others := fun a ha b hb =>
  h a (hsubset ha) b (hsubset hb)

/-- Rows that are separated have one arrangement. -/
theorem Separates.arranged_eq (h : order.Separates rows) {a b : List α} (ha : a.Perm rows)
    (hb : b.Perm rows) (hsorted : a.Pairwise order.le) (hsorted' : b.Pairwise order.le) :
    a = b := by
  refine (ha.trans hb.symm).eq_of_pairwise (fun x y hx hy hxy hyx => ?_) hsorted hsorted'
  refine h x (ha.mem_iff.mp hx) y (hb.mem_iff.mp hy) ?_
  exact @Std.OrientedCmp.isLE_antisymm _ order.compare order.lawful.toOrientedCmp x y hxy hyx

theorem Answers.eq_top (hsep : order.Separates rows) (h : order.Answers limit rows page) :
    page = order.top limit rows := by
  obtain ⟨arranged, hperm, hsorted, rfl⟩ := h
  rw [hsep.arranged_eq hperm (rows.perm_insertionSort order.le) hsorted
    (rows.pairwise_insertionSort order.le), top]

theorem top_of_perm {others : List α} (hsep : order.Separates rows) (hperm : rows.Perm others) :
    order.top limit rows = order.top limit others := by
  refine Answers.eq_top (hsep.of_perm hperm) ?_
  obtain ⟨arranged, ha, hsorted, hpage⟩ := @answers_top _ order limit rows
  exact ⟨arranged, ha.trans hperm, hsorted, hpage⟩

theorem length_top : (order.top limit rows).length = min limit rows.length := by
  rw [top, List.length_take, List.length_insertionSort]

theorem mem_of_mem_top {a : α} (h : a ∈ order.top limit rows) : a ∈ rows :=
  (List.mem_insertionSort order.le).mp (List.mem_of_mem_take h)

theorem pairwise_top : (order.top limit rows).Pairwise order.le :=
  (rows.pairwise_insertionSort order.le).sublist (List.take_sublist _ _)

/-- What is on the page stands before what is not. -/
theorem exists_rest (order : RowOrder α) (limit : Nat) (rows : List α) :
    ∃ rest, (order.top limit rows ++ rest).Perm rows ∧
      ∀ a ∈ order.top limit rows, ∀ b ∈ rest, order.le a b := by
  refine ⟨(rows.insertionSort order.le).drop limit, ?_, ?_⟩
  · rw [top, List.take_append_drop]
    exact rows.perm_insertionSort order.le
  · have hsorted := rows.pairwise_insertionSort order.le
    rw [← List.take_append_drop limit (rows.insertionSort order.le),
      List.pairwise_append] at hsorted
    exact hsorted.2.2

theorem le_of_head {first : α} (h : (order.top limit rows).head? = some first) {a : α}
    (ha : a ∈ rows) (hne : a ≠ first) : order.le first a := by
  obtain ⟨rest, hperm, hrest⟩ := exists_rest order limit rows
  obtain ⟨page, hpage⟩ := List.head?_eq_some_iff.mp h
  have hsorted := @pairwise_top _ order limit rows
  rw [hpage] at hperm hsorted hrest
  rcases List.mem_append.mp (hperm.mem_iff.mpr ha) with hin | hout
  · exact (List.pairwise_cons.mp hsorted).1 a ((List.mem_cons.mp hin).resolve_left hne)
  · exact hrest first List.mem_cons_self a hout

/-! ## Rows compared by a key -/

section Key

variable {key : β → α} {limit : Nat} {rows page : List β}

/-- The keys of an answer are an answer about the keys. -/
theorem Answers.map_key (h : (order.on key).Answers limit rows page) :
    order.Answers limit (rows.map key) (page.map key) := by
  obtain ⟨arranged, hperm, hsorted, rfl⟩ := h
  refine ⟨arranged.map key, hperm.map key, ?_, List.map_take⟩
  rw [List.pairwise_map]
  exact hsorted

/-- Rows with a key that comes before the last one on the page are all there. -/
theorem Answers.filter_perm [DecidableEq α] (hsep : ∀ a b, order.compare a b = .eq → a = b)
    (h : (order.on key).Answers limit rows page) {k : α} (hk : k ∈ page.map key)
    (hlast : ∀ last ∈ page.getLast?, key last ≠ k) :
    (page.filter fun row => key row = k).Perm (rows.filter fun row => key row = k) := by
  obtain ⟨arranged, hperm, hsorted, rfl⟩ := h
  have hrows := hperm.filter fun row => key row = k
  rw [← List.take_append_drop limit arranged, List.pairwise_append] at hsorted
  rw [← List.take_append_drop limit arranged, List.filter_append] at hrows
  obtain ⟨hpage, -, hrest⟩ := hsorted
  have hnone : (arranged.drop limit).filter (fun row => key row = k) = [] := by
    rw [List.filter_eq_nil_iff]
    intro b hb hkey
    obtain ⟨a, ha, hak⟩ := List.mem_map.mp hk
    obtain ⟨front, last, hlastpage⟩ :=
      (List.eq_nil_or_concat' (arranged.take limit)).resolve_left (List.ne_nil_of_mem ha)
    rw [hlastpage] at ha hpage hlast hrest
    have hmem : last ∈ front ++ [last] := List.mem_append_right _ List.mem_cons_self
    -- the last row stands between two rows with the key
    have hle : order.le k (key last) := by
      rcases List.mem_append.mp ha with hfront | hself
      · rw [← hak]
        exact (List.pairwise_append.mp hpage).2.2 a hfront last List.mem_cons_self
      · rw [← hak, List.mem_singleton.mp hself]
        exact refl_of order.le _
    have hge : order.le (key last) k := of_decide_eq_true hkey ▸ hrest last hmem b hb
    refine hlast last List.getLast?_concat (hsep _ _ ?_)
    exact @Std.OrientedCmp.isLE_antisymm _ order.compare order.lawful.toOrientedCmp _ _ hge hle
  rwa [hnone, List.append_nil] at hrows

end Key

/-! ## Rows that come later -/

theorem take_orderedInsert (a : α) (l : List α) (n : Nat) :
    (l.orderedInsert order.le a).take n = ((l.take n).orderedInsert order.le a).take n := by
  induction l generalizing n with
  | nil => rw [List.take_nil]
  | cons b l ih =>
      cases n with
      | zero => rfl
      | succ n =>
          rw [List.take_succ_cons, List.orderedInsert_cons, List.orderedInsert_cons]
          split
          · show a :: (b :: l).take n = a :: ((b :: l).take (n + 1)).take n
            rw [List.take_take, Nat.min_eq_left (Nat.le_succ n)]
          · rw [List.take_succ_cons, List.take_succ_cons, ih]

theorem top_append_left (added rows : List α) :
    order.top limit (added ++ rows) = order.top limit (added ++ order.top limit rows) := by
  induction added with
  | nil =>
      show order.top limit rows = ((order.top limit rows).insertionSort order.le).take limit
      rw [pairwise_top.insertionSort_eq]
      exact (List.take_of_length_le (length_top.trans_le (Nat.min_le_left _ _))).symm
  | cons a added ih =>
      unfold top at ih ⊢
      rw [List.cons_append, List.cons_append, List.insertionSort_cons, List.insertionSort_cons,
        take_orderedInsert, ih, ← take_orderedInsert]

/-- The next page comes from the page before and the rows that were added. -/
theorem top_append (hsep : order.Separates (rows ++ added)) :
    order.top limit (rows ++ added) = order.top limit (order.top limit rows ++ added) := by
  have hsubset : order.top limit rows ++ added ⊆ rows ++ added :=
    List.append_subset.mpr ⟨fun _ ha => List.mem_append_left _ (mem_of_mem_top ha),
      List.subset_append_right _ _⟩
  rw [top_of_perm hsep List.perm_append_comm, top_append_left,
    top_of_perm ((hsep.of_subset hsubset).of_perm List.perm_append_comm) List.perm_append_comm]

/-- A row that was added and stands before all that were there is on the next page, unless more rows
were added than a page holds. -/
theorem mem_top_of_added (hadded : added.length ≤ limit) {b : α} (hb : b ∈ added)
    (hfirst : ∀ a ∈ rows, ¬ order.le a b) : b ∈ order.top limit (rows ++ added) := by
  by_contra hout
  obtain ⟨rest, hperm, hrest⟩ := exists_rest order limit (rows ++ added)
  have hbrest : b ∈ rest := by
    have hmem := hperm.mem_iff.mpr (List.mem_append_right rows hb)
    exact (List.mem_append.mp hmem).resolve_left hout
  -- the page is full of rows that stand before `b`, which can be added ones only
  have hcount := hperm.countP_eq fun a => order.le a b
  have hnone : rows.countP (fun a => order.le a b) = 0 := by
    rw [List.countP_eq_zero]
    exact fun a ha hle => hfirst a ha (of_decide_eq_true hle)
  have hpage : (order.top limit (rows ++ added)).countP (fun a => order.le a b) = limit := by
    rw [List.countP_eq_length.mpr fun a ha => decide_eq_true (hrest a ha b hbrest), length_top]
    have hlength := hperm.length_eq
    rw [List.length_append, length_top] at hlength
    have hpos := List.length_pos_of_mem hbrest
    omega
  have hself : 0 < rest.countP fun a => order.le a b :=
    List.countP_pos_iff.mpr ⟨b, hbrest, decide_eq_true (refl_of order.le b)⟩
  have hle := @List.countP_le_length _ (fun a => decide (order.le a b)) added
  rw [List.countP_append, List.countP_append, hnone, hpage] at hcount
  omega

end RowOrder

end YellowstoneStream.Reasoning
