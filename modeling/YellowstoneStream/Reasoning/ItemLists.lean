import Mathlib.Data.List.DropRight
import Mathlib.Data.List.Nodup
import YellowstoneStream.Reasoning.Text

/-!
# Lists written as one text

The items of a text are its trimmed pieces, each where it occurs first.  Whoever writes a list may
put white space around an item and repeat an item that stands earlier.
-/

namespace YellowstoneStream.Reasoning.Text

/-! ## Trimming -/

section Trim

variable {text : String} {chars : List Char}

theorem toList_trim (text : String) :
    (trim text).toList = (text.toList.dropWhile isWhitespace).rdropWhile isWhitespace :=
  String.toList_ofList

theorem rdropWhile_append_of_pos {suffix : List Char} (h : ∀ c ∈ suffix, isWhitespace c = true) :
    (chars ++ suffix).rdropWhile isWhitespace = chars.rdropWhile isWhitespace := by
  unfold List.rdropWhile
  rw [List.reverse_append,
    List.dropWhile_append_of_pos fun c hc => h c (List.mem_reverse.mp hc)]

/-- What is left has no white space in front. -/
theorem dropWhile_of_prefix {front : List Char}
    (h : front <+: chars.dropWhile isWhitespace) : front.dropWhile isWhitespace = front := by
  cases front with
  | nil => rfl
  | cons first rest =>
      obtain ⟨suffix, hsuffix⟩ := h
      have hhead := List.head?_dropWhile_not isWhitespace chars
      rw [← hsuffix, List.cons_append, List.head?_cons] at hhead
      exact List.dropWhile_cons_of_neg (by simpa using hhead)

theorem trim_trim (text : String) : trim (trim text) = trim text := by
  apply String.toList_injective
  rw [toList_trim (trim text), toList_trim text, dropWhile_of_prefix (List.rdropWhile_prefix _ _),
    List.rdropWhile_idempotent]

theorem mem_of_mem_trim {c : Char} (h : c ∈ (trim text).toList) : c ∈ text.toList := by
  rw [toList_trim] at h
  exact List.dropWhile_subset _ ((List.rdropWhile_prefix _ _).subset h)

theorem isBlank_trim (text : String) : isBlank (trim text) = isBlank text := by
  rw [isBlank, isBlank, trim_trim]

/-- The item with white space around it. -/
def Padded (item raw : String) : Prop :=
  ∃ before after, (∀ c ∈ before, isWhitespace c = true) ∧ (∀ c ∈ after, isWhitespace c = true) ∧
    raw.toList = before ++ item.toList ++ after

theorem Padded.trim_eq {item raw : String} (h : Padded item raw) (hitem : trim item = item) :
    trim raw = item := by
  obtain ⟨before, after, hbefore, hafter, hraw⟩ := h
  have hitem' := congrArg String.toList hitem
  rw [toList_trim] at hitem'
  -- the item is trimmed, so it starts and ends without white space
  have hprefix : item.toList <+: item.toList.dropWhile isWhitespace := by
    nth_rewrite 1 [← hitem']
    exact List.rdropWhile_prefix _ _
  have hfront := dropWhile_of_prefix hprefix
  rw [hfront] at hitem'
  apply String.toList_injective
  rw [toList_trim, hraw, List.append_assoc, List.dropWhile_append_of_pos hbefore,
    List.dropWhile_append, hfront]
  split
  · rename_i hempty
    rw [List.isEmpty_iff.mp hempty, List.dropWhile_eq_nil_iff.mpr hafter]
    rfl
  · rw [rdropWhile_append_of_pos hafter, hitem']

end Trim

/-! ## Splitting -/

theorem not_mem_of_mem_splitOn {separator : Char} {chars piece : List Char}
    (h : piece ∈ chars.splitOn separator) : separator ∉ piece := by
  induction chars generalizing piece with
  | nil =>
      rw [List.splitOn_nil, List.mem_singleton] at h
      exact h ▸ List.not_mem_nil
  | cons c chars ih =>
      rw [List.splitOn_cons_eq_if_modifyHead] at h
      split at h
      · rcases List.mem_cons.mp h with rfl | h
        · exact List.not_mem_nil
        · exact ih h
      · rename_i hc
        -- the character belongs to the first piece of the rest
        cases hrest : chars.splitOn separator with
        | nil => exact absurd hrest (List.splitOn_ne_nil separator chars)
        | cons first rest =>
            rw [hrest] at h ih
            rcases List.mem_cons.mp h with rfl | h
            · intro hmem
              rcases List.mem_cons.mp hmem with rfl | hmem
              · exact hc (beq_self_eq_true _)
              · exact ih List.mem_cons_self hmem
            · exact ih (List.mem_cons_of_mem _ h)

theorem not_mem_of_mem_pieces {separator : Char} {text piece : String}
    (h : piece ∈ pieces separator text) : separator ∉ piece.toList := by
  obtain ⟨chars, hchars, rfl⟩ := List.mem_map.mp h
  rw [String.toList_ofList]
  exact not_mem_of_mem_splitOn hchars

/-- Joining and splitting again gives the pieces back. -/
theorem pieces_intercalate {separator : Char} {raws : List String} (hne : raws ≠ [])
    (h : ∀ raw ∈ raws, separator ∉ raw.toList) :
    pieces separator ((String.singleton separator).intercalate raws) = raws := by
  have hsplit : (List.intercalate [separator] (raws.map String.toList)).splitOn separator =
      raws.map String.toList := by
    apply List.splitOn_intercalate
    · intro chars hchars
      obtain ⟨raw, hraw, rfl⟩ := List.mem_map.mp hchars
      exact h raw hraw
    · exact fun hnil => hne (List.map_eq_nil_iff.mp hnil)
  rw [pieces, String.toList_intercalate, String.toList_singleton, hsplit, List.map_map]
  exact List.map_id'' (fun raw => String.ofList_toList) raws

/-- White space alone is one piece. -/
theorem pieces_of_isBlank {separator : Char} (hspace : isWhitespace separator = false)
    {text : String} (h : isBlank text = true) : pieces separator text = [text] := by
  have hmem : separator ∉ text.toList := fun hmem =>
    Bool.false_ne_true (hspace.symm.trans (isWhitespace_of_isBlank h separator hmem))
  rw [pieces, List.splitOn_eq_singleton hmem, List.map_singleton, String.ofList_toList]

/-! ## Items -/

theorem eraseDups_concat {α : Type} [BEq α] [LawfulBEq α] (items : List α) (item : α) :
    (items ++ [item]).eraseDups =
      if items.contains item then items.eraseDups else items.eraseDups ++ [item] := by
  rw [List.eraseDups_append, List.removeAll, List.filter_singleton]
  by_cases hmem : item ∈ items
  · simp [hmem]
  · simp [hmem, List.eraseDups_cons]

theorem nodup_eraseDups {α : Type} [BEq α] [LawfulBEq α] (items : List α) :
    items.eraseDups.Nodup := by
  induction items using List.reverseRecOn with
  | nil => exact List.nodup_nil
  | append_singleton items item ih =>
      rw [eraseDups_concat]
      split
      · exact ih
      · rename_i hmem
        rw [List.nodup_append]
        refine ⟨ih, List.nodup_singleton item, ?_⟩
        rintro earlier hearlier _ hitem rfl
        obtain rfl := List.mem_singleton.mp hitem
        exact hmem (List.contains_iff_mem.mpr (List.mem_eraseDups.mp hearlier))

/-- What a list can hold. -/
structure IsItem (separator : Char) (item : String) : Prop where
  nonblank : isBlank item = false
  trimmed : trim item = item
  unseparated : separator ∉ item.toList

structure IsItemList (separator : Char) (items : List String) : Prop where
  distinct : items.Nodup
  isItem : ∀ item ∈ items, IsItem separator item

/-- The items that the text lists. -/
def listedItems (separator : Char) (text : String) : List String :=
  ((pieces separator text).map trim).eraseDups

theorem isItemList_listedItems {separator : Char} {text : String}
    (h : ∀ piece ∈ pieces separator text, isBlank piece = false) :
    IsItemList separator (listedItems separator text) where
  distinct := nodup_eraseDups _
  isItem item hitem := by
    obtain ⟨piece, hpiece, rfl⟩ := List.mem_map.mp (List.mem_eraseDups.mp hitem)
    refine ⟨(isBlank_trim piece).trans (h piece hpiece), trim_trim piece, fun hmem => ?_⟩
    exact not_mem_of_mem_pieces hpiece (mem_of_mem_trim hmem)

/-- The items one after the other, as pieces with white space around them and with repetitions of
earlier items. -/
inductive WrittenAs : List String → List String → Prop
  | nil : WrittenAs [] []
  | item {items raws : List String} {item raw : String} (h : WrittenAs items raws)
      (hpad : Padded item raw) : WrittenAs (items ++ [item]) (raws ++ [raw])
  | again {items raws : List String} {item raw : String} (h : WrittenAs items raws)
      (hmem : item ∈ items) (hpad : Padded item raw) : WrittenAs items (raws ++ [raw])

section Written

variable {separator : Char} {items raws : List String}

theorem WrittenAs.eq_nil (h : WrittenAs items raws) (hraws : raws = []) : items = [] := by
  cases h with
  | nil => rfl
  | item | again =>
      exact absurd hraws (List.append_ne_nil_of_right_ne_nil _ (List.cons_ne_nil _ []))

/-- Every piece stands for one of the items. -/
theorem WrittenAs.exists_padded (h : WrittenAs items raws) {raw : String} (hraw : raw ∈ raws) :
    ∃ item ∈ items, Padded item raw := by
  induction h with
  | nil => exact absurd hraw List.not_mem_nil
  | item _ hpad ih =>
      rcases List.mem_append.mp hraw with hraw | hraw
      · obtain ⟨item, hitem, hpadded⟩ := ih hraw
        exact ⟨item, List.mem_append_left _ hitem, hpadded⟩
      · obtain rfl := List.mem_singleton.mp hraw
        exact ⟨_, List.mem_append_right _ List.mem_cons_self, hpad⟩
  | again _ hmem hpad ih =>
      rcases List.mem_append.mp hraw with hraw | hraw
      · exact ih hraw
      · obtain rfl := List.mem_singleton.mp hraw
        exact ⟨_, hmem, hpad⟩

/-- Each item is found where it is written first. -/
theorem WrittenAs.eraseDups_trim (h : WrittenAs items raws)
    (hitems : IsItemList separator items) : (raws.map trim).eraseDups = items := by
  induction h with
  | nil => rfl
  | @item items raws item raw _ hpad ih =>
      have hdistinct := List.nodup_append.mp hitems.distinct
      have hearlier : IsItemList separator items :=
        ⟨hdistinct.1, fun earlier hearlier =>
          hitems.isItem earlier (List.mem_append_left _ hearlier)⟩
      have htrim : trim raw = item := hpad.trim_eq
        (hitems.isItem item (List.mem_append_right _ List.mem_cons_self)).trimmed
      have hnew : item ∉ raws.map trim := by
        rw [← List.mem_eraseDups, ih hearlier]
        exact fun hmem => hdistinct.2.2 item hmem item List.mem_cons_self rfl
      rw [List.map_append, List.map_singleton, htrim, eraseDups_concat, ih hearlier,
        if_neg fun hmem => hnew (List.contains_iff_mem.mp hmem)]
  | @again items raws item raw _ hmem hpad ih =>
      have htrim : trim raw = item := hpad.trim_eq (hitems.isItem item hmem).trimmed
      have hold : item ∈ raws.map trim := by
        rw [← List.mem_eraseDups, ih hitems]
        exact hmem
      rw [List.map_append, List.map_singleton, htrim, eraseDups_concat, ih hitems,
        if_pos (List.contains_iff_mem.mpr hold)]

variable (hspace : isWhitespace separator = false) (hitems : IsItemList separator items)
  (h : WrittenAs items raws)
include hitems h

theorem WrittenAs.not_isBlank {raw : String} (hraw : raw ∈ raws) : isBlank raw = false := by
  obtain ⟨item, hitem, hpadded⟩ := h.exists_padded hraw
  rw [← isBlank_trim, hpadded.trim_eq (hitems.isItem item hitem).trimmed]
  exact (hitems.isItem item hitem).nonblank

include hspace

theorem WrittenAs.unseparated {raw : String} (hraw : raw ∈ raws) : separator ∉ raw.toList := by
  obtain ⟨item, hitem, before, after, hbefore, hafter, hchars⟩ := h.exists_padded hraw
  have hnot : ∀ c, isWhitespace c = true → c ≠ separator := by
    rintro c hc rfl
    exact Bool.false_ne_true (hspace.symm.trans hc)
  rw [hchars, List.mem_append, List.mem_append, not_or, not_or]
  exact ⟨⟨fun hmem => hnot _ (hbefore _ hmem) rfl, (hitems.isItem item hitem).unseparated⟩,
    fun hmem => hnot _ (hafter _ hmem) rfl⟩

/-- The text in which a list is written splits into what was written. -/
theorem WrittenAs.pieces_eq (hne : raws ≠ []) :
    pieces separator ((String.singleton separator).intercalate raws) = raws :=
  pieces_intercalate hne fun _ hraw => h.unseparated hspace hitems hraw

theorem WrittenAs.listedItems_eq (hne : raws ≠ []) :
    listedItems separator ((String.singleton separator).intercalate raws) = items := by
  rw [listedItems, h.pieces_eq hspace hitems hne]
  exact h.eraseDups_trim hitems

theorem WrittenAs.not_isBlank_text (hne : raws ≠ []) :
    isBlank ((String.singleton separator).intercalate raws) = false := by
  rw [← Bool.not_eq_true]
  intro hblank
  -- a blank text is its only piece, and none of the pieces is blank
  have hraws := (h.pieces_eq hspace hitems hne).symm.trans (pieces_of_isBlank hspace hblank)
  have hpiece := h.not_isBlank hitems (hraws ▸ List.mem_singleton_self _)
  exact Bool.false_ne_true (hpiece.symm.trans hblank)

end Written

end YellowstoneStream.Reasoning.Text
