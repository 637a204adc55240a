import YellowstoneStream.App.Config
import YellowstoneStream.Reasoning.ItemLists

/-!
# Account filters

The loop of `parse_account_filter_list` collects the items that its text lists.  Wherever a setting
comes from, the three filters of a configuration are such lists.
-/

open YellowstoneStream.Reasoning YellowstoneStream.Stream

namespace YellowstoneStream.App

section Parser

variable {key : String}

/-- One round of the loop, on what the earlier pieces have left. -/
theorem addAccount_eraseDups (accounts : List String) (rawItem : String) :
    addAccount key accounts.eraseDups rawItem =
      if Text.isBlank rawItem then .error (.empty key)
      else .ok (accounts ++ [Text.trim rawItem]).eraseDups := by
  have hsame : accounts.eraseDups.contains (Text.trim rawItem) =
      accounts.contains (Text.trim rawItem) := by
    rw [Bool.eq_iff_iff, List.contains_iff_mem, List.contains_iff_mem, List.mem_eraseDups]
  rw [Text.eraseDups_concat, ← hsame]
  rfl

theorem foldlM_addAccount (pieces : List String) :
    pieces.foldlM (addAccount key) [] =
      if pieces.any Text.isBlank then .error (.empty key)
      else .ok (pieces.map Text.trim).eraseDups := by
  induction pieces using List.reverseRecOn with
  | nil => rfl
  | append_singleton pieces rawItem ih =>
      rw [List.foldlM_append, ih, List.any_append, List.map_append, List.map_singleton]
      cases pieces.any Text.isBlank with
      | true => rfl
      | false =>
          rw [if_neg Bool.false_ne_true, ok_bind, List.foldlM_cons,
            addAccount_eraseDups, List.any_cons, List.any_nil,
            Bool.or_false, Bool.false_or]
          exact bind_pure _

theorem parseAccountFilterList_of_blank {value : String} (h : Text.isBlank value = true) :
    parseAccountFilterList key value = .ok [] := if_pos h

theorem parseAccountFilterList_of_not_blank {value : String} (h : Text.isBlank value = false) :
    parseAccountFilterList key value =
      if (Text.pieces ',' value).any Text.isBlank then .error (.empty key)
      else .ok (Text.listedItems ',' value) := by
  rw [parseAccountFilterList, h]
  exact foldlM_addAccount _

/-- What is accepted, and as what. -/
theorem parseAccountFilterList_eq_ok_iff {value : String} {items : List String} :
    parseAccountFilterList key value = .ok items ↔
      (Text.isBlank value = true ∧ items = []) ∨
        (Text.isBlank value = false ∧
          (∀ piece ∈ Text.pieces ',' value, Text.isBlank piece = false) ∧
          items = Text.listedItems ',' value) := by
  cases hblank : Text.isBlank value with
  | true =>
      rw [parseAccountFilterList_of_blank hblank, Except.ok.injEq, eq_comm (b := items)]
      simp
  | false =>
      rw [parseAccountFilterList_of_not_blank hblank, check_eq_ok_iff, Except.ok.injEq,
        eq_comm (b := items)]
      simp

theorem ensures_parseAccountFilterList (value : String) :
    Ensures (parseAccountFilterList key value) (Text.IsItemList ',') := by
  intro items hok
  rcases parseAccountFilterList_eq_ok_iff.mp hok with ⟨-, rfl⟩ | ⟨-, hpieces, rfl⟩
  · exact ⟨List.nodup_nil, nofun⟩
  · exact Text.isItemList_listedItems hpieces

/-- A list that is written down is read back. -/
theorem parseAccountFilterList_of_writtenAs {items raws : List String}
    (hitems : Text.IsItemList ',' items) (h : Text.WrittenAs items raws) :
    parseAccountFilterList key (",".intercalate raws) = .ok items := by
  have hspace : Text.isWhitespace ',' = false := by decide
  have hcomma : "," = String.singleton ',' := by decide
  rw [parseAccountFilterList_eq_ok_iff, hcomma]
  by_cases hne : raws = []
  · rw [hne, h.eq_nil hne]
    exact .inl ⟨by decide, rfl⟩
  · right
    refine ⟨h.not_isBlank_text hspace hitems hne, fun piece hpiece => ?_,
      (h.listedItems_eq hspace hitems hne).symm⟩
    rw [h.pieces_eq hspace hitems hne] at hpiece
    exact h.not_isBlank hitems hpiece

theorem ensures_envAccountFilterList {source : ConfigSource} :
    Ensures (envAccountFilterList source key) (Text.IsItemList ',') := by
  refine .bind .trivial fun value _ => ?_
  split
  · exact ensures_parseAccountFilterList _
  · exact .ok ⟨List.nodup_nil, nofun⟩

end Parser

/-- A filter list is accepted if it is blank or none of its pieces is; what is accepted are the
trimmed pieces, each where it occurs first; and every list is read back from its texts. -/
theorem parseAccountFilterList_exact (key : String) :
    (∀ value, (∃ items, parseAccountFilterList key value = .ok items) ↔
      Text.isBlank value = true ∨ ∀ piece ∈ Text.pieces ',' value, Text.isBlank piece = false) ∧
    (∀ value items, parseAccountFilterList key value = .ok items →
      items = (if Text.isBlank value then []
        else ((Text.pieces ',' value).map Text.trim).eraseDups) ∧ Text.IsItemList ',' items) ∧
    ∀ items raws, Text.IsItemList ',' items → Text.WrittenAs items raws →
      parseAccountFilterList key (",".intercalate raws) = .ok items := by
  refine ⟨fun value => ?_, fun value items hok => ?_, fun items raws hitems h => ?_⟩
  · simp only [parseAccountFilterList_eq_ok_iff, exists_or, exists_and_left, exists_eq, and_true]
    cases Text.isBlank value <;> simp
  · refine ⟨?_, ensures_parseAccountFilterList value items hok⟩
    rcases parseAccountFilterList_eq_ok_iff.mp hok with ⟨hblank, rfl⟩ | ⟨hblank, -, rfl⟩
    · rw [if_pos hblank]
    · rw [hblank]
      rfl
  · exact parseAccountFilterList_of_writtenAs hitems h

/-! ## The filters of a configuration -/

namespace Config

structure FiltersAreLists (config : Config) : Prop where
  accountInclude : Text.IsItemList ',' config.yellowstoneTransactionAccountInclude
  accountExclude : Text.IsItemList ',' config.yellowstoneTransactionAccountExclude
  accountRequired : Text.IsItemList ',' config.yellowstoneTransactionAccountRequired

theorem ensures_filters_fromSource (source : ConfigSource) :
    Ensures (fromSource source) FiltersAreLists := by
  refine .bind .trivial fun _ _ => .bind .trivial fun _ _ => .bind .trivial fun _ _ => ?_
  refine .bind .trivial fun _ _ => .bind .trivial fun _ _ => .bind .trivial fun _ _ => ?_
  refine .bind .trivial fun _ _ => .bind .trivial fun _ _ => .bind .trivial fun _ _ => ?_
  refine .bind .trivial fun _ _ => .bind .trivial fun _ _ => .bind .trivial fun _ _ => ?_
  refine .bind .trivial fun _ _ => ?_
  refine .bind ensures_envAccountFilterList fun accountInclude hinclude => ?_
  refine .bind ensures_envAccountFilterList fun accountExclude hexclude => ?_
  refine .bind ensures_envAccountFilterList fun accountRequired hrequired => ?_
  exact .bind .trivial fun _ _ => .ok ⟨hinclude, hexclude, hrequired⟩

theorem filters_kept : KeptByOverrides FiltersAreLists where
  runMode _ h := { h with }
  httpAddr _ h := { h with }
  replayPath _ h := { h with }
  streamName _ h := { h with }
  endpoint _ h := { h with }
  cluster _ h := { h with }
  subscriptions _ h := { h with }
  accountInclude hparsed h := { h with
    accountInclude := ensures_parseAccountFilterList _ _ hparsed }
  accountExclude hparsed h := { h with
    accountExclude := ensures_parseAccountFilterList _ _ hparsed }
  accountRequired hparsed h := { h with
    accountRequired := ensures_parseAccountFilterList _ _ hparsed }
  initialDelay _ h := { h with }
  maxDelay _ h := { h with }
  maxRetries _ h := { h with }
  exitAfterReplay h := { h with }

/-- From the environment and the command line alike. -/
theorem filters_of_loaded {source : ConfigSource} {args : CliArgs} {config final : Config}
    (hsource : fromSource source = .ok config) (hfinal : config.applyOverrides args = .ok final) :
    final.FiltersAreLists :=
  (filters_kept.applyOverrides (ensures_filters_fromSource source config hsource) args final
    hfinal).1

end Config

end YellowstoneStream.App
