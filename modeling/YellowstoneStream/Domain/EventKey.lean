import Mathlib.Data.Set.Function
import YellowstoneStream.Domain.Event
import YellowstoneStream.Reasoning.Escaping

/-! The canonical key is an escaped record of named fields, hence injective. -/

open YellowstoneStream.Reasoning

namespace YellowstoneStream.Domain

/-- The symbols `escape_key_value` protects. -/
def keyScheme : EscapeScheme Char where
  special c := c == '\\' || c == '|' || c == '='
  mark := '\\'
  special_mark := rfl

/-- The three replacement passes amount to one escape pass: a later pass never touches the
backslashes an earlier one wrote. -/
theorem escapeKeyValue_toList (value : String) :
    (escapeKeyValue value).toList = keyScheme.escape value.toList := by
  simp only [escapeKeyValue, replaceChar, String.toList_ofList, EscapeScheme.escape]
  induction value.toList with
  | nil => rfl
  | cons c text ih =>
      simp only [List.flatMap_cons, List.flatMap_append, ih]
      congr 1
      by_cases hb : c = '\\'
      · subst hb; decide
      · by_cases hp : c = '|'
        · subst hp; decide
        · by_cases he : c = '='
          · subst he; decide
          · simp [keyScheme, hb, hp, he]

theorem escape_repr (n : Nat) : keyScheme.escape n.repr.toList = n.repr.toList := by
  apply keyScheme.escape_eq_self
  intro c hc
  rw [Nat.toList_repr] at hc
  have hdigit := Nat.isDigit_of_mem_toDigits (by decide) (by decide) hc
  have hne : ∀ d : Char, d.isDigit = false → (c == d) = false := by
    intro d hd
    rw [beq_eq_false_iff_ne]
    rintro rfl
    exact absurd hdigit (by simp [hd])
  simp [keyScheme, hne '\\' rfl, hne '|' rfl, hne '=' rfl]

theorem repr_injective : Function.Injective Nat.repr := by
  intro a b h
  have hdigits := congrArg (fun s => Nat.ofDigitChars 10 s.toList 0) h
  simpa only [Nat.toList_repr, Nat.ofDigitChars_ten_toDigits] using hdigits

/-- `encode_optional` before escaping; the tags contain no special symbol. -/
def taggedOptional : Option String → String
  | some value => "some:" ++ value
  | none => "none"

/-- The record an identity is written as. -/
def EventIdentity.keyFields : EventIdentity → List (String × String)
  | .account cluster slotNo pubkey writeVersion txnSignature isStartup =>
      [("v", "1"), ("kind", "account"), ("cluster", cluster), ("slot", slotNo.repr),
        ("account", pubkey), ("write_version", writeVersion.repr),
        ("txn_signature", taggedOptional txnSignature), ("is_startup", toString isStartup)]
  | .block cluster slotNo blockhash =>
      [("v", "1"), ("kind", "block"), ("cluster", cluster), ("slot", slotNo.repr),
        ("blockhash", blockhash)]
  | .entry cluster slotNo index =>
      [("v", "1"), ("kind", "entry"), ("cluster", cluster), ("slot", slotNo.repr),
        ("index", index.repr)]
  | .instruction cluster slotNo signature transactionIndex instructionIndex innerInstructionIndex
      programId =>
      [("v", "1"), ("kind", "instruction"), ("cluster", cluster), ("slot", slotNo.repr),
        ("signature", signature), ("transaction_index", transactionIndex.repr),
        ("instruction_index", instructionIndex.repr),
        ("inner_instruction_index", encodeInnerIndex innerInstructionIndex),
        ("program_id", programId)]
  | .slot cluster slotNo status =>
      [("v", "1"), ("kind", "slot"), ("cluster", cluster), ("slot", slotNo.repr),
        ("status", status.asStr)]
  | .transaction cluster slotNo signature index =>
      [("v", "1"), ("kind", "transaction"), ("cluster", cluster), ("slot", slotNo.repr),
        ("signature", signature), ("index", index.repr)]

theorem encodeOptional_toList (value : Option String) :
    (encodeOptional value).toList = keyScheme.escape (taggedOptional value).toList := by
  cases value with
  | none => decide
  | some value =>
      rw [encodeOptional, taggedOptional, String.toList_append, String.toList_append,
        EscapeScheme.escape_append, escapeKeyValue_toList]
      rfl

theorem escape_encodeInnerIndex (index : Option Nat) :
    keyScheme.escape (encodeInnerIndex index).toList = (encodeInnerIndex index).toList := by
  cases index with
  | none => decide
  | some index => exact escape_repr index

theorem eventIdentityVersion_repr : eventIdentityVersion.repr = "1" := rfl

theorem canonicalKey_toList (identity : EventIdentity) :
    '|' :: identity.canonicalKey.toList =
      keyScheme.encodeFields '|' '='
        (identity.keyFields.map fun field => (field.1.toList, field.2.toList)) := by
  -- the texts between two fields are read off as characters
  cases identity <;> unfold EventIdentity.canonicalKey EventIdentity.keyFields <;>
    simp only [String.toList_append, List.map_cons, List.map_nil, List.append_assoc,
      EscapeScheme.encodeFields_cons, EscapeScheme.encodeFields_nil, List.append_nil,
      escapeKeyValue_toList, escape_repr, escape_encodeInnerIndex, encodeOptional_toList,
      eventIdentityVersion_repr, String.reduceToList]
  case account isStartup => cases isStartup <;> rfl
  case slot status => cases status <;> rfl
  all_goals rfl

theorem taggedOptional_injective : Function.Injective taggedOptional := by
  have htag : ∀ value, taggedOptional (some value) ≠ taggedOptional none := by
    intro value h
    have := congrArg (fun s => s.toList.head?) h
    simp [taggedOptional] at this
  intro a b h
  cases a <;> cases b
  · rfl
  · exact absurd h.symm (htag _)
  · exact absurd h (htag _)
  · simpa [taggedOptional] using h

theorem encodeInnerIndex_injective : Function.Injective encodeInnerIndex := by
  have htag : ∀ index, encodeInnerIndex (some index) ≠ encodeInnerIndex none := by
    intro index h
    -- no decimal number has the first symbol of `<none>`
    have hmem : '<' ∈ (Nat.repr index).toList := by
      rw [show Nat.repr index = "<none>" from h]
      decide
    rw [Nat.toList_repr] at hmem
    exact absurd (Nat.isDigit_of_mem_toDigits (by decide) (by decide) hmem) (by decide)
  intro a b h
  cases a <;> cases b
  · rfl
  · exact absurd h.symm (htag _)
  · exact absurd h (htag _)
  · exact congrArg some (repr_injective h)

theorem statusAsStr_injective : Function.Injective SlotStatus.asStr := by
  intro a b h
  revert h
  cases a <;> cases b <;> decide

theorem boolToString_injective : Function.Injective (toString : Bool → String) := by
  intro a b h
  revert h
  cases a <;> cases b <;> decide

theorem kindAsStr_injective : Function.Injective EventKind.asStr := by
  intro a b h
  revert h
  cases a <;> cases b <;> decide

theorem keyFields_kind (identity : EventIdentity) :
    identity.keyFields.lookup "kind" = some identity.kind.asStr := by
  cases identity <;> rfl

theorem keyFields_injective : Function.Injective EventIdentity.keyFields := by
  intro a b h
  have hkind : a.kind = b.kind := by
    apply kindAsStr_injective
    rw [← Option.some_inj, ← keyFields_kind, ← keyFields_kind, h]
  -- the kind field rules out two different constructors; the others are compared field by field
  cases a <;> cases b <;> try cases hkind
  all_goals
    simp only [EventIdentity.keyFields, List.cons.injEq, Prod.mk.injEq, true_and, and_true,
      repr_injective.eq_iff, taggedOptional_injective.eq_iff, encodeInnerIndex_injective.eq_iff,
      statusAsStr_injective.eq_iff, boolToString_injective.eq_iff] at h
    simpa only [EventIdentity.account.injEq, EventIdentity.block.injEq, EventIdentity.entry.injEq,
      EventIdentity.instruction.injEq, EventIdentity.slot.injEq, EventIdentity.transaction.injEq]
      using h

theorem canonicalKey_injective : Function.Injective EventIdentity.canonicalKey := by
  intro a b h
  -- with one more delimiter in front, each key is a record of its fields
  have hrecord := canonicalKey_toList a
  rw [h, canonicalKey_toList b] at hrecord
  have hseparator : keyScheme.IsDelimiter '|' := ⟨rfl, by decide⟩
  have hassign : keyScheme.IsDelimiter '=' := ⟨rfl, by decide⟩
  have hfields := keyScheme.encodeFields_injective hseparator hassign hrecord
  have htext : Function.Injective
      fun field : String × String => (field.1.toList, field.2.toList) := by
    intro f g hfg
    exact Prod.ext (String.toList_inj.mp (Prod.mk.inj hfg).1)
      (String.toList_inj.mp (Prod.mk.inj hfg).2)
  exact keyFields_injective (htext.list_map hfields).symm

def EventIdentity.digest (hasher : Hasher) (identity : EventIdentity) : List UInt8 :=
  hasher.sha256 identity.canonicalKey.toUTF8

/-- What the event ids rely on: no two of the given identities have keys on which SHA-256
collides, and the hex text of their digests tells the digests apart. -/
structure Hasher.CollisionFree (hasher : Hasher) (identities : Set EventIdentity) : Prop where
  sha256 : ∀ a ∈ identities, ∀ b ∈ identities,
    a.digest hasher = b.digest hasher → a.canonicalKey = b.canonicalKey
  hexEncode : Set.InjOn hasher.hexEncode (EventIdentity.digest hasher '' identities)

theorem Hasher.CollisionFree.eventId_injOn {hasher : Hasher} {identities : Set EventIdentity}
    (h : hasher.CollisionFree identities) :
    Set.InjOn (EventIdentity.eventId hasher) identities := by
  intro a ha b hb hid
  have htext : hasher.hexEncode (a.digest hasher) = hasher.hexEncode (b.digest hasher) := by
    simpa [EventIdentity.eventId, EventIdentity.digest] using hid
  have hdigest := h.hexEncode ⟨a, ha, rfl⟩ ⟨b, hb, rfl⟩ htext
  exact canonicalKey_injective (h.sha256 a ha b hb hdigest)

theorem getD_map_null_injective {α : Type} {f : α → Value} (hf : Function.Injective f)
    (hnull : ∀ a, f a ≠ .null) : Function.Injective fun o : Option α => (o.map f).getD .null := by
  intro a b h
  cases a <;> cases b
  · rfl
  · exact absurd h.symm (hnull _)
  · exact absurd h (hnull _)
  · exact congrArg some (hf h)

/-- A stored identity can be read back. -/
theorem toValue_injective : Function.Injective EventIdentity.toValue := by
  have hsignature := getD_map_null_injective (f := Value.string) (fun _ _ h => Value.string.inj h)
    (fun _ h => nomatch h)
  have hindex := getD_map_null_injective (f := fun n => Value.number (.posInt n))
    (fun _ _ h => Number.posInt.inj (Value.number.inj h)) (fun _ h => nomatch h)
  intro a b h
  cases a <;> cases b <;>
    simp only [EventIdentity.toValue, Value.object.injEq, List.cons.injEq, Prod.mk.injEq,
      Value.string.injEq, Value.number.injEq, Number.posInt.injEq, Value.bool.injEq,
      statusAsStr_injective.eq_iff, true_and, and_true, String.reduceEq, false_and, and_false,
      hsignature.eq_iff, hindex.eq_iff] at h
  all_goals
    simpa only [EventIdentity.account.injEq, EventIdentity.block.injEq, EventIdentity.entry.injEq,
      EventIdentity.instruction.injEq, EventIdentity.slot.injEq, EventIdentity.transaction.injEq]
      using h

end YellowstoneStream.Domain
