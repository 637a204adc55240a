import YellowstoneStream.Domain.Event
import YellowstoneStream.Reasoning.Ensures
import YellowstoneStream.Reasoning.Text

/-! The check every identity passes before its event is built. -/

open YellowstoneStream.Reasoning

namespace YellowstoneStream.Domain

inductive EventIdentityError where
  | emptyField (field : String)
  deriving DecidableEq, Repr

def EventIdentityError.display : EventIdentityError → String
  | .emptyField field => "event identity field " ++ field ++ " must not be empty"

def validateNonEmpty (field value : String) : Except EventIdentityError Unit :=
  if Text.isBlank value then .error (.emptyField field) else .ok ()

def EventIdentity.validate : EventIdentity → Except EventIdentityError Unit
  | .account cluster _ pubkey _ txnSignature _ => do
      validateNonEmpty "cluster" cluster
      validateNonEmpty "account" pubkey
      match txnSignature with
      | some signature => validateNonEmpty "txn_signature" signature
      | none => pure ()
  | .block cluster _ blockhash => do
      validateNonEmpty "cluster" cluster
      validateNonEmpty "blockhash" blockhash
  | .entry cluster .. | .slot cluster .. => validateNonEmpty "cluster" cluster
  | .instruction cluster _ signature _ _ _ programId => do
      validateNonEmpty "cluster" cluster
      validateNonEmpty "signature" signature
      validateNonEmpty "program_id" programId
  | .transaction cluster _ signature _ => do
      validateNonEmpty "cluster" cluster
      validateNonEmpty "signature" signature

/-- The text fields an identity cannot do without, by name. -/
def EventIdentity.textFields : EventIdentity → List (String × String)
  | .account cluster _ pubkey _ txnSignature _ =>
      [("cluster", cluster), ("account", pubkey)] ++
        txnSignature.toList.map fun signature => ("txn_signature", signature)
  | .block cluster _ blockhash => [("cluster", cluster), ("blockhash", blockhash)]
  | .entry cluster .. | .slot cluster .. => [("cluster", cluster)]
  | .instruction cluster _ signature _ _ _ programId =>
      [("cluster", cluster), ("signature", signature), ("program_id", programId)]
  | .transaction cluster _ signature _ => [("cluster", cluster), ("signature", signature)]

theorem validateNonEmpty_ok_iff {field value : String} :
    validateNonEmpty field value = .ok () ↔ Text.isBlank value = false := by
  rw [validateNonEmpty, check_eq_ok_iff, Bool.not_eq_true]
  exact and_iff_left rfl

/-- The checks of an identity are those of its text fields, in order. -/
theorem EventIdentity.validate_eq (identity : EventIdentity) :
    identity.validate = forM identity.textFields fun field => validateNonEmpty field.1 field.2 := by
  have hlast : ∀ x : Except EventIdentityError Unit, (x >>= fun _ => pure ()) = x := by
    intro x
    cases x <;> rfl
  cases identity with
  | account cluster slotNo pubkey writeVersion txnSignature isStartup =>
      cases txnSignature with
      | none =>
          simp only [validate, textFields, Option.toList_none, List.map_nil, List.append_nil,
            List.forM_cons, List.forM_nil]
      | some signature =>
          simp only [validate, textFields, Option.toList_some, List.map_cons, List.map_nil,
            List.cons_append, List.nil_append, List.forM_cons, List.forM_nil, hlast]
  | block | entry | slot | instruction | transaction =>
      simp only [validate, textFields, List.forM_cons, List.forM_nil, hlast]

/-- An identity passes exactly when none of its text fields is blank. -/
theorem EventIdentity.validate_ok_iff (identity : EventIdentity) :
    identity.validate = .ok () ↔
      ∀ field ∈ identity.textFields, Text.isBlank field.2 = false := by
  rw [validate_eq, forM_eq_ok_iff]
  exact forall₂_congr fun field _ => validateNonEmpty_ok_iff

/-- A rejection names a field that is blank. -/
theorem EventIdentity.validate_error {identity : EventIdentity} {err : EventIdentityError}
    (h : identity.validate = .error err) :
    ∃ field ∈ identity.textFields, err = .emptyField field.1 ∧ Text.isBlank field.2 = true := by
  rw [validate_eq] at h
  obtain ⟨field, hfield, herr⟩ := exists_of_forM_eq_error h
  rw [validateNonEmpty] at herr
  split at herr
  · rename_i hblank
    cases herr
    exact ⟨field, hfield, rfl, hblank⟩
  · cases herr

end YellowstoneStream.Domain
