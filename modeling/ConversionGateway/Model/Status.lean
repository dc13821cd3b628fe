import Mathlib.Data.List.Basic

/-! # Event lifecycle

The state machine as data. `allowedTransitions` is the table that `transition`
consults; the reclaim of a stale row is not in it because it is not a change of
state.
-/
namespace ConversionGateway

inductive EventStatus
  | received | validated | rejected | queued | suppressed
  | processed | uploading | uploaded | failedRetryable | deadLettered
deriving DecidableEq, Repr

namespace EventStatus

def value : EventStatus → String
  | received => "RECEIVED"
  | validated => "VALIDATED"
  | rejected => "REJECTED"
  | queued => "QUEUED"
  | suppressed => "SUPPRESSED"
  | processed => "PROCESSED"
  | uploading => "UPLOADING"
  | uploaded => "UPLOADED"
  | failedRetryable => "FAILED_RETRYABLE"
  | deadLettered => "DEAD_LETTERED"

/-- `ALLOWED_TRANSITIONS` -/
def allowedTransitions : EventStatus → List EventStatus
  | received => [validated,rejected]
  | validated => [queued]
  | queued => [processed,suppressed,rejected]
  | suppressed => [queued]
  | processed => [uploading]
  | uploading => [uploaded,failedRetryable,deadLettered]
  | failedRetryable => [uploading,deadLettered]
  | deadLettered => [queued]
  | uploaded => []
  | rejected => []

/-- A status that no transition leaves. -/
def Terminal (s : EventStatus) : Prop := s.allowedTransitions = []

instance (s : EventStatus) : Decidable s.Terminal := inferInstanceAs (Decidable (_ = _))

theorem terminal_iff (s : EventStatus) : s.Terminal ↔ s = uploaded ∨ s = rejected := by
  cases s <;> simp [Terminal, allowedTransitions]

/-- The states a row can only be in after the worker has processed it. -/
def Sendable (s : EventStatus) : Prop :=
  s ∈ [processed,uploading,uploaded,failedRetryable,deadLettered]

instance (s : EventStatus) : Decidable s.Sendable := inferInstanceAs (Decidable (_ ∈ _))

/-- The states a row can only be in after an uploader has claimed it. -/
def Attempted (s : EventStatus) : Prop := s ∈ [uploading,uploaded,failedRetryable,deadLettered]

instance (s : EventStatus) : Decidable s.Attempted := inferInstanceAs (Decidable (_ ∈ _))

theorem not_allowed_self (s : EventStatus) : s ∉ s.allowedTransitions := by
  cases s <;> simp [allowedTransitions]

/-- Only processing makes a row sendable that was not. -/
theorem sendable_of_allowed {s t : EventStatus} (h : t ∈ s.allowedTransitions) (ht : t.Sendable)
    (hp : t ≠ processed) : s.Sendable := by
  cases s <;> cases t <;> simp_all [allowedTransitions, Sendable]

end EventStatus

inductive Source
  | salesforce | hubspot
deriving DecidableEq, Repr

def Source.value : Source → String
  | .salesforce => "salesforce"
  | .hubspot => "hubspot"

inductive MatchKeyType
  | clickId | userIdentifiers
deriving DecidableEq, Repr

inductive FailureClass
  | transient | partialFailure | permanent | poison
deriving DecidableEq, Repr

def FailureClass.value : FailureClass → String
  | .transient => "transient"
  | .partialFailure => "partial"
  | .permanent => "permanent"
  | .poison => "poison"

end ConversionGateway
