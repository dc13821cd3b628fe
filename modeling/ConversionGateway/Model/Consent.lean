import Mathlib.Logic.Basic

/-! # The consent gate

A pure function of the two signals that fails closed: anything but two explicit
grants blocks the upload and says which signal blocked it.
-/
namespace ConversionGateway

inductive ConsentStatus
  | granted | denied | unspecified
deriving DecidableEq, Repr

def ConsentStatus.value : ConsentStatus → String
  | .granted => "GRANTED"
  | .denied => "DENIED"
  | .unspecified => "UNSPECIFIED"

inductive SuppressionReason
  | adUserDataDenied | adUserDataUnspecified | adUserDataMissing
  | adPersonalizationDenied | adPersonalizationUnspecified | adPersonalizationMissing
deriving DecidableEq, Repr

def SuppressionReason.value : SuppressionReason → String
  | .adUserDataDenied => "ad_user_data_denied"
  | .adUserDataUnspecified => "ad_user_data_unspecified"
  | .adUserDataMissing => "ad_user_data_missing"
  | .adPersonalizationDenied => "ad_personalization_denied"
  | .adPersonalizationUnspecified => "ad_personalization_unspecified"
  | .adPersonalizationMissing => "ad_personalization_missing"

/-- `none` is a signal that was absent from the payload. -/
structure ConsentSignals where
  adUserData : Option ConsentStatus
  adPersonalization : Option ConsentStatus
deriving DecidableEq, Repr

structure ConsentDecision where
  permitted : Bool
  reason : Option SuppressionReason
deriving DecidableEq, Repr

def blockingReason (status : Option ConsentStatus) (denied unspecified missing : SuppressionReason) :
    Option SuppressionReason :=
  match status with
  | some .granted => none
  | none => some missing
  | some .denied => some denied
  | some .unspecified => some unspecified

def evaluateConsent (signals : ConsentSignals) : ConsentDecision :=
  match blockingReason signals.adUserData .adUserDataDenied .adUserDataUnspecified .adUserDataMissing with
  | some reason => ⟨false,some reason⟩
  | none =>
    match blockingReason signals.adPersonalization .adPersonalizationDenied
        .adPersonalizationUnspecified .adPersonalizationMissing with
    | some reason => ⟨false,some reason⟩
    | none => ⟨true,none⟩

/-- Both signals are explicit grants. -/
def ConsentSignals.Granted (s : ConsentSignals) : Prop :=
  s.adUserData = some .granted ∧ s.adPersonalization = some .granted

instance (s : ConsentSignals) : Decidable s.Granted := inferInstanceAs (Decidable (_ ∧ _))

theorem blockingReason_eq_none {status : Option ConsentStatus} {d u m : SuppressionReason} :
    blockingReason status d u m = none ↔ status = some .granted := by
  rcases status with _ | s
  · simp [blockingReason]
  · cases s <;> simp [blockingReason]

/-- The gate opens for two explicit grants and for nothing else. -/
theorem evaluateConsent_permitted {s : ConsentSignals} :
    (evaluateConsent s).permitted = true ↔ s.Granted := by
  unfold evaluateConsent ConsentSignals.Granted
  rw [← blockingReason_eq_none (d := .adUserDataDenied) (u := .adUserDataUnspecified)
    (m := .adUserDataMissing), ← blockingReason_eq_none (d := .adPersonalizationDenied)
    (u := .adPersonalizationUnspecified) (m := .adPersonalizationMissing)]
  split
  · next reason h => simp [h]
  · next h =>
    split
    · next reason h' => simp [h']
    · next h' => simp [h,h']

/-- A closed gate always names the signal that closed it. -/
theorem evaluateConsent_reason {s : ConsentSignals} (h : (evaluateConsent s).permitted = false) :
    ∃ reason, (evaluateConsent s).reason = some reason := by
  unfold evaluateConsent at h ⊢
  split
  · exact ⟨_,rfl⟩
  · next hu =>
    simp only [hu] at h
    split
    · exact ⟨_,rfl⟩
    · next hp => simp [hp] at h

end ConversionGateway
