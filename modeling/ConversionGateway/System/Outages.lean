import ConversionGateway.Model.MockServer
import ConversionGateway.System.BatchOutcomes

/-! # Outages

One batch against a platform that fails a number of times. An outage that the attempts
outlast leaves a row of the platform and an UPLOADED event for each row of the batch;
one that ends after either of the two ceilings leaves dead letters and nothing on the
platform.
-/
namespace ConversionGateway
open EventStatus

namespace MockServer
variable (rt : Runtime) (repr : Json → String) (conversions : List Json)

/-- One call of the client, with nobody else between its arrival and its answer. -/
def call (s : MockServer) : MockServer × Except PyError UploadOutcome :=
  let answered := s.arrive.2.respond rt s.arrive.1 (.value (uploadRequest conversions))
  (answered.1,httpUpload repr (fun _ => answered.2) conversions)

/-- The platform after a number of calls. -/
def calls (s : MockServer) : ℕ → MockServer
  | 0 => s
  | j + 1 => ((s.calls j).call rt repr conversions).1

/-- The platform `j` requests later, with its control set for `m` more. -/
def later (s : MockServer) (m : ℤ) (j : ℕ) : MockServer :=
  { s with control := { s.control with times := some m }, requestCount := s.requestCount + j }

end MockServer

/-- What the client calls the failures of a mode, where it tries again. -/
def MockMode.reason : MockMode → Option String
  | http429 => some "http_429"
  | http500 => some "http_500"
  | http503 => some "http_503"
  | malformed => some "malformed_response"
  | ok | http401 | timeout => none

/-! ## One call -/

section Call
variable {rt : Runtime} {repr : Json → String} {s : MockServer} {conversions : List Json} {r : String}

end Call

/-! ## The calls of an outage -/

section Calls
variable {rt : Runtime} {repr : Json → String} {s : MockServer} {conversions : List Json} {r : String} {n : ℕ}

end Calls

/-! ## The batch -/

section Batch
variable {rt : Runtime} {policy : RetryPolicy} {env : UploadEnv} {batch : List Claimed} {r : String}

/-- The entries of a number of retries for one reason. -/
def retryPairs (r : String) (k : ℕ) : List TrailEntry := (List.replicate k (retryPair r)).flatten

theorem retryEntries_failing (attempt k : ℕ)
    (h : ∀ j, attempt ≤ j → j < attempt + k → env.outcome j = .transient r) :
    retryEntries env attempt k = retryPairs r k := by
  induction k generalizing attempt with
  | zero => rfl
  | succ k ih =>
    have hrest := ih (attempt + 1) fun j h₁ h₂ => h j (by omega) (by omega)
    rw [retryEntries, h attempt le_rfl (by omega), hrest, retryPairs, retryPairs, List.replicate_succ,
      List.flatten_cons]

/-- The record of a batch that is given up can be stored; the number of attempts has to
fit into its reason. -/
theorem poisonFailure_fits {mode : MockMode} (hr : mode.reason = some r) {k : ℕ} (hk : k < 10 ^ 200) :
    (poisonFailure r k).Fits := by
  have hshort : r.length ≤ 18 ∧ varchar 128 r = true ∧ Char.ofNat 0 ∉ r.toList := by
    cases mode <;> cases hr <;> decide
  have hlen : (toString k).length ≤ 200 := (Nat.length_repr_le_iff (by decide)).mpr hk
  have hdigits : Char.ofNat 0 ∉ (toString k).toList := by
    intro hmem
    have hdigit : (Char.ofNat 0).isDigit = true := by
      refine Nat.isDigit_of_mem_toDigits (b := 10) (n := k) (by decide) (by decide) ?_
      rwa [← Nat.toList_repr]
    exact absurd hdigit (by decide)
  have hmessage : ∀ m ∈ cutMessage (some (poisonFailure r k).errorMessage), Char.ofNat 0 ∉ m.toList := by
    intro m hm
    unfold cutMessage at hm
    dsimp only at hm
    split at hm
    · cases hm
    · obtain rfl := Option.some.inj hm
      intro hmem
      have hmem := Text.mem_truncate hmem
      simp only [poisonFailure, Option.getD_some, String.toList_append, List.mem_append] at hmem
      rcases hmem with ((hmem | hmem) | hmem) | hmem
      · exact absurd hmem (by decide)
      · exact hdigits hmem
      · exact absurd hmem (by decide)
      · exact hshort.2.2 hmem
  refine ⟨varchar_iff.mpr ⟨?_,?_⟩,hshort.2.1,cutMessage_fits.mpr hmessage⟩
  · simp only [poisonFailure, String.length_append]
    have h₁ : ("poison:" : String).length = 7 := by decide
    have h₂ : (":after_" : String).length = 7 := by decide
    have h₃ : ("_attempts" : String).length = 9 := by decide
    omega
  · simp only [poisonFailure, String.toList_append, List.mem_append, not_or]
    exact ⟨⟨⟨⟨by decide,hshort.2.2⟩,by decide⟩,hdigits⟩,by decide⟩

/-- What the client meets: `n` calls fail for one reason, and then all rows are taken. -/
structure Outage (env : UploadEnv) (batch : List Claimed) (r : String) (n : ℕ) (rows : List RowResult) : Prop where
  during : ∀ j, 1 ≤ j → j ≤ n → env.outcome j = .transient r
  after : env.outcome (n + 1) = .result rows
  length : rows.length = batch.length
  taken : ∀ row ∈ rows, row.ok = true

section Outage
variable {n : ℕ} {rows : List RowResult} {db out : Ledger} {calls : List (List Json)} {report : CycleReport}

theorem Outage.settled (hout : Outage env batch r n rows) {row : RowResult} (hrow : row ∈ rows) :
    row.status ≠ deadLettered := by
  simp [RowResult.status,hout.taken row hrow]

/-- No attempt takes place after the one that is answered. -/
theorem Outage.reaches (hout : Outage env batch r n rows) {j : ℕ} (hj : policy.Reaches env j) : j ≤ n ∨ j = n + 1 := by
  by_contra hno
  obtain ⟨reason,hfails,_⟩ := hj.2.2 (n + 1) (by omega) (by omega)
  rw [hout.after] at hfails
  cases hfails

theorem Outage.storable (hout : Outage env batch r n rows) {mode : MockMode} (hreason : mode.reason = some r)
    (hA : policy.maxAttempts < 10 ^ 200) {j : ℕ} (hj : policy.Reaches env j) : policy.Storable env j := by
  unfold RetryPolicy.Storable
  rcases hout.reaches hj with hn | rfl
  · rw [hout.during j hj.1 hn]
    dsimp only
    split
    · cases mode <;> cases hreason <;> decide
    · exact poisonFailure_fits hreason (lt_of_le_of_lt hj.2.1 hA)
  · rw [hout.after]
    exact fun row hrow hd => absurd hd (hout.settled hrow)

theorem Outage.entries (hout : Outage env batch r n rows) {k : ℕ} (hk : k ≤ n) :
    retryEntries env 1 k = retryPairs r k :=
  retryEntries_failing _ _ fun j h₁ h₂ => hout.during j h₁ (by omega)

end Outage

end Batch

/-! ## An outage of one request -/

end ConversionGateway
