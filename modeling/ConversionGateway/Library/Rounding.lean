import Mathlib.Data.Nat.Log
import Mathlib.Algebra.Order.Ring.Abs
import Mathlib.Tactic.Ring

/-! # Rounding to nearest

Floating point with exact arithmetic on integers: a finite value is a whole number of
the smallest unit of its format, and a result is rounded to the nearest number with
few enough significant bits, to the even one of two.
-/
namespace Rounding

/-- The multiple of `d` nearest to `n`; of two, the one with the even quotient. -/
def nearest (d n : ℕ) : ℕ :=
  if 2 * (n % d) < d ∨ 2 * (n % d) = d ∧ n / d % 2 = 0 then n / d * d else (n / d + 1) * d

/-- The distance of a number from its neighbours among those with `p` significant bits. -/
def spacing (p n : ℕ) : ℕ := 2 ^ (n.log2 + 1 - p)

/-- The number has no more than `p` significant bits. -/
def Fits (p n : ℕ) : Prop := spacing p n ∣ n

instance (p n : ℕ) : Decidable (Fits p n) := inferInstanceAs (Decidable (_ ∣ _))

def round (p n : ℕ) : ℕ := nearest (spacing p n) n

section Nearest
variable {d n r : ℕ}

theorem nearest_eq_or (d n : ℕ) : nearest d n = n / d * d ∨ nearest d n = (n / d + 1) * d := by
  unfold nearest
  split
  · exact Or.inl rfl
  · exact Or.inr rfl

theorem nearest_of_dvd (hd : 0 < d) (h : d ∣ n) : nearest d n = n := by
  have hrem : n % d = 0 := Nat.mod_eq_zero_of_dvd h
  have hdown : 2 * (n % d) < d := by omega
  rw [nearest, if_pos (Or.inl hdown), Nat.div_mul_cancel h]

/-- Rounding does not pass a multiple from above. -/
theorem le_nearest (hd : 0 < d) (hr : d ∣ r) (h : r ≤ n) : r ≤ nearest d n := by
  obtain ⟨k,rfl⟩ := hr
  have hk : k ≤ n / d := by
    rw [Nat.le_div_iff_mul_le hd, Nat.mul_comm]
    exact h
  rw [Nat.mul_comm d k]
  rcases nearest_eq_or d n with heq | heq <;> rw [heq]
  · exact Nat.mul_le_mul_right d hk
  · exact Nat.mul_le_mul_right d (Nat.le_succ_of_le hk)

/-- Rounding does not pass a multiple from below. -/
theorem nearest_le (hd : 0 < d) (hr : d ∣ r) (h : n ≤ r) : nearest d n ≤ r := by
  by_cases hn : d ∣ n
  · rwa [nearest_of_dvd hd hn]
  · obtain ⟨k,rfl⟩ := hr
    have hk : n / d < k := by
      rw [Nat.div_lt_iff_lt_mul hd, Nat.mul_comm]
      refine lt_of_le_of_ne h ?_
      rintro rfl
      exact hn (Nat.dvd_mul_right d k)
    rw [Nat.mul_comm d k]
    rcases nearest_eq_or d n with heq | heq <;> rw [heq]
    · exact Nat.mul_le_mul_right d (Nat.le_of_lt hk)
    · exact Nat.mul_le_mul_right d hk

end Nearest

section Round
variable {p n r : ℕ}

theorem spacing_pos (p n : ℕ) : 0 < spacing p n := Nat.two_pow_pos _

theorem log2_mono {m n : ℕ} (h : m ≤ n) : m.log2 ≤ n.log2 := by
  rw [Nat.log2_eq_log_two, Nat.log2_eq_log_two]
  exact Nat.log_mono_right h

theorem spacing_dvd {m : ℕ} (h : n ≤ m) : spacing p n ∣ spacing p m := by
  refine pow_dvd_pow 2 ?_
  have hlog := log2_mono h
  omega

theorem spacing_dvd_two_pow (hp : 1 ≤ p) {k : ℕ} (h : n < 2 ^ (p + k)) : spacing p n ∣ 2 ^ k := by
  refine pow_dvd_pow 2 ?_
  by_cases hn : n = 0
  · subst hn
    simp
    omega
  · have hlog := (Nat.log2_lt hn).mpr h
    omega

/-- A multiple of a power of two with a small quotient. -/
theorem fits_mul_two_pow (hp : 1 ≤ p) {q : ℕ} (hq : q ≤ 2 ^ p) (k : ℕ) : Fits p (q * 2 ^ k) := by
  by_cases hz : q * 2 ^ k = 0
  · rw [hz]
    exact dvd_zero _
  rcases Nat.lt_or_eq_of_le hq with hlt | rfl
  · have hlog : (q * 2 ^ k).log2 < p + k := by
      rw [Nat.log2_lt hz, Nat.pow_add]
      exact Nat.mul_lt_mul_of_pos_right hlt (Nat.two_pow_pos k)
    have hle : (q * 2 ^ k).log2 + 1 - p ≤ k := by omega
    exact (pow_dvd_pow 2 hle).trans (Nat.dvd_mul_left _ q)
  · have hlog : (2 ^ p * 2 ^ k).log2 = p + k := by rw [← Nat.pow_add, Nat.log2_two_pow]
    unfold Fits spacing
    rw [hlog, ← Nat.pow_add]
    refine pow_dvd_pow 2 ?_
    omega

theorem fits_two_pow (hp : 1 ≤ p) (k : ℕ) : Fits p (2 ^ k) := by
  have hone : 1 ≤ 2 ^ p := Nat.two_pow_pos p
  simpa using fits_mul_two_pow hp hone k

theorem round_of_fits (h : Fits p n) : round p n = n := nearest_of_dvd (spacing_pos p n) h

/-- A number that fits is a bound from below for what is rounded. -/
theorem le_round (hp : 1 ≤ p) (hr : Fits p r) (h : r ≤ n) : r ≤ round p n := by
  rcases Nat.lt_or_eq_of_le (log2_mono h) with hlog | hlog
  · -- the power of two in between is a multiple of the spacing
    have hn : n ≠ 0 := by
      rintro rfl
      simp at hlog
    have hbelow : r ≤ 2 ^ n.log2 := (Nat.le_of_lt Nat.lt_log2_self).trans
      (Nat.pow_le_pow_right (by decide) hlog)
    have hdvd : spacing p n ∣ 2 ^ n.log2 := pow_dvd_pow 2 (by omega)
    exact hbelow.trans (le_nearest (spacing_pos p n) hdvd (Nat.log2_self_le hn))
  · have hdvd : spacing p n ∣ r := by
      have heq : spacing p r = spacing p n := by rw [spacing, hlog, spacing]
      exact heq ▸ hr
    exact le_nearest (spacing_pos p n) hdvd h

/-- A number that fits is a bound from above for what is rounded. -/
theorem round_le (hr : Fits p r) (h : n ≤ r) : round p n ≤ r :=
  nearest_le (spacing_pos p n) ((spacing_dvd h).trans hr) h

theorem lt_two_pow_mul_spacing (p n : ℕ) : n < 2 ^ p * spacing p n := by
  rw [spacing, ← Nat.pow_add]
  refine Nat.lt_of_lt_of_le Nat.lt_log2_self (Nat.pow_le_pow_right (by decide) ?_)
  omega

/-- What is rounded fits. -/
theorem fits_round (hp : 1 ≤ p) (n : ℕ) : Fits p (round p n) := by
  have hq : n / spacing p n < 2 ^ p :=
    (Nat.div_lt_iff_lt_mul (spacing_pos p n)).mpr (lt_two_pow_mul_spacing p n)
  rcases nearest_eq_or (spacing p n) n with heq | heq
  · rw [round, heq]
    exact fits_mul_two_pow hp (Nat.le_of_lt hq) _
  · rw [round, heq]
    exact fits_mul_two_pow hp hq _

@[simp] theorem round_zero (p : ℕ) : round p 0 = 0 := round_of_fits (dvd_zero _)

/-- From half a step below a power of two on, numbers are rounded to it or further. -/
theorem two_pow_le_round_iff (hp : 1 ≤ p) {k : ℕ} : 2 ^ (p + k + 1) ≤ round p n ↔ 2 ^ (p + k + 1) - 2 ^ k ≤ n := by
  have hstep : (2 ^ p - 1) * 2 ^ (k + 1) + 2 ^ (k + 1) = 2 ^ (p + k + 1) := by
    rw [← Nat.succ_mul, Nat.succ_eq_add_one, Nat.sub_add_cancel (Nat.two_pow_pos p), ← Nat.pow_add, Nat.add_assoc]
  have hdouble : 2 ^ (k + 1) = 2 * 2 ^ k := by rw [Nat.pow_succ, Nat.mul_comm]
  have hk : 0 < 2 ^ k := Nat.two_pow_pos k
  by_cases htop : 2 ^ (p + k + 1) ≤ n
  · have hround := le_round hp (fits_two_pow hp _) htop
    constructor <;> intro _ <;> omega
  by_cases hlow : n ≤ (2 ^ p - 1) * 2 ^ (k + 1)
  · have hround := round_le (fits_mul_two_pow hp (Nat.sub_le _ 1) (k + 1)) hlow
    constructor <;> intro _ <;> omega
  · -- between the last number that fits and the power of two the spacing is their distance
    have hhalf : 2 ^ (p + k) ≤ n := by
      have hpow : 2 ^ (p + k + 1) = 2 * 2 ^ (p + k) := by rw [Nat.pow_succ, Nat.mul_comm]
      have hle : 2 ^ (k + 1) ≤ 2 ^ (p + k) := Nat.pow_le_pow_right (by decide) (by omega)
      omega
    have hn : n ≠ 0 := by
      have hpos : 0 < 2 ^ (p + k) := Nat.two_pow_pos _
      omega
    have hlog : n.log2 = p + k := by
      have hge := (Nat.le_log2 hn).mpr hhalf
      have hlt := (Nat.log2_lt hn).mpr (Nat.lt_of_not_le htop)
      omega
    have hspacing : spacing p n = 2 ^ (k + 1) := by
      rw [spacing, hlog]
      congr 1
      omega
    have hquot : n / 2 ^ (k + 1) = 2 ^ p - 1 := by
      refine Nat.div_eq_of_lt_le (by omega) ?_
      rw [Nat.succ_mul]
      omega
    have hrem : n % 2 ^ (k + 1) = n - (2 ^ p - 1) * 2 ^ (k + 1) := by
      rw [Nat.mod_eq_sub_div_mul, hquot]
    have hodd : (2 ^ p - 1) % 2 = 1 := by
      obtain ⟨j,rfl⟩ : ∃ j, p = j + 1 := ⟨p - 1,by omega⟩
      have hpow : 2 ^ (j + 1) = 2 * 2 ^ j := by rw [Nat.pow_succ, Nat.mul_comm]
      have hpos : 0 < 2 ^ j := Nat.two_pow_pos j
      omega
    have hup : (2 ^ p - 1 + 1) * 2 ^ (k + 1) = 2 ^ (p + k + 1) := by
      rw [Nat.add_mul, Nat.one_mul, hstep]
    rw [round, hspacing, nearest, hquot, hrem, hup]
    split
    · next hdown => constructor <;> intro _ <;> omega
    · next hdown => constructor <;> intro _ <;> omega

end Round
end Rounding
