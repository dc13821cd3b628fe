import ConversionGateway.Library.Rounding

/-! # Finite doubles

The finite values of the binary64 format, in units of the smallest of them. Every
operation is the exact one, rounded; a result out of range is infinite.
-/

namespace Binary64

/-- The units in the number one: the smallest double is `2 ^ -1074`. -/
def one : ℕ := 2 ^ 1074

/-- The first number of units that is out of range, for `2 ^ 1024`. -/
def limit : ℕ := 2 ^ 2098

end Binary64

/-- A finite double. -/
structure Binary64 where
  units : ℤ
  fits : Rounding.Fits 53 units.natAbs
  bounded : units.natAbs < Binary64.limit

namespace Binary64

/-- The units of an integer. -/
def scaled (n : ℤ) : ℤ := n * one

theorem natAbs_sign_mul_round (u : ℤ) :
    (u.sign * (Rounding.round 53 u.natAbs : ℤ)).natAbs = Rounding.round 53 u.natAbs := by
  by_cases hu : u = 0
  · subst hu
    simp
  · rw [Int.natAbs_mul, Int.natAbs_sign_of_ne_zero hu, Int.natAbs_natCast, Nat.one_mul]

/-- The double nearest to a number of units; `none` is an overflow. -/
def ofUnits (u : ℤ) : Option Binary64 :=
  if h : Rounding.round 53 u.natAbs < limit then
    some ⟨u.sign * Rounding.round 53 u.natAbs,by
      rw [natAbs_sign_mul_round]
      exact Rounding.fits_round (by decide) _,by rwa [natAbs_sign_mul_round]⟩
  else none

/-- The double nearest to an integer. -/
def ofInt (n : ℤ) : Option Binary64 := ofUnits (scaled n)

/-- `a - b`; `none` is an infinity. -/
def sub (a b : Binary64) : Option Binary64 := ofUnits (a.units - b.units)

/-- `abs(x) > t` for a double that may be infinite and an integer, which are compared exactly. -/
def absExceeds (x : Option Binary64) (t : ℤ) : Bool :=
  match x with
  | none => true
  | some x => scaled t < |x.units|

section Units
variable {n : ℤ}

theorem natAbs_scaled (n : ℤ) : (scaled n).natAbs = n.natAbs * one := by
  rw [scaled, Int.natAbs_mul, Int.natAbs_natCast]

theorem fits_mul_one {q : ℕ} (hq : q ≤ 2 ^ 53) : Rounding.Fits 53 (q * one) :=
  Rounding.fits_mul_two_pow (by decide) hq 1074

theorem two_pow_mul_one : 2 ^ 52 * one = 2 ^ (53 + 1073) := by
  rw [one, ← Nat.pow_add]

theorem two_pow_dvd_one : 2 ^ 1073 ∣ one := pow_dvd_pow 2 (by decide)

/-- The doubles from `2 ^ 1024` on are missing, and what is half a step below goes there. -/
theorem limit_le_round_iff {m : ℕ} : limit ≤ Rounding.round 53 (m * one) ↔ 2 ^ 1024 - 2 ^ 970 ≤ m := by
  have htop : (2 : ℕ) ^ (53 + 2044 + 1) - 2 ^ 2044 = (2 ^ 1024 - 2 ^ 970) * 2 ^ 1074 := by
    rw [Nat.sub_mul, ← Nat.pow_add, ← Nat.pow_add]
  have hiff := Rounding.two_pow_le_round_iff (p := 53) (n := m * 2 ^ 1074) (by decide) (k := 2044)
  unfold limit one
  refine hiff.trans ?_
  rw [htop]
  exact Nat.mul_le_mul_right_iff (Nat.two_pow_pos 1074)

end Units

section Facts
variable {a x y : Binary64} {u n t : ℤ}

theorem ofUnits_some (h : ofUnits u = some x) : x.units.natAbs = Rounding.round 53 u.natAbs := by
  unfold ofUnits at h
  split at h
  · cases h
    exact natAbs_sign_mul_round u
  · cases h

theorem ofUnits_of_fits (hu : Rounding.Fits 53 u.natAbs) (h : ofUnits u = some x) : x.units = u := by
  unfold ofUnits at h
  split at h
  · cases h
    show u.sign * (Rounding.round 53 u.natAbs : ℤ) = u
    rw [Rounding.round_of_fits hu, Int.sign_mul_natAbs]
  · cases h

theorem ofUnits_eq_none_iff : ofUnits u = none ↔ limit ≤ Rounding.round 53 u.natAbs := by
  unfold ofUnits
  split
  · next h => simpa using h
  · next h => simpa using h

/-- An integer is too large for a double from half a step below `2 ^ 1024` on. -/
theorem ofInt_eq_none_iff : ofInt n = none ↔ 2 ^ 1024 - 2 ^ 970 ≤ n.natAbs := by
  rw [ofInt, ofUnits_eq_none_iff, natAbs_scaled]
  exact limit_le_round_iff

/-- What does not exceed an integer is finite. -/
theorem not_absExceeds {x : Option Binary64} (h : absExceeds x t = false) :
    ∃ d, x = some d ∧ (d.units.natAbs : ℤ) ≤ scaled t := by
  cases x with
  | none => cases h
  | some d =>
    refine ⟨d,rfl,?_⟩
    rw [← Int.abs_eq_natAbs]
    simpa [absExceeds] using h

/-- A number of units beyond one that fits is rounded no further than to it. -/
theorem le_of_fits {r : ℕ} (hr : Rounding.Fits 53 r) (h : r ≤ u.natAbs) (hx : ofUnits u = some x) :
    r ≤ x.units.natAbs := by
  rw [ofUnits_some hx]
  exact Rounding.le_round (by decide) hr h

/-- The difference to an integer is exact unless it is larger than the double itself. -/
theorem sub_scaled_fits (ha : a.units.natAbs < 2 ^ 52 * one) :
    Rounding.Fits 53 (a.units - scaled n).natAbs ∨
      ∃ r, Rounding.Fits 53 r ∧ a.units.natAbs < r ∧ r ≤ (a.units - scaled n).natAbs := by
  obtain ⟨k,hk⟩ : ∃ k, Rounding.spacing 53 a.units.natAbs = 2 ^ k := ⟨_,rfl⟩
  have hdvd : ((2 ^ k : ℕ) : ℤ) ∣ a.units - scaled n := by
    refine dvd_sub (Int.natCast_dvd.mpr (hk ▸ a.fits)) ?_
    -- the spacing of `a` is at most one
    refine Dvd.dvd.mul_left (Int.natCast_dvd_natCast.mpr ?_) n
    rw [← hk]
    exact (Rounding.spacing_dvd_two_pow (by decide) (lt_of_lt_of_eq ha two_pow_mul_one)).trans two_pow_dvd_one
  obtain ⟨q,hq⟩ := hdvd
  have hnat : (a.units - scaled n).natAbs = q.natAbs * 2 ^ k := by
    rw [hq, Int.natAbs_mul, Int.natAbs_natCast, Nat.mul_comm]
  rw [hnat]
  rcases Nat.lt_or_ge (2 ^ 53) q.natAbs with hlarge | hsmall
  · refine Or.inr ⟨2 ^ 53 * 2 ^ k,Rounding.fits_mul_two_pow (by decide) (Nat.le_refl _) k,?_,?_⟩
    · rw [← hk]
      exact Rounding.lt_two_pow_mul_spacing 53 a.units.natAbs
    · exact Nat.mul_le_mul_right (2 ^ k) (Nat.le_of_lt hlarge)
  · exact Or.inl (Rounding.fits_mul_two_pow (by decide) hsmall k)

/-- Below `2 ^ 52` and from `t` on, a double is close to an integer only if it looks
so: where rounding could hide a distance, the difference is exact. -/
theorem sub_ofInt_exact (hy : ofInt n = some y) (ht : scaled t ≤ a.units) (hpos : 0 ≤ a.units)
    (ha : a.units.natAbs < 2 ^ 52 * one) (h : absExceeds (sub a y) t = false) :
    |a.units - scaled n| ≤ scaled t := by
  obtain ⟨d,hd,hle⟩ := not_absExceeds h
  by_cases hn : n.natAbs ≤ 2 ^ 53
  · -- the integer is a double
    have hexact : y.units = scaled n := by
      refine ofUnits_of_fits ?_ hy
      rw [natAbs_scaled]
      exact fits_mul_one hn
    rw [sub, hexact] at hd
    rcases sub_scaled_fits (n := n) ha with hfits | ⟨r,hr,hlt,hfar⟩
    · rwa [← ofUnits_of_fits hfits hd, Int.abs_eq_natAbs]
    · exfalso
      have hkept := le_of_fits hr hfar hd
      omega
  · exfalso
    have hfar := le_of_fits (fits_mul_one (Nat.le_refl _)) (u := scaled n) ?_ hy
    · have hdistance : 2 ^ 52 * one ≤ (a.units - y.units).natAbs := by omega
      have hkept := le_of_fits (fits_mul_one (by decide)) hdistance hd
      omega
    · rw [natAbs_scaled]
      exact Nat.mul_le_mul_right one (Nat.le_of_not_le hn)

end Facts
end Binary64
