import Mathlib.Data.List.DropRight
import Mathlib.Tactic.IntervalCases

/-! # Text as Python's string methods see it

Strings are handled as lists of characters. Only what depends on a fixed,
finite set of code points is defined here; case mappings and other table-driven
functions are left to the caller.
-/
namespace Text

/-- The characters `str.strip` and `str.split` treat as whitespace. -/
def isSpace (c : Char) : Bool :=
  let n := c.toNat
  (9 ≤ n && n ≤ 13) || (28 ≤ n && n ≤ 32) || n = 0x85 || n = 0xA0 || n = 0x1680 ||
    (0x2000 ≤ n && n ≤ 0x200A) || n = 0x2028 || n = 0x2029 || n = 0x202F || n = 0x205F || n = 0x3000

def isAsciiDigit (c : Char) : Bool := '0' ≤ c && c ≤ '9'

def stripChars (s : List Char) : List Char := (s.dropWhile isSpace).rdropWhile isSpace

/-- `str.strip()` -/
def strip (s : String) : String := String.ofList (stripChars s.toList)

/-- `not s.strip()` -/
def isBlank (s : String) : Bool := s.toList.all isSpace

/-- `str.split()`: the maximal runs of non-space characters. -/
def tokens (s : List Char) : List (List Char) := (s.splitOnP isSpace).filter (· ≠ [])

/-- `s[:n]` -/
def truncate (n : ℕ) (s : String) : String := String.ofList (s.toList.take n)

@[simp] theorem truncate_length (n : ℕ) (s : String) : (truncate n s).length = min n s.length := by
  simp [truncate,String.length_toList]

theorem mem_truncate {n : ℕ} {s : String} {c : Char} (h : c ∈ (truncate n s).toList) :
    c ∈ s.toList := by
  simp only [truncate, String.toList_ofList] at h
  exact List.mem_of_mem_take h

theorem truncate_of_le {n : ℕ} {s : String} (h : s.length ≤ n) : truncate n s = s := by
  rw [truncate, List.take_of_length_le (by rwa [String.length_toList]), String.ofList_toList]

theorem length_intercalate_le {sep : String} {l : List String} {b : ℕ} (h : ∀ s ∈ l, s.length ≤ b) :
    (sep.intercalate l).length ≤ l.length * (b + sep.length) := by
  induction l with
  | nil => simp
  | cons s rest ih =>
    have hs := h s List.mem_cons_self
    have hrest := ih fun x hx => h x (List.mem_cons_of_mem _ hx)
    rw [List.length_cons, Nat.succ_mul]
    cases rest with
    | nil =>
      rw [String.intercalate_singleton]
      omega
    | cons x rest =>
      rw [String.intercalate_cons_cons, String.length_append, String.length_append]
      omega

/-- `%02d` of a number below one hundred. -/
def twoDigits (n : ℕ) : List Char := [Nat.digitChar (n / 10 % 10),Nat.digitChar (n % 10)]

/-- `%04d` of a number below ten thousand. -/
def fourDigits (n : ℕ) : List Char := twoDigits (n / 100) ++ twoDigits (n % 100)

theorem isAsciiDigit_digitChar (n : ℕ) : isAsciiDigit (Nat.digitChar (n % 10)) = true := by
  have h : n % 10 < 10 := Nat.mod_lt _ (by decide)
  generalize n % 10 = d at h
  interval_cases d <;> decide

theorem twoDigits_digits {n : ℕ} {c : Char} (h : c ∈ twoDigits n) : isAsciiDigit c = true := by
  simp only [twoDigits, List.mem_cons, List.not_mem_nil, or_false] at h
  rcases h with rfl | rfl
  · exact isAsciiDigit_digitChar _
  · exact isAsciiDigit_digitChar _

theorem fourDigits_digits {n : ℕ} {c : Char} (h : c ∈ fourDigits n) : isAsciiDigit c = true := by
  rcases List.mem_append.mp h with h | h <;> exact twoDigits_digits h

end Text
