import Mathlib.Data.List.Infix

/-! # SQL patterns

`LIKE` as PostgreSQL defines it: `%` stands for any text, `_` for any character, a
backslash takes the character after it literally, and a pattern covers the whole
text. `startswith` is the pattern that appends `%` to its argument and escapes
nothing in it.
-/
namespace Like

inductive Item
  | many
  | one
  | char (c : Char)
deriving DecidableEq

def item (c : Char) : Item := if c = '%' then .many else if c = '_' then .one else .char c

def parse : List Char → List Item
  | [] => []
  | [c] => [item c]
  | c :: d :: rest => if c = '\\' then .char d :: parse rest else item c :: parse (d :: rest)

def covers : List Item → List Char → Bool
  | [], s => s.isEmpty
  | .many :: items, s => s.tails.any fun t => covers items t
  | .one :: _, [] => false
  | .one :: items, _ :: s => covers items s
  | .char _ :: _, [] => false
  | .char c :: items, d :: s => c = d && covers items s

/-- `text LIKE start || '%'` -/
def startswith (start text : String) : Bool := covers (parse (start.toList ++ ['%'])) text.toList

/-- A text that stands for itself in a pattern. -/
def Plain (s : List Char) : Prop := ∀ c ∈ s, c ≠ '%' ∧ c ≠ '_' ∧ c ≠ '\\'

theorem covers_many (s : List Char) : covers [.many] s = true := by
  rw [covers, List.any_eq_true]
  exact ⟨[],(List.mem_tails [] s).mpr s.nil_suffix,rfl⟩

theorem covers_literal (start s : List Char) :
    covers (start.map Item.char ++ [.many]) s = true ↔ start <+: s := by
  induction start generalizing s with
  | nil => simpa using covers_many s
  | cons c start ih =>
    cases s with
    | nil => simp [covers]
    | cons d s =>
      rw [List.cons_prefix_cons, ← ih]
      simp [covers]

theorem parse_plain {start : List Char} (h : Plain start) :
    parse (start ++ ['%']) = start.map Item.char ++ [.many] := by
  induction start with
  | nil => rfl
  | cons c start ih =>
    obtain ⟨⟨hmany,hone,hescape⟩,hrest⟩ := List.forall_mem_cons.mp h
    have hitem : item c = .char c := by simp [item,hmany,hone]
    have hhead : parse (c :: (start ++ ['%'])) = item c :: parse (start ++ ['%']) := by
      cases start with
      | nil => simp [parse,hescape]
      | cons d start => simp [parse,hescape]
    rw [List.cons_append, hhead, hitem, ih hrest]
    rfl

/-- Without the characters that a pattern reads otherwise, `startswith` means what it says. -/
theorem startswith_plain {start : String} (h : Plain start.toList) (text : String) :
    startswith start text = true ↔ start.toList <+: text.toList := by
  unfold startswith
  rw [parse_plain h, covers_literal]

end Like
