import Mathlib.Data.List.Nodup

/-! # Tables with a primary key and append-only journals

A table carries the uniqueness of its key, a journal the strict order of its
serial numbers, so neither can be built without them. Updates replace rows in
place; `Rewrites` is the footprint of a computation on a table.
-/
namespace Relational
variable {Row Key : Type*} {key : Row → Key}

/-- Rows of a relation in insertion order; no two rows share their key. -/
structure Table (Row : Type*) {Key : Type*} (key : Row → Key) where
  rows : List Row
  unique : (rows.map key).Nodup

namespace Table

def empty : Table Row key := ⟨[],List.nodup_nil⟩

theorem ext_rows {t u : Table Row key} (h : t.rows = u.rows) : t = u := by
  cases t
  cases u
  simpa using h

/-- Change every row by a function that keeps the key. -/
def mapRows (t : Table Row key) (f : Row → Row) (hf : ∀ r, key (f r) = key r) : Table Row key :=
  ⟨t.rows.map f,by
    have h : key ∘ f = key := funext hf
    rw [List.map_map, h]
    exact t.unique⟩

theorem mapRows_eq_self {t : Table Row key} {f : Row → Row} {hf : ∀ r, key (f r) = key r}
    (h : ∀ r ∈ t.rows, f r = r) : t.mapRows f hf = t := by
  apply ext_rows
  exact (List.map_congr_left h).trans t.rows.map_id

variable [DecidableEq Key]

/-- The row under a key. -/
def get (t : Table Row key) (k : Key) : Option Row := t.rows.find? fun r => key r = k

@[simp] theorem get_empty (k : Key) : (empty : Table Row key).get k = none := rfl

theorem get_key {t : Table Row key} {k : Key} {r : Row} (h : t.get k = some r) : key r = k := by
  simpa using List.find?_some h

theorem mem_of_get {t : Table Row key} {k : Key} {r : Row} (h : t.get k = some r) : r ∈ t.rows :=
  List.mem_of_find?_eq_some h

theorem get_eq_none {t : Table Row key} {k : Key} : t.get k = none ↔ ∀ r ∈ t.rows, key r ≠ k := by
  simp [get]

theorem get_of_mem {t : Table Row key} {r : Row} (h : r ∈ t.rows) : t.get (key r) = some r := by
  cases hg : t.get (key r) with
  | none => exact absurd rfl (get_eq_none.mp hg r h)
  | some q => rw [List.inj_on_of_nodup_map t.unique (mem_of_get hg) h (get_key hg)]

theorem mem_iff_get {t : Table Row key} {r : Row} : r ∈ t.rows ↔ t.get (key r) = some r :=
  ⟨get_of_mem,mem_of_get⟩

theorem get_mapRows (t : Table Row key) (f : Row → Row) (hf : ∀ r, key (f r) = key r) (k : Key) :
    (t.mapRows f hf).get k = (t.get k).map f := by
  simp only [get, mapRows, List.find?_map, Function.comp_def, hf]

/-- Overwrite the row that has the same key, if there is one. -/
def put (t : Table Row key) (r : Row) : Table Row key :=
  t.mapRows (fun x => if key x = key r then r else x) fun x => by split <;> simp_all

theorem get_put (t : Table Row key) (r : Row) (k : Key) :
    (t.put r).get k = if k = key r then (t.get k).map fun _ => r else t.get k := by
  rw [put, get_mapRows]
  cases hg : t.get k with
  | none => simp
  | some x =>
    have hx := get_key hg
    by_cases hk : k = key r <;> simp_all

theorem get_put_self {t : Table Row key} {r old : Row} (h : t.get (key r) = some old) :
    (t.put r).get (key r) = some r := by simp [get_put, h]

theorem get_put_of_ne {t : Table Row key} {r : Row} {k : Key} (h : k ≠ key r) :
    (t.put r).get k = t.get k := by simp [get_put, h]

theorem put_put {t : Table Row key} {a b : Row} (h : key a = key b) : (t.put a).put b = t.put b := by
  apply ext_rows
  simp only [put, mapRows, List.map_map]
  refine List.map_congr_left fun x _ => ?_
  by_cases hx : key x = key b <;> simp [h, hx]

/-- Add a row whose key is not in the table yet. -/
def insert (t : Table Row key) (r : Row) (h : t.get (key r) = none) : Table Row key :=
  ⟨t.rows ++ [r],by
    rw [List.map_append, List.nodup_append]
    refine ⟨t.unique,by simp,?_⟩
    simpa using get_eq_none.mp h⟩

theorem get_insert (t : Table Row key) (r : Row) (h : t.get (key r) = none) (k : Key) :
    (t.insert r h).get k = if k = key r then some r else t.get k := by
  simp only [get, insert, List.find?_append, List.find?_singleton]
  by_cases hk : k = key r
  · subst hk
    have hn : t.rows.find? (fun x => decide (key x = key r)) = none := h
    simp [hn]
  · simp [hk, Ne.symm hk]

/-- A table with one more key has one more row. -/
theorem length_of_get {t u : Table Row key} {x : Row} (hnew : t.get (key x) = none)
    (h : ∀ k, u.get k = if k = key x then some x else t.get k) : u.rows.length = t.rows.length + 1 := by
  have hx : x ∉ t.rows := fun hm => get_eq_none.mp hnew x hm rfl
  have hperm : u.rows.Perm (x :: t.rows) := by
    refine (List.perm_ext_iff_of_nodup u.unique.of_map (List.nodup_cons.mpr ⟨hx,t.unique.of_map⟩)).mpr fun y => ?_
    rw [mem_iff_get, h, List.mem_cons, mem_iff_get]
    split
    · next hk =>
      rw [hk, hnew]
      simp [eq_comm]
    · next hk =>
      refine (or_iff_right ?_).symm
      rintro rfl
      exact hk rfl
  exact hperm.length_eq

/-- The computation from `t` to `u` adds no key, leaves the rows outside `keys`
alone and changes each row under `keys` by `R`. -/
structure Rewrites (keys : Key → Prop) (R : Row → Row → Prop) (t u : Table Row key) : Prop where
  frame : ∀ k, ¬ keys k → u.get k = t.get k
  absent : ∀ k, t.get k = none → u.get k = none
  touch : ∀ k r, keys k → t.get k = some r → ∃ r', u.get k = some r' ∧ R r r'

theorem Rewrites.refl {keys : Key → Prop} {R : Row → Row → Prop} (hR : ∀ r, R r r)
    (t : Table Row key) : Rewrites keys R t t :=
  ⟨fun _ _ => rfl,fun _ h => h,fun _ r _ h => ⟨r,h,hR r⟩⟩

theorem Rewrites.trans {keys : Key → Prop} {R S T : Row → Row → Prop} {t u v : Table Row key}
    (hRS : ∀ {a b c}, R a b → S b c → T a c) (h₁ : Rewrites keys R t u)
    (h₂ : Rewrites keys S u v) : Rewrites keys T t v := by
  refine ⟨fun k hk => (h₂.frame k hk).trans (h₁.frame k hk),fun k hk => h₂.absent k (h₁.absent k hk),?_⟩
  intro k r hk hr
  obtain ⟨r₁,hr₁,hR⟩ := h₁.touch k r hk hr
  obtain ⟨r₂,hr₂,hS⟩ := h₂.touch k r₁ hk hr₁
  exact ⟨r₂,hr₂,hRS hR hS⟩

/-- A change that may also be none can be claimed for more keys. -/
theorem Rewrites.widen {keys keys' : Key → Prop} {R : Row → Row → Prop} {t u : Table Row key}
    (hR : ∀ r, R r r) (h : Rewrites keys R t u) (hk : ∀ k, keys k → keys' k) :
    Rewrites keys' R t u := by
  refine ⟨fun k hn => h.frame k (fun hk' => hn (hk k hk')),h.absent,?_⟩
  intro k r _ hr
  by_cases hkey : keys k
  · exact h.touch k r hkey hr
  · exact ⟨r,(h.frame k hkey).trans hr,hR r⟩

theorem Rewrites.mono {keys : Key → Prop} {R S : Row → Row → Prop} {t u : Table Row key}
    (h : Rewrites keys R t u) (hRS : ∀ a b, R a b → S a b) : Rewrites keys S t u := by
  refine ⟨h.frame,h.absent,fun k r hk hr => ?_⟩
  obtain ⟨r',hr',hR⟩ := h.touch k r hk hr
  exact ⟨r',hr',hRS r r' hR⟩

theorem Rewrites.put {R : Row → Row → Prop} {t : Table Row key} {r old : Row}
    (hold : t.get (key r) = some old) (hrow : R old r) : Rewrites (· = key r) R t (t.put r) := by
  refine ⟨fun k hk => get_put_of_ne hk,fun k hk => ?_,?_⟩
  · rw [get_put, hk]
    split <;> rfl
  · rintro k x rfl hx
    rw [hold] at hx
    cases hx
    exact ⟨r,get_put_self hold,hrow⟩

/-- Nothing is under the key. -/
theorem Rewrites.missing {R : Row → Row → Prop} {t : Table Row key} {k : Key} (h : t.get k = none) :
    Rewrites (· = k) R t t := by
  refine ⟨fun _ _ => rfl,fun _ h => h,?_⟩
  rintro _ r rfl hr
  rw [h] at hr
  cases hr

/-- Keys that are rewritten one after the other, none twice. -/
theorem Rewrites.seq {R : Row → Row → Prop} {t u v : Table Row key} {k : Key} {ks : List Key}
    (hk : k ∉ ks) (h₁ : Rewrites (· = k) R t u) (h₂ : Rewrites (· ∈ ks) R u v) :
    Rewrites (· ∈ k :: ks) R t v := by
  refine ⟨fun j hj => ?_,fun j hj => h₂.absent j (h₁.absent j hj),fun j r hj hr => ?_⟩
  · rw [List.mem_cons, not_or] at hj
    exact (h₂.frame j hj.2).trans (h₁.frame j hj.1)
  · rcases List.mem_cons.mp hj with rfl | hj
    · obtain ⟨r',hr',hR⟩ := h₁.touch j r rfl hr
      exact ⟨r',(h₂.frame j hk).trans hr',hR⟩
    · have hne : j ≠ k := fun he => hk (he ▸ hj)
      exact h₂.touch j r hj ((h₁.frame j hne).trans hr)

end Table

/-- Rows under serial numbers, oldest first. `next` is the value the sequence
gives out next; numbers taken by aborted inserts stay unused. -/
structure Journal (Row : Type*) (serial : Row → ℕ) where
  rows : List Row
  next : ℕ
  ordered : rows.Pairwise fun a b => serial a < serial b
  below : ∀ r ∈ rows, serial r < next

namespace Journal
variable {serial : Row → ℕ}

def empty : Journal Row serial := ⟨[],1,List.Pairwise.nil,by simp⟩

theorem ext_rows {j k : Journal Row serial} (h : j.rows = k.rows) (hn : j.next = k.next) : j = k := by
  cases j
  cases k
  simp_all

/-- Add a row under the next serial number. -/
def append (j : Journal Row serial) (r : Row) (h : serial r = j.next) : Journal Row serial where
  rows := j.rows ++ [r]
  next := j.next + 1
  ordered := by
    rw [List.pairwise_append]
    refine ⟨j.ordered,List.pairwise_singleton _ _,?_⟩
    intro a ha b hb
    rw [List.mem_singleton.mp hb, h]
    exact j.below a ha
  below := by
    intro a ha
    rcases List.mem_append.mp ha with ha | ha
    · exact Nat.lt_succ_of_lt (j.below a ha)
    · rw [List.mem_singleton.mp ha, h]
      exact Nat.lt_succ_self _

@[simp] theorem append_rows (j : Journal Row serial) (r : Row) (h : serial r = j.next) :
    (j.append r h).rows = j.rows ++ [r] := rfl

/-- Serial numbers taken from the sequence by inserts that did not survive. -/
def skip (j : Journal Row serial) (n : ℕ) : Journal Row serial :=
  ⟨j.rows,j.next + n,j.ordered,fun r hr => Nat.lt_of_lt_of_le (j.below r hr) (Nat.le_add_right _ _)⟩

@[simp] theorem skip_rows (j : Journal Row serial) (n : ℕ) : (j.skip n).rows = j.rows := rfl

/-- Change every row by a function that keeps the serial number. -/
def mapRows (j : Journal Row serial) (f : Row → Row) (hf : ∀ r, serial (f r) = serial r) :
    Journal Row serial where
  rows := j.rows.map f
  next := j.next
  ordered := by
    rw [List.pairwise_map]
    simpa only [hf] using j.ordered
  below := by
    intro r hr
    obtain ⟨x,hx,rfl⟩ := List.mem_map.mp hr
    rw [hf]
    exact j.below x hx

@[simp] theorem mapRows_rows (j : Journal Row serial) (f : Row → Row)
    (hf : ∀ r, serial (f r) = serial r) : (j.mapRows f hf).rows = j.rows.map f := rfl

theorem mapRows_eq_self {j : Journal Row serial} {f : Row → Row} {hf : ∀ r, serial (f r) = serial r}
    (h : ∀ r ∈ j.rows, f r = r) : j.mapRows f hf = j := by
  exact ext_rows ((List.map_congr_left h).trans j.rows.map_id) rfl

def get (j : Journal Row serial) (n : ℕ) : Option Row := j.rows.find? fun r => serial r = n

theorem get_serial {j : Journal Row serial} {n : ℕ} {r : Row} (h : j.get n = some r) :
    serial r = n := by simpa using List.find?_some h

theorem mem_of_get {j : Journal Row serial} {n : ℕ} {r : Row} (h : j.get n = some r) :
    r ∈ j.rows := List.mem_of_find?_eq_some h

theorem serials_nodup (j : Journal Row serial) : (j.rows.map serial).Nodup := by
  rw [List.Nodup, List.pairwise_map]
  exact j.ordered.imp fun hlt => Nat.ne_of_lt hlt

/-- Two rows of a journal under one serial number are the same row. -/
theorem eq_of_serial {j : Journal Row serial} {a b : Row} (ha : a ∈ j.rows) (hb : b ∈ j.rows)
    (h : serial a = serial b) : a = b := List.inj_on_of_nodup_map j.serials_nodup ha hb h

theorem get_of_mem {j : Journal Row serial} {r : Row} (h : r ∈ j.rows) :
    j.get (serial r) = some r := by
  cases hg : j.get (serial r) with
  | none =>
    have hn := List.find?_eq_none.mp hg r h
    simp at hn
  | some q => rw [eq_of_serial (mem_of_get hg) h (get_serial hg)]

theorem get_mapRows (j : Journal Row serial) (f : Row → Row) (hf : ∀ r, serial (f r) = serial r)
    (n : ℕ) : (j.mapRows f hf).get n = (j.get n).map f := by
  simp only [get, mapRows, List.find?_map, Function.comp_def, hf]

/-- Overwrite the row that has the same serial number. -/
def put (j : Journal Row serial) (r : Row) : Journal Row serial :=
  j.mapRows (fun x => if serial x = serial r then r else x) fun x => by split <;> simp_all

theorem get_put (j : Journal Row serial) (r : Row) (n : ℕ) :
    (j.put r).get n = if n = serial r then (j.get n).map fun _ => r else j.get n := by
  rw [put, get_mapRows]
  cases hg : j.get n with
  | none => simp
  | some x =>
    have hx := get_serial hg
    by_cases hn : n = serial r <;> simp_all

theorem get_put_self {j : Journal Row serial} {r old : Row} (h : j.get (serial r) = some old) :
    (j.put r).get (serial r) = some r := by simp [get_put, h]

theorem get_put_of_ne {j : Journal Row serial} {r : Row} {n : ℕ} (h : n ≠ serial r) :
    (j.put r).get n = j.get n := by simp [get_put, h]

theorem mem_put {j : Journal Row serial} {r x : Row} :
    x ∈ (j.put r).rows ↔ (x ∈ j.rows ∧ serial x ≠ serial r) ∨
      (x = r ∧ ∃ y ∈ j.rows, serial y = serial r) := by
  simp only [put, mapRows_rows, List.mem_map]
  constructor
  · rintro ⟨y,hy,rfl⟩
    split
    · next h => exact Or.inr ⟨rfl,y,hy,h⟩
    · next h => exact Or.inl ⟨hy,h⟩
  · rintro (⟨hx,hne⟩ | ⟨rfl,y,hy,he⟩)
    · exact ⟨x,hx,if_neg hne⟩
    · exact ⟨y,hy,if_pos he⟩

end Journal
end Relational
