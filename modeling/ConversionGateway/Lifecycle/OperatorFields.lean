import ConversionGateway.Model.Redaction
import ConversionGateway.Model.Ingest

/-! # What redaction leaves of the fields that operators read

The pattern of a phone number takes the date of every timestamp, every HubSpot id of
eight digits or more, and a correlation id that happens to have no letter in it.
-/
namespace ConversionGateway
open Regex

/-- `TimeStamper(fmt="iso", utc=True)`: the fields of an instant in UTC. -/
def isoTimestamp (t : DateTime) : String :=
  String.ofList (Text.fourDigits t.year ++ '-' :: Text.twoDigits t.month ++ '-' :: Text.twoDigits t.day ++
    'T' :: (Text.twoDigits t.hour ++ ':' :: Text.twoDigits t.minute ++ ':' :: Text.twoDigits t.second ++
      (if t.microsecond = 0 then [] else
        '.' :: (Text.twoDigits (t.microsecond / 10000) ++ Text.fourDigits (t.microsecond % 10000))) ++ ['Z']))

/-- `uuid4().hex` -/
def HexId (id : CodePoints) : Prop := id.length = 32 ∧ ∀ c ∈ id, hexDigit c = true

/-- `str.lower` on ASCII. -/
structure LogRuntime.LowersAscii {Key : Type} (rt : LogRuntime Key) : Prop where
  lower_ascii : ∀ key, (∀ c ∈ key, c < 128) →
    rt.lower key = key.map fun c => if between 'A' 'Z' c then c + 32 else c

/-- The string under a key is the same after redaction. -/
def Keeps {Key : Type} (rt : LogRuntime Key) (event : EventDict Key) (key : String) (s : CodePoints) : Prop :=
  (redactPii rt event).lookup (points key) = some (.str s)

def operatorKeys : List String := ["timestamp","event_id","correlation_id"]

section Keys
variable {Key : Type} {rt : LogRuntime Key} {event : EventDict Key} {key : String} {s : CodePoints}

theorem lookup_redactPii (rt : LogRuntime Key) (event : EventDict Key) (key : CodePoints) :
    (redactPii rt event).lookup key =
      (event.lookup key).map fun v => scrub rt v (if key ≠ points "event" then key else []) := by
  induction event with
  | nil => rfl
  | cons entry rest ih =>
    obtain ⟨k,v⟩ := entry
    show ((k,_) :: redactPii rt rest).lookup key = _
    by_cases hk : key = k
    · subst hk
      rw [List.lookup_cons_self, List.lookup_cons_self]
      rfl
    · have hne : (key == k) = false := beq_eq_false_iff_ne.mpr hk
      rw [List.lookup_cons, List.lookup_cons, hne]
      exact ih

theorem operatorKey_plain (h : rt.LowersAscii) (hkey : key ∈ operatorKeys) : ¬ SensitiveKey rt (points key) := by
  have hascii : ∀ key ∈ operatorKeys, (∀ c ∈ points key, c < 128) ∧
      ((points key).map fun c => if between 'A' 'Z' c then c + 32 else c) = points key := by decide +kernel
  have hplain : ∀ key ∈ operatorKeys, ∀ marker ∈ sensitiveKeys, ¬ points marker <:+: points key := by decide +kernel
  rintro ⟨⟨marker,hmarker,hin⟩,_⟩
  rw [h.lower_ascii _ (hascii key hkey).1, (hascii key hkey).2] at hin
  exact hplain key hkey marker hmarker hin

/-- A string of an operator's field is kept exactly if it has neither kind of match. -/
theorem keeps_iff (h : rt.LowersAscii) (hkey : key ∈ operatorKeys)
    (hs : event.lookup (points key) = some (.str s)) : Keeps rt event key s ↔ Scrubbed rt s := by
  have hevent : points key ≠ points "event" := by
    have hall : ∀ key ∈ operatorKeys, points key ≠ points "event" := by decide +kernel
    exact hall key hkey
  have hscrub : scrub rt (.str s) (points key) = .str (scrubString rt s) := scrub_plain (operatorKey_plain h hkey) _
  rw [Keeps, lookup_redactPii, hs, Option.map_some, if_pos hevent, hscrub]
  constructor
  · intro heq
    have hsame : scrubString rt s = s := by
      injection heq with heq
      injection heq
    rw [← hsame]
    exact scrubString_scrubbed rt s
  · exact fun hc => congrArg (some ∘ LogValue.str) hc.fixed

end Keys

section Patterns
variable {isDecimal : ℕ → Bool} {s front digits : CodePoints}

/-- Without an at sign there is no address. -/
theorem not_found_email_of_at (h : 64 ∉ s) : ¬ Found emailPattern none s := by
  rintro ⟨u,t,r,rfl,hm⟩
  obtain ⟨w,rfl,_,_,hone⟩ := hm.text
  obtain ⟨a,ha,hat⟩ := hone (oneOf "@") (by simp [emailPattern])
  obtain rfl : a = 64 := by simpa [oneOf,points] using hat
  exact h (List.mem_append_right u (List.mem_append_left r ha))

/-- A match has the digits of a phone number, behind no hexadecimal digit and before none. -/
theorem found_phone_iff : Found (phonePattern isDecimal) none s ↔ ∃ u z r, s = u ++ (z ++ r) ∧
    PhoneDigits isDecimal z ∧ r.head?.any hexDigit = false ∧
    ((lastOf none u).any hexDigit = false ∨
      ∃ v, u = v ++ [43] ∧ (lastOf none v).any hexDigit = false) := by
  constructor
  · rintro ⟨u,t,r,rfl,hm⟩
    obtain ⟨hprev,⟨t,rfl,hcore⟩ | hcore⟩ := matches_phone hm
    · obtain ⟨z,rfl,hz,hr⟩ := matches_phoneCore.mp hcore
      exact ⟨u ++ [43],z,r,by simp,hz,hr,Or.inr ⟨u,rfl,hprev⟩⟩
    · obtain ⟨z,rfl,hz,hr⟩ := matches_phoneCore.mp hcore
      exact ⟨u,z,r,rfl,hz,hr,Or.inl hprev⟩
  · rintro ⟨u,z,r,rfl,hz,hr,hprev | ⟨v,rfl,hprev⟩⟩
    · exact ⟨u,z ++ r,r,rfl,.notBehind hprev (.leave (matches_phoneCore.mpr ⟨z,rfl,hz,hr⟩))⟩
    · exact ⟨v,43 :: (z ++ r),r,by simp,.notBehind hprev (.take (by decide) (matches_phoneCore.mpr ⟨z,rfl,hz,hr⟩))⟩

theorem phoneDigits_of_decimals (h : ∀ c ∈ digits, decimal isDecimal c = true) (hlen : 8 ≤ digits.length) :
    PhoneDigits isDecimal digits := by
  obtain ⟨d,rest,rfl⟩ := List.exists_cons_of_length_pos (show 0 < digits.length by omega)
  have hne : rest ≠ [] := by
    rintro rfl
    simp at hlen
  refine ⟨d,rest.dropLast,rest.getLast hne,?_,h d List.mem_cons_self,?_,?_,?_⟩
  · rw [List.dropLast_concat_getLast]
  · exact h _ (List.mem_cons_of_mem d (List.getLast_mem hne))
  · rw [List.length_dropLast]
    simp only [List.length_cons] at hlen
    omega
  · intro c hc
    exact phoneInner_of_decimal (h c (List.mem_cons_of_mem d (List.mem_of_mem_dropLast hc)))

/-- A number behind a text without digits is taken for a phone number if it is long enough. -/
theorem found_phone_digits (hfront : ∀ c ∈ front, decimal isDecimal c = false)
    (hlast : (lastOf none front).any hexDigit = false) (hdigits : ∀ c ∈ digits, decimal isDecimal c = true) :
    Found (phonePattern isDecimal) none (front ++ digits) ↔ 8 ≤ digits.length := by
  rw [found_phone_iff]
  constructor
  · rintro ⟨u,z,r,heq,⟨d,mid,d',rfl,hd,_,hmid,_⟩,_⟩
    -- the match begins with a digit, so not in the text before the number
    have hlong : (d :: (mid ++ [d']) ++ r).length ≤ digits.length := by
      rcases List.append_eq_append_iff.mp heq with ⟨a,_,ha⟩ | ⟨a,ha,hrest⟩
      · rw [ha]
        exact (List.sublist_append_right a _).length_le
      · cases a with
        | nil =>
          rw [List.nil_append] at hrest
          rw [hrest]
        | cons c a =>
          obtain rfl : d = c := (List.cons.inj hrest).1
          have hdfront : d ∈ front := ha ▸ List.mem_append_right u List.mem_cons_self
          rw [hfront d hdfront] at hd
          cases hd
    simp only [List.cons_append, List.length_cons, List.length_append, List.length_nil] at hlong
    omega
  · intro hlen
    refine ⟨front,digits,[],by rw [List.append_nil],phoneDigits_of_decimals hdigits hlen,rfl,Or.inl hlast⟩

theorem decimal_or_letter (isDecimal : ℕ → Bool) {c : ℕ} (h : hexDigit c = true) :
    (decimal isDecimal c = true ∧ between 'a' 'f' c = false) ∨
      (phoneInner isDecimal c = false ∧ between 'a' 'f' c = true) := by
  rcases Bool.or_eq_true_iff.mp h with hdigit | hletter
  · have hrange : 48 ≤ c ∧ c ≤ 57 := by simpa [between] using hdigit
    refine Or.inl ⟨?_,?_⟩
    · rw [decimal, if_pos (by omega)]
      exact hdigit
    · simp [between]
      omega
  · have hrange : 97 ≤ c ∧ c ≤ 102 := by simpa [between] using hletter
    refine Or.inr ⟨?_,hletter⟩
    obtain ⟨hlow,hhigh⟩ := hrange
    interval_cases c <;> simp [phoneInner,decimal] <;> decide

/-- A hexadecimal text is taken for a phone number as a whole, if it has no letter. -/
theorem found_phone_hex (hlen : 8 ≤ s.length) (hs : ∀ c ∈ s, hexDigit c = true) :
    Found (phonePattern isDecimal) none s ↔ ∀ c ∈ s, between 'a' 'f' c = false := by
  rw [found_phone_iff]
  constructor
  · rintro ⟨u,z,r,rfl,⟨d,mid,d',rfl,hd,hd',_,hmid⟩,hr,hprev⟩
    have hu : u = [] := by
      rcases hprev with hprev | ⟨v,rfl,_⟩
      · cases u using List.reverseRecOn with
        | nil => rfl
        | append_singleton u c =>
          rw [lastOf_append, lastOf_cons, lastOf_nil] at hprev
          have hc := hs c (by simp)
          rw [Option.any_some, hc] at hprev
          cases hprev
      · exact absurd (hs 43 (by simp)) (by decide)
    have hr' : r = [] := by
      cases r with
      | nil => rfl
      | cons c r =>
        have hc := hs c (by simp)
        rw [List.head?_cons, Option.any_some, hc] at hr
        cases hr
    subst hu hr'
    intro c hc
    rw [List.nil_append, List.append_nil] at hc hs
    have hinner : phoneInner isDecimal c = true := by
      simp only [List.mem_cons, List.mem_append, List.not_mem_nil, or_false] at hc
      rcases hc with rfl | hc | rfl
      · exact phoneInner_of_decimal hd
      · exact hmid c hc
      · exact phoneInner_of_decimal hd'
    rcases decimal_or_letter isDecimal (hs c hc) with ⟨_,hletter⟩ | ⟨hnot,_⟩
    · exact hletter
    · rw [hnot] at hinner
      cases hinner
  · intro hall
    refine ⟨[],s,[],by rw [List.nil_append, List.append_nil],phoneDigits_of_decimals ?_ hlen,rfl,Or.inl rfl⟩
    intro c hc
    rcases decimal_or_letter isDecimal (hs c hc) with ⟨hdec,_⟩ | ⟨_,hletter⟩
    · exact hdec
    · rw [hall c hc] at hletter
      cases hletter

end Patterns

section Fields
variable {Key : Type} {rt : LogRuntime Key}

theorem points_append (s t : String) : points (s ++ t) = points s ++ points t := by
  rw [points, String.toList_append, List.map_append]
  rfl

theorem decimal_of_digit {isDecimal : ℕ → Bool} {c : ℕ} (h : between '0' '9' c = true) :
    decimal isDecimal c = true := by
  have hrange : 48 ≤ c ∧ c ≤ 57 := by simpa [between] using h
  rw [decimal, if_pos (by omega)]
  exact h

/-- The date of a timestamp looks like a phone number. -/
theorem found_phone_timestamp (isDecimal : ℕ → Bool) (t : DateTime) :
    Found (phonePattern isDecimal) none (points (isoTimestamp t)) := by
  have hdigit (n : ℕ) : decimal isDecimal (Nat.digitChar (n % 10)).toNat = true :=
    decimal_of_digit (Text.isAsciiDigit_digitChar n)
  have hinner (n : ℕ) : phoneInner isDecimal (Nat.digitChar (n % 10)).toNat = true := phoneInner_of_decimal (hdigit n)
  have hhyphen : phoneInner isDecimal 45 = true := by
    have hone : oneOf "().-" 45 = true := by decide
    rw [phoneInner, hone, Bool.or_true]
  let d (n : ℕ) : ℕ := (Nat.digitChar (n % 10)).toNat
  have hsplit : ∃ rest, points (isoTimestamp t) =
      (d (t.year / 100 / 10) :: ([d (t.year / 100),d (t.year % 100 / 10),d (t.year % 100),45,d (t.month / 10),d t.month,45,
        d (t.day / 10)] ++ [d t.day])) ++ 84 :: rest := by
    rw [points, isoTimestamp, String.toList_ofList]
    exact ⟨_,rfl⟩
  obtain ⟨rest,hrest⟩ := hsplit
  refine found_phone_iff.mpr ⟨[],_,84 :: rest,hrest,⟨_,_,_,rfl,hdigit _,hdigit _,?_,?_⟩,rfl,Or.inl rfl⟩
  · exact Nat.le_of_ble_eq_true rfl
  · simp only [List.forall_mem_cons]
    exact ⟨hinner _,hinner _,hinner _,hhyphen,hinner _,hinner _,hhyphen,hinner _,by simp⟩

theorem repr_digits (m : ℕ) : ∀ c ∈ points m.repr, between '0' '9' c = true := by
  intro c hc
  rw [points, Nat.toList_repr] at hc
  obtain ⟨d,hd,rfl⟩ := List.mem_map.mp hc
  have hdigit := Char.isDigit_iff_toNat.mp (Nat.isDigit_of_mem_toDigits (by decide) (by decide) hd)
  simpa [between] using hdigit

theorem eventId_points (n : ℤ) : ∃ front, (front = points "hubspot:" ∨ front = points "hubspot:-") ∧
    points (makeEventId .hubspot (toString n)) = front ++ points n.natAbs.repr := by
  have hid (t : String) : points (makeEventId .hubspot t) = points "hubspot:" ++ points t := points_append "hubspot:" t
  cases n with
  | ofNat m => exact ⟨_,Or.inl rfl,hid _⟩
  | negSucc m =>
    refine ⟨_,Or.inr rfl,(hid _).trans ?_⟩
    have hneg : toString (Int.negSucc m) = "-" ++ (m + 1).repr := rfl
    rw [hneg, points_append, ← List.append_assoc]
    rfl

/-- A HubSpot id is taken for a phone number from eight digits on, and never for an address. -/
theorem scrubbed_eventId (rt : LogRuntime Key) (n : ℤ) :
    Scrubbed rt (points (makeEventId .hubspot (toString n))) ↔ n.natAbs < 10 ^ 7 := by
  obtain ⟨front,hfront,hsplit⟩ := eventId_points n
  have hplain : ∀ c ∈ points "hubspot:-", (c < 128 ∧ between '0' '9' c = false) ∧ c ≠ 64 := by decide
  have hin : ∀ c ∈ front, c ∈ points "hubspot:-" := by
    rcases hfront with rfl | rfl
    · exact fun c hc => List.mem_append_left [45] hc
    · exact fun c hc => hc
  have hlast : (lastOf none front).any hexDigit = false := by
    rcases hfront with rfl | rfl <;> rfl
  have hnone : ∀ c ∈ front, decimal rt.isDecimal c = false := by
    intro c hc
    have hc := (hplain c (hin c hc)).1
    rw [decimal, if_pos hc.1]
    exact hc.2
  have hlength : 8 ≤ (points n.natAbs.repr).length ↔ ¬ n.natAbs < 10 ^ 7 := by
    have hle := Nat.length_toDigits_le_iff (n := n.natAbs) (b := 10) (k := 7) (by decide) (by decide)
    rw [points, List.length_map, Nat.toList_repr]
    omega
  have hdigits : ∀ c ∈ points n.natAbs.repr, decimal rt.isDecimal c = true :=
    fun c hc => decimal_of_digit (repr_digits n.natAbs c hc)
  have hphone := found_phone_digits hnone hlast hdigits
  have hat : 64 ∉ front ++ points n.natAbs.repr := by
    intro hm
    rcases List.mem_append.mp hm with hm | hm
    · exact (hplain 64 (hin 64 hm)).2 rfl
    · exact absurd (repr_digits _ 64 hm) (by decide)
  rw [hsplit, Scrubbed, and_iff_right (not_found_email_of_at hat), hphone, hlength, not_not]

/-- So is a correlation id without a letter. -/
theorem scrubbed_hexId (rt : LogRuntime Key) {id : CodePoints} (h : HexId id) :
    Scrubbed rt id ↔ ∃ c ∈ id, between 'a' 'f' c = true := by
  have hat : 64 ∉ id := fun hm => absurd (h.2 64 hm) (by decide)
  rw [Scrubbed, and_iff_right (not_found_email_of_at hat), found_phone_hex (by rw [h.1]; decide) h.2]
  simp

end Fields

/-- No timestamp is kept; an event id of the HubSpot form is kept exactly if its number is
below ten million; and a correlation id exactly if there is a letter in it. -/
theorem redactPii_operatorFields {Key : Type} {rt : LogRuntime Key} (h : rt.LowersAscii) (event : EventDict Key) :
    (∀ t, event.lookup (points "timestamp") = some (.str (points (isoTimestamp t))) →
      ¬ Keeps rt event "timestamp" (points (isoTimestamp t))) ∧
    (∀ n : ℤ, event.lookup (points "event_id") = some (.str (points (makeEventId .hubspot (toString n)))) →
      (Keeps rt event "event_id" (points (makeEventId .hubspot (toString n))) ↔ n.natAbs < 10 ^ 7)) ∧
    ∀ id, HexId id → event.lookup (points "correlation_id") = some (.str id) →
      (Keeps rt event "correlation_id" id ↔ ∃ c ∈ id, between 'a' 'f' c = true) := by
  refine ⟨fun t ht => ?_,fun n hn => ?_,fun id hid hlookup => ?_⟩
  · rw [keeps_iff h (by simp [operatorKeys]) ht]
    exact fun hs => hs.2 (found_phone_timestamp rt.isDecimal t)
  · rw [keeps_iff h (by simp [operatorKeys]) hn]
    exact scrubbed_eventId rt n
  · rw [keeps_iff h (by simp [operatorKeys]) hlookup]
    exact scrubbed_hexId rt hid

theorem utc_lt : ∀ o ∈ some (0 : ℤ), o.natAbs < 86400 := by
  simp

def instant : DateTime where
  year := 2026
  month := 9
  day := 22
  hour := 9
  minute := 30
  second := 2
  microsecond := 114000
  utcoffset := some 0
  year_range := by decide
  month_range := by decide
  day_range := by decide
  hour_lt := by decide
  minute_lt := by decide
  second_lt := by decide
  microsecond_lt := by decide
  utcoffset_lt := utc_lt

/-- A log line of the worker. -/
def workerLine : EventDict String :=
  [(points "event",.str (points "uploaded")),(points "timestamp",.str (points (isoTimestamp instant))),
    (points "event_id",.str (points (makeEventId .hubspot (toString (12345678 : ℤ))))),
    (points "correlation_id",.str (points "00000000000040008000000000000a00"))]

/-- The theorem for this line. -/
theorem redactPii_operatorFields_worker :
    ¬ Keeps asciiLog workerLine "event_id" (points (makeEventId .hubspot (toString (12345678 : ℤ)))) ∧
    Keeps asciiLog workerLine "correlation_id" (points "00000000000040008000000000000a00") := by
  have hlower : asciiLog.LowersAscii := ⟨fun _ _ => rfl⟩
  have hall := redactPii_operatorFields hlower workerLine
  have hid : HexId (points "00000000000040008000000000000a00") := ⟨by decide +kernel,by decide +kernel⟩
  refine ⟨fun hkeeps => ?_,(hall.2.2 _ hid (by rfl)).mpr ⟨97,by decide +kernel,by decide⟩⟩
  exact absurd ((hall.2.1 12345678 (by rfl)).mp hkeeps) (by decide)

/-- The timestamp of this line is not kept, and the three fields are replaced like this. -/
theorem not_keeps_timestamp :
    workerLine.lookup (points "timestamp") = some (.str (points "2026-09-22T09:30:02.114000Z")) ∧
    ¬ Keeps asciiLog workerLine "timestamp" (points "2026-09-22T09:30:02.114000Z") ∧
    scrubString asciiLog (points "2026-09-22T09:30:02.114000Z") = points "[REDACTED]T09:30:[REDACTED]Z" ∧
    scrubString asciiLog (points "hubspot:12345678") = points "hubspot:[REDACTED]" ∧
    scrubString asciiLog (points "12345678901241234890123456789012") = points "[REDACTED]" := by
  have htext : isoTimestamp instant = "2026-09-22T09:30:02.114000Z" := by decide +kernel
  have hfield : workerLine.lookup (points "timestamp") = some (.str (points "2026-09-22T09:30:02.114000Z")) := by
    rw [← htext]
    rfl
  refine ⟨hfield,?_,by decide +kernel,by decide +kernel,by decide +kernel⟩
  rw [keeps_iff ⟨fun _ _ => rfl⟩ (by simp [operatorKeys]) hfield, ← htext]
  exact fun hs => hs.2 (found_phone_timestamp _ instant)

end ConversionGateway
