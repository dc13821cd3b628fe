import ConversionGateway.Model.Signature

/-! # What the signature check lets through

The signed string is cut at its first dot, and no timestamp has a dot. What `int`
accepts is more than what the steps after it can take.
-/
namespace ConversionGateway

namespace Verifier
variable {v : Verifier}

/-! ## Timestamps have no dot -/

section Timestamps
variable {c : Char} {cs : List Char} {s : String}

theorem mem_strip {p : Char → Bool} (hc : c ∈ cs) (hp : p c = false) : c ∈ (cs.dropWhile p).rdropWhile p := by
  have hdrop {l : List Char} (hl : c ∈ l) : c ∈ l.dropWhile p := by
    rw [← List.takeWhile_append_dropWhile (p := p) (l := l)] at hl
    rcases List.mem_append.mp hl with hl | hl
    · exact absurd (List.mem_takeWhile_imp hl) (by simp [hp])
    · exact hl
  rw [List.rdropWhile, List.mem_reverse]
  exact hdrop (List.mem_reverse.mpr (hdrop hc))

theorem mem_flatten_splitOn (hc : c ∈ cs) (hu : c ≠ '_') : c ∈ (cs.splitOn '_').flatten := by
  rw [List.splitOn_eq_splitOnP]
  induction cs with
  | nil => cases hc
  | cons x cs ih =>
    obtain ⟨g,rest,hsplit⟩ := List.exists_cons_of_ne_nil (List.splitOnP_ne_nil (· == '_') cs)
    rw [List.splitOnP_cons_eq_if_modifyHead]
    rcases List.mem_cons.mp hc with rfl | hc
    · rw [if_neg (by simpa using hu), hsplit]
      simp
    · have hrest := ih hc
      rw [hsplit] at hrest ⊢
      split
      · exact hrest
      · simp only [List.modifyHead_cons, List.flatten_cons, List.cons_append, List.mem_cons] at hrest ⊢
        exact Or.inr hrest

theorem mapM_isSome {f : Char → Option ℕ} {ds : List ℕ} (h : cs.mapM f = some ds) (hc : c ∈ cs) :
    (f c).isSome := by
  induction cs generalizing ds with
  | nil => cases hc
  | cons x cs ih =>
    simp only [List.mapM_cons, Option.bind_eq_bind, Option.bind_eq_some_iff] at h
    obtain ⟨d,hd,ds',hds,_⟩ := h
    rcases List.mem_cons.mp hc with rfl | hc
    · rw [hd]
      rfl
    · exact ih hds hc

/-- Every character of an unsigned number is a digit or an underscore. -/
theorem unsigned_mem {n : ℕ} (h : v.unsigned cs = some n) (hc : c ∈ cs) : c = '_' ∨ (v.digitOf c).isSome := by
  by_cases hu : c = '_'
  · exact Or.inl hu
  · unfold unsigned digitsOf at h
    split at h
    · cases h
    · next ds hds =>
      split at hds
      · exact Or.inr (mapM_isSome hds (mem_flatten_splitOn hc hu))
      · cases hds

theorem int_no_dot {n : ℤ} (h : v.int s = some n) : '.' ∉ s.toList := by
  have hunsigned {cs : List Char} {m : ℕ} (hm : v.unsigned cs = some m) : '.' ∉ cs := by
    intro hdot
    rcases unsigned_mem hm hdot with hbad | hbad
    · exact absurd hbad (by decide)
    · exact absurd hbad (by simp [digitOf,Text.isAsciiDigit])
  intro hdot
  have hmem := mem_strip (p := intSpace) hdot (by decide)
  unfold int at h
  split at h
  · next cs heq =>
    obtain ⟨m,hm,_⟩ := Option.map_eq_some_iff.mp h
    rw [heq] at hmem
    rcases List.mem_cons.mp hmem with hbad | hmem
    · exact absurd hbad (by decide)
    · exact hunsigned hm hmem
  · next cs heq =>
    obtain ⟨m,hm,_⟩ := Option.map_eq_some_iff.mp h
    rw [heq] at hmem
    rcases List.mem_cons.mp hmem with hbad | hmem
    · exact absurd hbad (by decide)
    · exact hunsigned hm hmem
  · obtain ⟨m,hm,_⟩ := Option.map_eq_some_iff.mp h
    exact hunsigned hm hmem

/-- A number without a sign. -/
theorem int_unsigned (hc : (s.toList.dropWhile intSpace).rdropWhile intSpace = c :: cs) (hminus : c ≠ '-')
    (hplus : c ≠ '+') : v.int s = (v.unsigned (c :: cs)).map fun n : ℕ => (n : ℤ) := by
  unfold int
  rw [hc]
  split
  · next heq =>
    cases heq
    exact absurd rfl hminus
  · next heq =>
    cases heq
    exact absurd rfl hplus
  · rfl

end Timestamps

/-! ## The signed string -/

section Signed
variable {ts ts' : String} {body body' : ByteArray}

/-- A list is cut at the first place of an element in one way. -/
theorem cut_unique {α : Type*} {x : α} {a b a' b' : List α} (ha : x ∉ a) (ha' : x ∉ a')
    (h : a ++ x :: b = a' ++ x :: b') : a = a' ∧ b = b' := by
  induction a generalizing a' with
  | nil =>
    cases a' with
    | nil => exact ⟨rfl,(List.cons.inj h).2⟩
    | cons y a' =>
      have hy : x = y := (List.cons.inj h).1
      exact absurd List.mem_cons_self (hy ▸ ha')
  | cons y a ih =>
    cases a' with
    | nil =>
      have hy : y = x := (List.cons.inj h).1
      exact absurd List.mem_cons_self (hy ▸ ha)
    | cons z a' =>
      obtain ⟨rfl,hrest⟩ := List.cons.inj h
      obtain ⟨rfl,hb⟩ := ih (fun hm => ha (List.mem_cons_of_mem y hm))
        (fun hm => ha' (List.mem_cons_of_mem y hm)) hrest
      exact ⟨rfl,hb⟩

theorem signedString_toList (ts : String) (body : ByteArray) : (signedString ts body).data.toList =
    (ts.toList.map fun c => c.toNat.toUInt8) ++ 46 :: body.data.toList := by
  simp [signedString,asciiBytes]

theorem toNat_toUInt8 {c : Char} (hc : c.toNat < 128) : (c.toNat.toUInt8).toNat = c.toNat := by
  rw [Nat.toUInt8_eq, UInt8.toNat_ofNat']
  exact Nat.mod_eq_of_lt (by omega)

theorem dot_notMem (ha : isAscii ts = true) (hd : '.' ∉ ts.toList) :
    (46 : UInt8) ∉ ts.toList.map fun c => c.toNat.toUInt8 := by
  intro hmem
  obtain ⟨c,hc,heq⟩ := List.mem_map.mp hmem
  have hlt : c.toNat < 128 := by simpa using List.all_eq_true.mp ha c hc
  have hnat : c.toNat = '.'.toNat := by
    rw [← toNat_toUInt8 hlt, heq]
    rfl
  exact hd (Char.toNat_inj.mp hnat ▸ hc)

theorem ascii_injective (ha : isAscii ts = true) (ha' : isAscii ts' = true)
    (h : (ts.toList.map fun c => c.toNat.toUInt8) = ts'.toList.map fun c => c.toNat.toUInt8) : ts = ts' := by
  have hcodes {t : String} (ht : isAscii t = true) :
      (t.toList.map fun c => c.toNat.toUInt8).map UInt8.toNat = t.toList.map Char.toNat := by
    rw [List.map_map]
    refine List.map_congr_left fun c hc => ?_
    exact toNat_toUInt8 (by simpa using List.all_eq_true.mp ht c hc)
  have hlist : ts.toList.map Char.toNat = ts'.toList.map Char.toNat := by rw [← hcodes ha, ← hcodes ha', h]
  have hinj : Function.Injective Char.toNat := fun a b hab => Char.toNat_inj.mp hab
  exact String.toList_inj.mp (List.map_injective_iff.mpr hinj hlist)

/-- No other timestamp and body give the same signed string. -/
theorem signedString_injective (ha : isAscii ts = true) (ha' : isAscii ts' = true) {n n' : ℤ}
    (hn : v.int ts = some n) (hn' : v.int ts' = some n') (h : signedString ts body = signedString ts' body') :
    ts = ts' ∧ body = body' := by
  have hlist := congrArg (fun b : ByteArray => b.data.toList) h
  simp only [signedString_toList] at hlist
  obtain ⟨htext,hbody⟩ := cut_unique (dot_notMem ha (int_no_dot hn)) (dot_notMem ha' (int_no_dot hn')) hlist
  refine ⟨ascii_injective ha ha' htext,?_⟩
  exact ByteArray.ext (Array.toList_inj.mp hbody)

end Signed

/-! ## After the structural checks -/

section Checks
variable {secret timestamp signature : String} {body : ByteArray} {now sent : Binary64} {tolerance n : ℤ}

/-- The headers that every step after the structural checks can take: the number is one of a
double, and inside the window the text is ASCII. -/
structure Handles (v : Verifier) (timestamp signature : String) (n : ℤ) (now : Binary64) (tolerance : ℤ) :
    Prop where
  small : n.natAbs < 2 ^ 1024 - 2 ^ 970
  ascii : ∀ sent, Binary64.ofInt n = some sent → Binary64.absExceeds (now.sub sent) tolerance = false →
    isAscii timestamp = true ∧ isAscii (v.lower signature) = true

theorem isAscii_append {s t : String} : isAscii (s ++ t) = (isAscii s && isAscii t) := by
  simp [isAscii]

theorem isHex_ascii {c : Char} (h : isHex c = true) : c.toNat < 128 := by
  have hle {d : Char} (hd : c ≤ d) (hbound : d.toNat < 128) : c.toNat < 128 :=
    Nat.lt_of_le_of_lt (UInt32.le_iff_toNat_le.mp hd) hbound
  simp only [isHex, Text.isAsciiDigit, Bool.or_eq_true, Bool.and_eq_true, decide_eq_true_eq] at h
  rcases h with ⟨_,h⟩ | ⟨_,h⟩
  · exact hle h (by decide)
  · exact hle h (by decide)

theorem HmacDigest.ascii (d : HmacDigest) : isAscii ("sha256=" ++ d.value) = true := by
  rw [isAscii_append, Bool.and_eq_true]
  refine ⟨by decide,?_⟩
  apply List.all_eq_true.mpr
  intro c hc
  exact decide_eq_true (isHex_ascii (List.all_eq_true.mp d.hex c hc))

theorem computeSignature_eq (ha : isAscii timestamp = true) : v.computeSignature secret timestamp body =
    .ok ("sha256=" ++ (v.hmacSha256 secret.toUTF8 (signedString timestamp body)).value) := by
  simp [computeSignature,encodeAscii,ha,signedString,bind,Except.bind,pure,Except.pure]

theorem computeSignature_ascii {s : String} (h : v.computeSignature secret timestamp body = .ok s) :
    isAscii timestamp = true := by
  by_contra ha
  simp [computeSignature,encodeAscii,ha,bind,Except.bind] at h

/-- The last part of the check, for a request inside the window. -/
def compareSignature (v : Verifier) (secret timestamp signature : String) (body : ByteArray) :
    Except VerifyError (Option SignatureFailure) := do
  let expected ← v.computeSignature secret timestamp body
  if ← compareDigest expected (v.lower signature) then return none
  else return some .signatureMismatch

theorem compareSignature_ok_iff : (∃ r, v.compareSignature secret timestamp signature body = .ok r) ↔
    isAscii timestamp = true ∧ isAscii (v.lower signature) = true := by
  by_cases ha : isAscii timestamp = true
  · unfold compareSignature
    rw [computeSignature_eq ha]
    have hexpected := HmacDigest.ascii (v.hmacSha256 secret.toUTF8 (signedString timestamp body))
    by_cases hs : isAscii (v.lower signature) = true
    · simp only [compareDigest, hexpected, hs, ha, bind, Except.bind, Bool.and_self, if_true, and_self, iff_true]
      split
      · exact ⟨none,rfl⟩
      · exact ⟨some .signatureMismatch,rfl⟩
    · simp [compareDigest,hs,bind,Except.bind]
  · simp [compareSignature,computeSignature,encodeAscii,ha,bind,Except.bind]

theorem compareSignature_none (h : v.compareSignature secret timestamp signature body = .ok none) :
    v.computeSignature secret timestamp body = .ok (v.lower signature) := by
  unfold compareSignature at h
  cases hexpected : v.computeSignature secret timestamp body with
  | error err => simp [hexpected,bind,Except.bind] at h
  | ok expected =>
    simp only [hexpected, bind, Except.bind, compareDigest] at h
    by_cases ha : (isAscii expected && isAscii (v.lower signature)) = true
    · by_cases heq : expected = v.lower signature
      · rw [heq]
      · simp [ha,heq,pure,Except.pure] at h
    · simp [ha] at h

theorem verify_overflow (hsecret : secret ≠ "") (hn : v.int timestamp = some n)
    (hshape : signatureShape signature = true) (hsent : Binary64.ofInt n = none) :
    v.verify secret (some timestamp) (some signature) body now tolerance = .error .overflowError := by
  simp only [verify, if_neg hsecret, hn, hshape, not_true_eq_false, if_false, hsent]

/-- What is left once the structural checks are passed. -/
theorem verify_checked (hsecret : secret ≠ "") (hn : v.int timestamp = some n)
    (hshape : signatureShape signature = true) (hsent : Binary64.ofInt n = some sent) :
    v.verify secret (some timestamp) (some signature) body now tolerance =
      if Binary64.absExceeds (now.sub sent) tolerance then .ok (some .timestampOutOfWindow)
      else v.compareSignature secret timestamp signature body := by
  simp only [verify, if_neg hsecret, hn, hshape, not_true_eq_false, if_false, hsent, compareSignature]

/-- A request that fails a structural check gets its answer. -/
theorem verify_structural (v : Verifier) (secret : String) (body : ByteArray) (now : Binary64) (tolerance : ℤ)
    {ts sig : Option String} (h : ¬ ∃ timestamp signature n, secret ≠ "" ∧ ts = some timestamp ∧
    sig = some signature ∧ v.int timestamp = some n ∧ signatureShape signature = true) :
    ∃ failure, v.verify secret ts sig body now tolerance = .ok (some failure) := by
  by_cases hsecret : secret = ""
  · exact ⟨.sourceNotConfigured,by simp [verify,hsecret]⟩
  cases ts with
  | none => exact ⟨.missingTimestamp,by simp [verify,hsecret]⟩
  | some timestamp =>
    cases sig with
    | none => exact ⟨.missingSignature,by simp [verify,hsecret]⟩
    | some signature =>
      cases hn : v.int timestamp with
      | none => exact ⟨.malformedTimestamp,by simp [verify,hsecret,hn]⟩
      | some n =>
        refine ⟨.malformedSignature,?_⟩
        have hshape : ¬ signatureShape signature = true := by
          intro hshape
          exact h ⟨timestamp,signature,n,hsecret,rfl,rfl,hn,hshape⟩
        simp [verify,hsecret,hn,hshape]

theorem verify_checked_ok_iff (hsecret : secret ≠ "") (hn : v.int timestamp = some n)
    (hshape : signatureShape signature = true) :
    (∃ r, v.verify secret (some timestamp) (some signature) body now tolerance = .ok r) ↔
      Handles v timestamp signature n now tolerance := by
  cases hsent : Binary64.ofInt n with
  | none =>
    have hlarge := Binary64.ofInt_eq_none_iff.mp hsent
    rw [verify_overflow hsecret hn hshape hsent]
    constructor
    · rintro ⟨r,hr⟩
      cases hr
    · intro h
      exact absurd h.small (Nat.not_lt.mpr hlarge)
  | some sent =>
    have hsmall : n.natAbs < 2 ^ 1024 - 2 ^ 970 := by
      by_contra hlarge
      rw [Binary64.ofInt_eq_none_iff.mpr (Nat.not_lt.mp hlarge)] at hsent
      cases hsent
    rw [verify_checked hsecret hn hshape hsent]
    cases hwindow : Binary64.absExceeds (now.sub sent) tolerance with
    | true =>
      constructor
      · intro _
        refine ⟨hsmall,?_⟩
        intro sent' hsent' hin
        rw [hsent] at hsent'
        cases hsent'
        rw [hwindow] at hin
        cases hin
      · intro _
        exact ⟨_,rfl⟩
    | false =>
      rw [if_neg Bool.false_ne_true, compareSignature_ok_iff]
      constructor
      · intro h
        refine ⟨hsmall,?_⟩
        intro _ _ _
        exact h
      · intro h
        exact h.ascii sent hsent hwindow

/-- The check gives an answer exactly if what passes the structural checks is within the
reach of the arithmetic, the encoding and the comparison that follow. -/
theorem verify_total_iff (v : Verifier) (secret : String) (ts sig : Option String) (body : ByteArray)
    (now : Binary64) (tolerance : ℤ) :
    (∃ r, v.verify secret ts sig body now tolerance = .ok r) ↔
      ∀ timestamp signature n, secret ≠ "" → ts = some timestamp → sig = some signature →
        v.int timestamp = some n → signatureShape signature = true →
        Handles v timestamp signature n now tolerance := by
  constructor
  · rintro h timestamp signature n hsecret rfl rfl hn hshape
    exact (verify_checked_ok_iff hsecret hn hshape).mp h
  · intro h
    by_cases hpassed : ∃ timestamp signature n, secret ≠ "" ∧ ts = some timestamp ∧ sig = some signature ∧
        v.int timestamp = some n ∧ signatureShape signature = true
    · obtain ⟨timestamp,signature,n,hsecret,rfl,rfl,hn,hshape⟩ := hpassed
      exact (verify_checked_ok_iff hsecret hn hshape).mpr (h _ _ n hsecret rfl rfl hn hshape)
    · obtain ⟨failure,hfailure⟩ := verify_structural v secret body now tolerance hpassed
      exact ⟨some failure,hfailure⟩

end Checks

/-! ## A request at one second -/

/-- An interpreter for ASCII text, and the digest of the message of a run. -/
def plain (digest : HmacDigest) : Verifier where
  toRuntime := { Runtime.plain .valueError with lower := fun s => String.ofList (s.toList.map Char.toLower) }
  hmacSha256 _ _ := digest
  decimal _ := none
  lower_ascii _ _ := rfl

/-- The digest of the body below, signed with `s3cret` at 1700000000. -/
def helloDigest : HmacDigest where
  value := "8d0ca65f08b31b88330a6bd79fe698b12dd535e01326f35fb22ce7dd788fd954"
  length_eq := by decide +kernel
  hex := by decide +kernel

def helloBody : ByteArray := "\x7b\"hello\": \"world\"\x7d".toUTF8

def helloTime : Binary64 where
  units := Binary64.scaled 1700000000
  fits := by decide +kernel
  bounded := by decide +kernel

/-- A number too large for a double, a timestamp after a no-break space and a signature
outside ASCII each raise. -/
theorem verify_raises :
    (plain helloDigest).verify "s3cret" (some (String.ofList ('1' :: List.replicate 309 '0')))
      (some ("sha256=" ++ helloDigest.value)) helloBody helloTime 300 = .error .overflowError ∧
    (plain helloDigest).verify "s3cret" (some "\u00a01700000000")
      (some ("sha256=" ++ helloDigest.value)) helloBody helloTime 300 = .error .unicodeEncodeError ∧
    (plain helloDigest).verify "s3cret" (some "1700000000")
      (some ("sha256=" ++ String.ofList (List.replicate 64 'é'))) helloBody helloTime 300 = .error .typeError := by
  have hstrip : ((String.ofList ('1' :: List.replicate 309 '0')).toList.dropWhile intSpace).rdropWhile intSpace =
      '1' :: List.replicate 309 '0' := by
    rw [String.toList_ofList]
    decide +kernel
  have hvalue : (plain helloDigest).unsigned ('1' :: List.replicate 309 '0') = some (10 ^ 309) := by decide +kernel
  have hn : (plain helloDigest).int (String.ofList ('1' :: List.replicate 309 '0')) = some ((10 ^ 309 : ℕ) : ℤ) := by
    rw [int_unsigned hstrip (by decide) (by decide), hvalue]
    rfl
  have hlarge : Binary64.ofInt ((10 ^ 309 : ℕ) : ℤ) = none := Binary64.ofInt_eq_none_iff.mpr (by decide +kernel)
  refine ⟨verify_overflow (by decide) hn (by decide +kernel) hlarge,?_,?_⟩
  · decide +kernel
  · decide +kernel

/-! ## What an accepted request says -/

section Accepted
variable {secret ts ts' hex s : String} {body body' : ByteArray} {now : Binary64} {tolerance n : ℤ}

theorem verify_accepted {timestamp signature : String}
    (h : v.verify secret (some timestamp) (some signature) body now tolerance = .ok none) :
    ∃ n sent, v.int timestamp = some n ∧ Binary64.ofInt n = some sent ∧
      Binary64.absExceeds (now.sub sent) tolerance = false ∧
      v.computeSignature secret timestamp body = .ok (v.lower signature) := by
  by_cases hpassed : ∃ timestamp' signature' n, secret ≠ "" ∧ some timestamp = some timestamp' ∧
      some signature = some signature' ∧ v.int timestamp' = some n ∧ signatureShape signature' = true
  · obtain ⟨timestamp',signature',n,hsecret,hts,hsig,hn,hshape⟩ := hpassed
    cases hts
    cases hsig
    cases hsent : Binary64.ofInt n with
    | none =>
      rw [verify_overflow hsecret hn hshape hsent] at h
      cases h
    | some sent =>
      rw [verify_checked hsecret hn hshape hsent] at h
      split at h
      · cases h
      · next hwindow => exact ⟨n,sent,hn,hsent,by simpa using hwindow,compareSignature_none h⟩
  · obtain ⟨failure,hfailure⟩ := verify_structural v secret body now tolerance hpassed
    rw [hfailure] at h
    cases h

theorem toLower_ascii {c : Char} (h : c.toLower.toNat < 128) : c.toNat < 128 := by
  unfold Char.toLower at h
  split at h
  · next hupper =>
    exact Nat.lt_of_le_of_lt (UInt32.le_iff_toNat_le.mp hupper.2) (by decide)
  · exact h

/-- Lower-casing undoes what was changed in the case of the hexadecimal digits. -/
theorem lower_signature (ha : isAscii ("sha256=" ++ String.ofList (hex.toList.map Char.toLower)) = true) :
    v.lower ("sha256=" ++ hex) = "sha256=" ++ String.ofList (hex.toList.map Char.toLower) := by
  have hhex : isAscii ("sha256=" ++ hex) = true := by
    rw [isAscii_append, Bool.and_eq_true] at ha ⊢
    refine ⟨ha.1,?_⟩
    apply List.all_eq_true.mpr
    intro c hc
    have hlower := List.all_eq_true.mp ha.2 c.toLower (by
      rw [String.toList_ofList]
      exact List.mem_map_of_mem hc)
    exact decide_eq_true (toLower_ascii (of_decide_eq_true hlower))
  rw [v.lower_ascii _ hhex, String.toList_append, List.map_append, String.ofList_append]
  rfl

/-- A signature is good for one timestamp, one body and a time near the timestamp. The window
is the one of doubles; from the tolerance on, and as long as whole seconds are exact, it is
the one of numbers too. -/
theorem verify_binds (ha : isAscii ts = true) (hn : v.int ts = some n)
    (hs : v.computeSignature secret ts body = .ok s)
    (hcase : s = "sha256=" ++ String.ofList (hex.toList.map Char.toLower))
    (hinj : Set.InjOn (v.hmacSha256 secret.toUTF8) {signedString ts body,signedString ts' body'})
    (h : v.verify secret (some ts') (some ("sha256=" ++ hex)) body' now tolerance = .ok none) :
    ts' = ts ∧ body' = body ∧
      (∃ sent, Binary64.ofInt n = some sent ∧ Binary64.absExceeds (now.sub sent) tolerance = false) ∧
      (Binary64.scaled tolerance ≤ now.units → now.units < 2 ^ 52 * Binary64.one →
        |now.units - Binary64.scaled n| ≤ Binary64.scaled tolerance) ∧
      ∀ other split, isAscii other = true → (v.int other).isSome → signedString other split = signedString ts body →
        other = ts ∧ split = body := by
  obtain ⟨n',sent,hn',hsent,hwindow,hexpected⟩ := verify_accepted h
  have ha' := computeSignature_ascii hexpected
  rw [computeSignature_eq ha] at hs
  rw [computeSignature_eq ha'] at hexpected
  have hascii : isAscii s = true := Except.ok.inj hs ▸ HmacDigest.ascii _
  rw [lower_signature (hcase ▸ hascii), ← hcase, ← hs] at hexpected
  have hdigest : v.hmacSha256 secret.toUTF8 (signedString ts' body') =
      v.hmacSha256 secret.toUTF8 (signedString ts body) := by
    apply HmacDigest.ext
    exact (String.append_right_inj _).mp (Except.ok.inj hexpected)
  have hmessage := hinj (Set.mem_insert_of_mem _ rfl) (Set.mem_insert _ _) hdigest
  obtain ⟨rfl,rfl⟩ := signedString_injective ha' ha hn' hn hmessage
  rw [hn] at hn'
  cases hn'
  refine ⟨rfl,rfl,⟨sent,hsent,hwindow⟩,?_,?_⟩
  · intro hlow hhigh
    have hpos : 0 ≤ Binary64.scaled tolerance := by
      obtain ⟨_,_,hle⟩ := Binary64.not_absExceeds hwindow
      exact le_trans (Int.natCast_nonneg _) hle
    have hnow : 0 ≤ now.units := le_trans hpos hlow
    refine Binary64.sub_ofInt_exact hsent hlow hnow ?_ hwindow
    omega
  · intro other split hother hsome hsplit
    obtain ⟨m,hm⟩ := Option.isSome_iff_exists.mp hsome
    exact signedString_injective hother ha hm hn hsplit

/-- The signature in capitals is good for the signed request. -/
theorem verify_binds_capitals :
    |helloTime.units - Binary64.scaled 1700000000| ≤ Binary64.scaled 300 ∧
    ∀ other split, isAscii other = true → ((plain helloDigest).int other).isSome →
      signedString other split = signedString "1700000000" helloBody → other = "1700000000" ∧ split = helloBody := by
  have hsigned : (plain helloDigest).computeSignature "s3cret" "1700000000" helloBody =
      .ok ("sha256=" ++ helloDigest.value) := by decide +kernel
  have haccepted : (plain helloDigest).verify "s3cret" (some "1700000000")
      (some ("sha256=" ++ "8D0CA65F08B31B88330A6BD79FE698B12DD535E01326F35FB22CE7DD788FD954"))
      helloBody helloTime 300 = .ok none := by decide +kernel
  have hinj : Set.InjOn ((plain helloDigest).hmacSha256 "s3cret".toUTF8)
      {signedString "1700000000" helloBody,signedString "1700000000" helloBody} := by
    rw [Set.pair_eq_singleton]
    exact Set.injOn_singleton _ _
  obtain ⟨_,_,_,hclose,hsplit⟩ := verify_binds (n := 1700000000) (by decide +kernel) (by decide +kernel) hsigned
    (by decide +kernel) hinj haccepted
  exact ⟨hclose (by decide +kernel) (by decide +kernel),hsplit⟩

/-- The digest of the same body at -299. -/
def earlyDigest : HmacDigest where
  value := "cef29d61d83dc1ea5f2f35a2103638f722856a67bbe350891b47c7f9511a4853"
  length_eq := by decide +kernel
  hex := by decide +kernel

/-- The first double after 1. -/
def earlyTime : Binary64 where
  units := Binary64.scaled 1 + 2 ^ 1022
  fits := by decide +kernel
  bounded := by decide +kernel

/-- Rounding brings a difference of a little more than the tolerance into the window. -/
theorem window_rounds : isAscii "-299" = true ∧ (plain earlyDigest).int "-299" = some (-299) ∧
    (plain earlyDigest).computeSignature "s3cret" "-299" helloBody = .ok ("sha256=" ++ earlyDigest.value) ∧
    Set.InjOn ((plain earlyDigest).hmacSha256 "s3cret".toUTF8)
      {signedString "-299" helloBody,signedString "-299" helloBody} ∧
    (plain earlyDigest).verify "s3cret" (some "-299") (some ("sha256=" ++ earlyDigest.value)) helloBody
      earlyTime 300 = .ok none ∧
    Binary64.scaled 300 < |earlyTime.units - Binary64.scaled (-299)| := by
  refine ⟨?_,?_,?_,?_,?_,?_⟩
  · decide +kernel
  · decide +kernel
  · decide +kernel
  · rw [Set.pair_eq_singleton]
    exact Set.injOn_singleton _ _
  · decide +kernel
  · decide +kernel

end Accepted
end Verifier
end ConversionGateway
