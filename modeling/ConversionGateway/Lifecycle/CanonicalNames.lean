import ConversionGateway.Lifecycle.CanonicalEmail

/-! # Canonical names and streets

Both are mapped to lower case, decomposed, stripped of nonspacing marks and of
punctuation, in this order, and split into words. The decomposition can bring capitals
back, and what is taken out after it can leave combining characters in an order that a
second decomposition changes.
-/
namespace ConversionGateway
open Unicode

/-- The interpreter decomposes and classifies by the tables. -/
structure Runtime.Decomposes (rt : Runtime) (u : DecompositionTables) : Prop where
  nfkd : ∀ s, rt.nfkd s = String.ofList (u.nfkd s.toList)
  category : ∀ c, rt.category c = u.category c

/-- Neither a nonspacing mark nor punctuation. -/
def Kept (rt : Runtime) (c : Char) : Prop := rt.category c ≠ "Mn" ∧ (rt.category c).toList.head? ≠ some 'P'

instance (rt : Runtime) (c : Char) : Decidable (Kept rt c) := inferInstanceAs (Decidable (_ ∧ _))

/-- The text whose words are a name or a street. -/
def folded (rt : Runtime) (raw : String) : List Char :=
  (stripPunctuation rt (stripAccents rt (rt.lower (Text.strip raw)))).toList

/-- In lower case, without punctuation and nonspacing marks, and not empty. -/
structure CanonicalText (rt : Runtime) (v : String) : Prop where
  nonempty : v ≠ ""
  lowercase : rt.lower v = v
  kept : ∀ c ∈ v.toList, Kept rt c

structure CanonicalName (rt : Runtime) (v : String) : Prop extends CanonicalText rt v where
  spaceless : Text.Spaceless v.toList

structure CanonicalStreet (rt : Runtime) (v : String) : Prop extends CanonicalText rt v where
  blanks : ∀ c ∈ v.toList, Text.isSpace c = true → c = ' '
  trimmed : Text.Trimmed v.toList
  single : v.toList.IsChain fun c d => Text.isSpace c = true → Text.isSpace d = false
  fixed : normaliseStreet rt (some v) = .ok v

/-- No character of the trimmed text in lower case is decomposed into a capital that is kept. -/
def NoCapitals (rt : Runtime) (t : CaseTables) (u : DecompositionTables) (raw : String) : Prop :=
  ∀ c ∈ (rt.lower (Text.strip raw)).toList, ∀ d ∈ u.decompose c, Kept rt d → t.Lowercase d

/-- Combining characters of the decomposed text that come together because what stood
between them is taken out are in canonical order. -/
def StaysOrdered (rt : Runtime) (u : DecompositionTables) (raw : String) : Prop :=
  ∀ front d gap c back, u.nfkd (rt.lower (Text.strip raw)).toList = front ++ d :: (gap ++ c :: back) →
    Kept rt d → Kept rt c → (∀ e ∈ gap, ¬ Kept rt e) →
      ¬ (0 < u.combiningClass c ∧ u.combiningClass c < u.combiningClass d)

section Folded
variable {rt : Runtime} {t : CaseTables} {u : DecompositionTables} {raw v : String} {ts : List (List Char)}

theorem folded_eq (hu : rt.Decomposes u) (raw : String) :
    folded rt raw = (u.nfkd (rt.lower (Text.strip raw)).toList).filter fun c => Kept rt c := by
  simp only [folded, stripPunctuation, stripAccents, hu.nfkd, String.toList_ofList, List.filter_filter]
  refine List.filter_congr fun c _ => ?_
  rw [Bool.and_comm, Bool.eq_iff_iff, decide_eq_true_eq]
  simp [Kept]

theorem mem_folded (hu : rt.Decomposes u) {c : Char} : c ∈ folded rt raw ↔
    (∃ d ∈ (rt.lower (Text.strip raw)).toList, c ∈ u.decompose d) ∧ Kept rt c := by
  rw [folded_eq hu, List.mem_filter, DecompositionTables.mem_nfkd, decide_eq_true_eq]

theorem noCapitals_iff (hu : rt.Decomposes u) :
    NoCapitals rt t u raw ↔ ∀ c ∈ folded rt raw, t.Lowercase c := by
  constructor
  · intro h c hc
    obtain ⟨⟨d,hd,hcd⟩,hkept⟩ := (mem_folded hu).mp hc
    exact h d hd c hcd hkept
  · intro h c hc d hd hkept
    exact h d ((mem_folded hu).mpr ⟨⟨c,hc,hd⟩,hkept⟩)

/-- Whitespace has no capitals, so the words decide. -/
theorem noCapitals_tokens (hu : rt.Decomposes u) :
    NoCapitals rt t u raw ↔ ∀ word ∈ Text.tokens (folded rt raw), ∀ c ∈ word, t.Lowercase c := by
  rw [noCapitals_iff hu]
  have hmem : ∀ c, (∃ word ∈ Text.tokens (folded rt raw), c ∈ word) ↔ c ∈ folded rt raw ∧ Text.isSpace c = false := by
    intro c
    rw [← List.mem_flatten, Text.tokens_flatten, List.mem_filter, Bool.not_eq_true']
  constructor
  · intro h word hword c hc
    exact h c ((hmem c).mp ⟨word,hword,hc⟩).1
  · intro h c hc
    cases hspace : Text.isSpace c with
    | true => exact t.lowercase_space hspace
    | false =>
      obtain ⟨word,hword,hcw⟩ := (hmem c).mpr ⟨hc,hspace⟩
      exact h word hword c hcw

theorem mem_word (hu : rt.Decomposes u) {word : List Char} (hword : word ∈ Text.tokens (folded rt raw)) {c : Char}
    (hc : c ∈ word) : Kept rt c ∧ u.decompose c = [c] := by
  have hfolded : c ∈ folded rt raw := by
    have hflat : c ∈ (Text.tokens (folded rt raw)).flatten := List.mem_flatten.mpr ⟨word,hword,hc⟩
    rw [Text.tokens_flatten] at hflat
    exact (List.mem_filter.mp hflat).1
  obtain ⟨⟨d,_,hcd⟩,hkept⟩ := (mem_folded hu).mp hfolded
  exact ⟨hkept,u.decompose_full d c hcd⟩

theorem ite_eq_ok {p : Prop} [Decidable p] {e : RejectionReason} {w : String} :
    (if p then Except.error e else Except.ok v) = Except.ok w ↔ ¬ p ∧ w = v := by
  split
  · next hp =>
    constructor
    · intro h
      cases h
    · exact fun h => absurd hp h.1
  · next hp => exact ⟨fun h => ⟨hp,(Except.ok.inj h).symm⟩,fun h => congrArg Except.ok h.2.symm⟩

/-! ## Names -/

/-- The words of a name: those that are no title or suffix. -/
def nameWords (rt : Runtime) (raw : String) : List (List Char) :=
  (Text.tokens (folded rt raw)).filter fun word => String.ofList word ∉ stripTokens

theorem normaliseName_ok : normaliseName rt (some raw) = .ok v ↔
    nameWords rt raw ≠ [] ∧ v = String.ofList (nameWords rt raw).flatten := by
  simp only [normaliseName, nameWords, folded]
  exact ite_eq_ok

/-- Titles and suffixes are written in lower case. -/
theorem stripTokens_lowercase {word : List Char} (h : String.ofList word ∈ stripTokens) :
    ∀ c ∈ word, t.Lowercase c := by
  have hall : ∀ s ∈ stripTokens, ∀ c ∈ s.toList, c.toNat < 128 ∧ c.toLower = c := by
    have hdecide : (stripTokens.all fun s => s.toList.all fun c => c.toNat < 128 ∧ c.toLower = c) = true := by
      decide +kernel
    exact fun s hs => List.all_iff_forall_prop.mp (List.all_eq_true.mp hdecide s hs)
  intro c hc
  have hc' := hall _ h c (by rwa [String.toList_ofList])
  exact CaseTables.lowercase_ascii hc'.1 hc'.2

/-- Every accepted name is canonical exactly if nothing in it is decomposed into a capital. -/
theorem normaliseName_canonical (ht : rt.MapsCase t) (hu : rt.Decomposes u) (raw : String) :
    (∀ v, normaliseName rt (some raw) = .ok v → CanonicalName rt v) ↔ NoCapitals rt t u raw := by
  rw [noCapitals_tokens hu]
  constructor
  · intro hall word hword c hc
    by_cases hstrip : String.ofList word ∈ stripTokens
    · exact stripTokens_lowercase hstrip c hc
    · have hkept : word ∈ nameWords rt raw := List.mem_filter.mpr ⟨hword,by simpa using hstrip⟩
      have hcanonical := hall _ (normaliseName_ok.mpr ⟨List.ne_nil_of_mem hkept,rfl⟩)
      refine ht.lower_eq_self.mp hcanonical.lowercase c ?_
      rw [String.toList_ofList]
      exact List.mem_flatten.mpr ⟨word,hkept,hc⟩
  · intro hlower v hv
    obtain ⟨hne,rfl⟩ := normaliseName_ok.mp hv
    have hword {c : Char} (hc : c ∈ (String.ofList (nameWords rt raw).flatten).toList) :
        ∃ word ∈ Text.tokens (folded rt raw), c ∈ word := by
      rw [String.toList_ofList] at hc
      obtain ⟨word,hword,hc⟩ := List.mem_flatten.mp hc
      exact ⟨word,(List.mem_filter.mp hword).1,hc⟩
    refine ⟨⟨?_,ht.lower_eq_self.mpr ?_,?_⟩,?_⟩
    · intro hempty
      obtain ⟨word,hmem⟩ := List.exists_mem_of_ne_nil _ hne
      have hnil : word = [] := by
        rw [String.ofList_eq_empty_iff] at hempty
        exact List.flatten_eq_nil_iff.mp hempty word hmem
      exact (Text.tokens_spec _ word (List.mem_filter.mp hmem).1).1 hnil
    · intro c hc
      obtain ⟨word,hmem,hc⟩ := hword hc
      exact hlower word hmem c hc
    · intro c hc
      obtain ⟨word,hmem,hc⟩ := hword hc
      exact (mem_word hu hmem hc).1
    · intro c hc
      obtain ⟨word,hmem,hc⟩ := hword hc
      exact (Text.tokens_spec _ word hmem).2 c hc

/-! ## Streets -/

theorem normaliseStreet_ok : normaliseStreet rt (some raw) = .ok v ↔
    Text.tokens (folded rt raw) ≠ [] ∧ v = String.ofList (Text.joined (Text.tokens (folded rt raw))) := by
  simp only [normaliseStreet, folded, Text.joined]
  exact ite_eq_ok

theorem kept_blank (hu : rt.Decomposes u) : Kept rt ' ' := by
  unfold Kept
  rw [hu.category, u.category_blank]
  decide

/-- Words in lower case that are decomposed and kept are only reordered, one by one. -/
theorem folded_joined (ht : rt.MapsCase t) (hu : rt.Decomposes u) (hts : ∀ word ∈ ts, word ≠ [] ∧ Text.Spaceless word)
    (hwords : ∀ word ∈ ts, ∀ c ∈ word, t.Lowercase c ∧ Kept rt c ∧ u.decompose c = [c]) :
    folded rt (String.ofList (Text.joined ts)) = Text.joined (ts.map u.reorder) := by
  have hall : ∀ c ∈ Text.joined ts, t.Lowercase c ∧ Kept rt c ∧ u.decompose c = [c] := by
    intro c hc
    rcases Text.mem_joined hc with rfl | ⟨word,hword,hc⟩
    · exact ⟨t.lowercase_space (by decide),kept_blank hu,u.decompose_blank⟩
    · exact hwords word hword c hc
  have hstrip : Text.strip (String.ofList (Text.joined ts)) = String.ofList (Text.joined ts) := by
    rw [strip_eq_self, String.toList_ofList]
    exact (Text.joined_trimmed hts).1
  have hlower : rt.lower (String.ofList (Text.joined ts)) = String.ofList (Text.joined ts) := by
    refine ht.lower_eq_self.mpr fun c hc => ?_
    rw [String.toList_ofList] at hc
    exact (hall c hc).1
  rw [folded_eq hu, hstrip, hlower, String.toList_ofList, DecompositionTables.nfkd_of_full fun c hc => (hall c hc).2.2,
    List.filter_eq_self.mpr, DecompositionTables.reorder_joined]
  intro c hc
  simpa using (hall c (DecompositionTables.mem_reorder.mp hc)).2.1

/-- Words are their own street if each is in canonical order. -/
theorem normaliseStreet_joined (ht : rt.MapsCase t) (hu : rt.Decomposes u) (hne : ts ≠ [])
    (hts : ∀ word ∈ ts, word ≠ [] ∧ Text.Spaceless word)
    (hwords : ∀ word ∈ ts, ∀ c ∈ word, t.Lowercase c ∧ Kept rt c ∧ u.decompose c = [c]) :
    normaliseStreet rt (some (String.ofList (Text.joined ts))) = .ok (String.ofList (Text.joined ts)) ↔
      ∀ word ∈ ts, u.Ordered word := by
  have hreordered : ∀ word ∈ ts.map u.reorder, word ≠ [] ∧ Text.Spaceless word := by
    intro word hword
    obtain ⟨old,hold,rfl⟩ := List.mem_map.mp hword
    obtain ⟨hnil,hspaceless⟩ := hts old hold
    refine ⟨?_,fun c hc => hspaceless c (DecompositionTables.mem_reorder.mp hc)⟩
    obtain ⟨c,hc⟩ := List.exists_mem_of_ne_nil old hnil
    exact List.ne_nil_of_mem (DecompositionTables.mem_reorder.mpr hc)
  rw [normaliseStreet_ok, folded_joined ht hu hts hwords, Text.tokens_joined hreordered]
  constructor
  · rintro ⟨_,heq⟩ word hword
    have hlist := congrArg String.toList heq
    rw [String.toList_ofList, String.toList_ofList] at hlist
    have hmap := congrArg Text.tokens hlist
    rw [Text.tokens_joined hts, Text.tokens_joined hreordered] at hmap
    have hself := List.map_eq_map_iff.mp ((List.map_id ts).trans hmap) word hword
    exact DecompositionTables.reorder_eq_self.mp hself.symm
  · intro hordered
    have hmap : ts.map u.reorder = ts :=
      (List.map_congr_left fun word hword => DecompositionTables.reorder_eq_self.mpr (hordered word hword)).trans
        (List.map_id' ts)
    rw [hmap]
    exact ⟨hne,rfl⟩

/-- Every accepted street is canonical exactly if nothing in it is decomposed into a capital
and what is kept stays in order. -/
theorem normaliseStreet_canonical (ht : rt.MapsCase t) (hu : rt.Decomposes u) (raw : String) :
    (∀ v, normaliseStreet rt (some raw) = .ok v → CanonicalStreet rt v) ↔
      NoCapitals rt t u raw ∧ StaysOrdered rt u raw := by
  have hwords := Text.tokens_spec (folded rt raw)
  have hordered : StaysOrdered rt u raw ↔ ∀ word ∈ Text.tokens (folded rt raw), u.Ordered word := by
    rw [← DecompositionTables.ordered_tokens, folded_eq hu, DecompositionTables.Ordered, Text.isChain_filter_iff]
    simp only [StaysOrdered, decide_eq_true_eq, decide_eq_false_iff_not]
  rw [noCapitals_tokens hu, hordered]
  by_cases hne : Text.tokens (folded rt raw) = []
  · rw [hne]
    refine iff_of_true (fun v hv => ?_) ⟨by simp,by simp⟩
    exact absurd hne (normaliseStreet_ok.mp hv).1
  have hok := normaliseStreet_ok.mpr ⟨hne,rfl⟩
  have hlower : rt.lower (String.ofList (Text.joined (Text.tokens (folded rt raw)))) =
      String.ofList (Text.joined (Text.tokens (folded rt raw))) ↔
      ∀ word ∈ Text.tokens (folded rt raw), ∀ c ∈ word, t.Lowercase c := by
    rw [ht.lower_eq_self, String.toList_ofList]
    constructor
    · exact fun h word hword c hc => h c (Text.mem_joined_of_mem hword hc)
    · intro h c hc
      rcases Text.mem_joined hc with rfl | ⟨word,hword,hc⟩
      · exact t.lowercase_space (by decide)
      · exact h word hword c hc
  have hfixed (h : ∀ word ∈ Text.tokens (folded rt raw), ∀ c ∈ word, t.Lowercase c) :=
    normaliseStreet_joined ht hu hne hwords fun word hword c hc => ⟨h word hword c hc,mem_word hu hword hc⟩
  constructor
  · intro hall
    have hcanonical := hall _ hok
    have hl := hlower.mp hcanonical.lowercase
    exact ⟨hl,(hfixed hl).mp hcanonical.fixed⟩
  · rintro ⟨hl,ho⟩ v hv
    obtain ⟨_,rfl⟩ := normaliseStreet_ok.mp hv
    obtain ⟨htrimmed,hsingle⟩ := Text.joined_trimmed hwords
    have hlist : (String.ofList (Text.joined (Text.tokens (folded rt raw)))).toList =
        Text.joined (Text.tokens (folded rt raw)) := String.toList_ofList
    refine ⟨⟨?_,hlower.mpr hl,?_⟩,?_,?_,?_,(hfixed hl).mpr ho⟩
    · intro hempty
      obtain ⟨word,hmem⟩ := List.exists_mem_of_ne_nil _ hne
      obtain ⟨c,hc⟩ := List.exists_mem_of_ne_nil word (hwords word hmem).1
      rw [String.ofList_eq_empty_iff] at hempty
      exact List.ne_nil_of_mem (Text.mem_joined_of_mem hmem hc) hempty
    · rw [hlist]
      intro c hc
      rcases Text.mem_joined hc with rfl | ⟨word,hword,hc⟩
      · exact kept_blank hu
      · exact (mem_word hu hword hc).1
    · rw [hlist]
      intro c hc hspace
      rcases Text.mem_joined hc with rfl | ⟨word,hword,hc⟩
      · rfl
      · rw [(hwords word hword).2 c hc] at hspace
        cases hspace
    · rw [hlist]
      exact htrimmed
    · rw [hlist]
      exact hsingle

end Folded

/-- Every accepted name is canonical exactly if nothing in it is decomposed into a capital,
and every accepted street exactly if what is kept of it moreover stays in order. -/
theorem canonicalText_iff {rt : Runtime} {t : CaseTables} {u : DecompositionTables} (ht : rt.MapsCase t)
    (hu : rt.Decomposes u) (raw : String) :
    ((∀ v, normaliseName rt (some raw) = .ok v → CanonicalName rt v) ↔ NoCapitals rt t u raw) ∧
    ((∀ v, normaliseStreet rt (some raw) = .ok v → CanonicalStreet rt v) ↔
      NoCapitals rt t u raw ∧ StaysOrdered rt u raw) :=
  ⟨normaliseName_canonical ht hu raw,normaliseStreet_canonical ht hu raw⟩

/-- The decompositions, classes and categories of ASCII, of the letter e with an acute, of
the numero sign, and of two combining characters of a spacing kind. -/
def latinDecomposition : DecompositionTables where
  decompose c := if c = 'é' then ['e',Char.ofNat 0x301] else if c = '№' then ['N','o'] else [c]
  combiningClass c := if c.toNat = 0x301 then 230 else if c.toNat = 0x1D16D then 226 else if c.toNat = 0x302E then 224 else 0
  category c :=
    if c = ' ' then "Zs" else if c.toNat = 0x301 then "Mn"
    else if c.toNat = 0x1D16D ∨ c.toNat = 0x302E then "Mc"
    else if c.isUpper then "Lu" else if c.isDigit then "Nd"
    else if "!\"#%&'()*,-./:;?@[\\]_\x7b\x7d".toList.contains c then "Po" else "Ll"
  decompose_full := by
    intro c d hd
    split at hd
    · rcases List.mem_cons.mp hd with rfl | hd
      · decide
      · obtain rfl := List.mem_singleton.mp hd
        decide
    · split at hd
      · rcases List.mem_cons.mp hd with rfl | hd
        · decide
        · obtain rfl := List.mem_singleton.mp hd
          decide
      · next hc hn =>
        obtain rfl := List.mem_singleton.mp hd
        rw [if_neg hc, if_neg hn]
  decompose_blank := by decide
  class_space := by
    intro c hc
    have hnat (n : ℕ) (hn : Text.isSpace (Char.ofNat n) = false) : c.toNat ≠ n := by
      rintro rfl
      rw [Char.ofNat_toNat, hc] at hn
      cases hn
    rw [if_neg (hnat _ (by decide)), if_neg (hnat _ (by decide)), if_neg (hnat _ (by decide))]
  category_blank := rfl

def decomposingRuntime : Runtime :=
  { latinRuntime with
    nfkd := fun s => String.ofList (latinDecomposition.nfkd s.toList)
    category := latinDecomposition.category }

theorem decomposingRuntime_mapsCase : decomposingRuntime.MapsCase latinCase :=
  ⟨latinRuntime_mapsCase.lower,latinRuntime_mapsCase.upper,latinRuntime_mapsCase.alpha_ascii⟩

theorem decomposingRuntime_decomposes : decomposingRuntime.Decomposes latinDecomposition :=
  ⟨fun _ => rfl,fun _ => rfl⟩

/-- Both conditions can be computed for a text whose combining characters are all taken out. -/
theorem decomposingRuntime_conditions (raw : String)
    (hlower : ((decomposingRuntime.lower (Text.strip raw)).toList.all fun c =>
      (latinDecomposition.decompose c).all fun d => Kept decomposingRuntime d → latinCase.lowerFull d = [d]) = true)
    (hclass : ((latinDecomposition.nfkd (decomposingRuntime.lower (Text.strip raw)).toList).all fun c =>
      Kept decomposingRuntime c → latinDecomposition.combiningClass c = 0) = true) :
    NoCapitals decomposingRuntime latinCase latinDecomposition raw ∧
      StaysOrdered decomposingRuntime latinDecomposition raw := by
  constructor
  · have hall : ∀ c ∈ (decomposingRuntime.lower (Text.strip raw)).toList,
        ∀ d ∈ latinDecomposition.decompose c, Kept decomposingRuntime d → latinCase.lowerFull d = [d] :=
      fun c hc => List.all_iff_forall_prop.mp (List.all_eq_true.mp hlower c hc)
    exact hall
  · intro front d gap c back heq _ hc _ hpos
    have hzero := List.all_iff_forall_prop.mp hclass c (by rw [heq]; simp) hc
    exact hpos.1.ne' hzero

/-- The theorem for a name with a title and an accent, and for a street. -/
theorem canonicalText_iff_accent :
    normaliseName decomposingRuntime (some " Dr. Renée O'Brien ") = .ok "reneeobrien" ∧
    CanonicalName decomposingRuntime "reneeobrien" ∧
    normaliseStreet decomposingRuntime (some " 12, Allée  d'Orée ") = .ok "12 allee doree" ∧
    CanonicalStreet decomposingRuntime "12 allee doree" := by
  have hname : normaliseName decomposingRuntime (some " Dr. Renée O'Brien ") = .ok "reneeobrien" := by
    decide +kernel
  have hstreet : normaliseStreet decomposingRuntime (some " 12, Allée  d'Orée ") = .ok "12 allee doree" := by
    decide +kernel
  have hnames := (canonicalText_iff decomposingRuntime_mapsCase decomposingRuntime_decomposes " Dr. Renée O'Brien ").1
  have hstreets := (canonicalText_iff decomposingRuntime_mapsCase decomposingRuntime_decomposes " 12, Allée  d'Orée ").2
  have hcapitals := (decomposingRuntime_conditions " Dr. Renée O'Brien " (by decide +kernel) (by decide +kernel)).1
  have hboth := decomposingRuntime_conditions " 12, Allée  d'Orée " (by decide +kernel) (by decide +kernel)
  exact ⟨hname,hnames.mpr hcapitals _ hname,hstreet,hstreets.mpr hboth _ hstreet⟩

/-- Two combining characters that are out of order, with or without a hyphen between them. -/
def marks (hyphen : Bool) : String :=
  String.ofList (['a',Char.ofNat 0x1D16D] ++ (if hyphen then ['-'] else []) ++ [Char.ofNat 0x302E])

/-- The decomposition of a numero sign is not in lower case, and a street with one has
another normal form. So has a street whose combining characters a hyphen kept apart. -/
theorem not_canonical_numero : normaliseName decomposingRuntime (some "№") = .ok "No" ∧
    ¬ CanonicalName decomposingRuntime "No" ∧
    normaliseStreet decomposingRuntime (some "№ 5") = .ok "No 5" ∧
    normaliseStreet decomposingRuntime (some "No 5") = .ok "no 5" ∧ ¬ CanonicalStreet decomposingRuntime "No 5" ∧
    normaliseStreet decomposingRuntime (some (marks true)) = .ok (marks false) ∧
    ¬ CanonicalStreet decomposingRuntime (marks false) := by
  have hagain : normaliseStreet decomposingRuntime (some "No 5") = .ok "no 5" := by decide +kernel
  refine ⟨by decide +kernel,fun h => ?_,by decide +kernel,hagain,fun h => ?_,by decide +kernel,fun h => ?_⟩
  · exact absurd h.lowercase (by decide +kernel)
  · have hsame := hagain.symm.trans h.fixed
    exact absurd (Except.ok.inj hsame) (by decide)
  · exact absurd h.fixed (by decide +kernel)

end ConversionGateway
