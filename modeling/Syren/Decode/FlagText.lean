import Syren.Decode.Flags
import Syren.Layout.NamedBits

/-! What the text of a set of flags tells of its value, when its names and its hexadecimal rest are
read back. -/
namespace Syren.Flags
open Text Layout

/-- The words that a text for an argument may use, with the constants they stand for. -/
def vocabulary (syscall arg : String) : List Flag :=
  if syscall ∈ ["open", "openat", "openat2"] ∧ arg = "flags" then
    [⟨"O_RDONLY", 0⟩, ⟨"O_WRONLY", 1⟩, ⟨"O_RDWR", 2⟩, ⟨"O_ACCMODE", 3⟩] ++ OPEN_FLAGS
  else if syscall ∈ ["mmap", "mprotect", "pkey_mprotect"] ∧ arg = "prot" then
    ⟨"PROT_NONE", 0⟩ :: PROT_FLAGS
  else [⟨"0", 0⟩, ⟨"MAP_SHARED_VALIDATE", 3⟩] ++ MAP_FLAGS

/-- A word, or else a hexadecimal number. -/
def readToken (words : List Flag) (token : List Char) : Option UInt64 :=
  ((words.find? (·.name.toList = token)).map Flag.bits).or
    (((stripStart ['0', 'x'] token).bind (parseUnsigned 64 16)).map UInt64.ofNat)

/-- The union of what the tokens of a text stand for. -/
def readBack (words : List Flag) (text : List Char) : Option UInt64 :=
  ((text.splitOn '|').mapM (readToken words)).map orAll

/-- Words that can be told from each other, from numbers and from the separator. -/
def Legible (words : List Flag) : Prop :=
  ∀ f ∈ words, '|' ∉ f.name.toList ∧ stripStart ['0', 'x'] f.name.toList = none ∧
    (words.find? (·.name.toList = f.name.toList)).map Flag.bits = some f.bits

instance (words : List Flag) : Decidable (Legible words) := by
  unfold Legible
  infer_instance

theorem legible_vocabulary (syscall arg : String) : Legible (vocabulary syscall arg) := by
  unfold vocabulary
  split_ifs <;> decide +kernel

variable {words set : List Flag} {value : UInt64}

/-- A piece of a text that stands for a value. -/
def Says (words : List Flag) (token : List Char) (value : UInt64) : Prop :=
  '|' ∉ token ∧ readToken words token = some value

theorem says_word (hwords : Legible words) {f : Flag} (hf : f ∈ words) :
    Says words f.name.toList f.bits := by
  obtain ⟨hbar, -, hfind⟩ := hwords f hf
  exact ⟨hbar, by simp [readToken, hfind]⟩

theorem says_hex (hwords : Legible words) (value : UInt64) :
    Says words (hex value.toNat) value := by
  constructor
  · simpa [hex] using notMem_toDigits (by decide) (fun _ => Nat.digitChar_ne '|' (by decide)) _
  · have hnone : words.find? (·.name.toList = hex value.toNat) = none := by
      rw [List.find?_eq_none]
      intro f hf hname
      have hstrip := (hwords f hf).2.1
      rw [of_decide_eq_true hname] at hstrip
      simp [hex, stripStart] at hstrip
    have hread : parseUnsigned 64 16 (Nat.toDigits 16 value.toNat) = some value.toNat :=
      parseUnsigned_toDigits (by decide) le_rfl value.toNat_lt
    rw [readToken, hnone, Option.map_none, Option.none_or]
    simp [hex, stripStart, hread]

/-- A text is read back token by token. -/
theorem readBack_intercalate {said : List (List Char × UInt64)} (hne : said ≠ [])
    (hsaid : ∀ p ∈ said, Says words p.1 p.2) :
    readBack words (['|'].intercalate (said.map Prod.fst)) =
      some (orAll (said.map Prod.snd)) := by
  have hbar : ∀ token ∈ said.map Prod.fst, '|' ∉ token := by
    intro token htoken
    obtain ⟨p, hp, rfl⟩ := List.mem_map.mp htoken
    exact (hsaid p hp).1
  have hread : (said.map Prod.fst).mapM (readToken words) = some (said.map Prod.snd) := by
    clear hne hbar
    induction said with
    | nil => rfl
    | cons p said ih =>
      simp only [List.map_cons, List.mapM_cons, (hsaid p List.mem_cons_self).2,
        ih fun q hq => hsaid q (List.mem_cons_of_mem _ hq)]
      rfl
  rw [readBack, List.splitOn_intercalate _ hbar (by simpa using hne), hread, Option.map_some]

/-- The names that are present in a value. -/
def present (set : List Flag) (value : UInt64) : List Flag :=
  set.filter fun f => f.bits ≠ 0 ∧ value &&& f.bits = f.bits

/-- The token for the bits that no name covers. -/
def rest (value : UInt64) : List (List Char × UInt64) :=
  if value ≠ 0 then [(hex value.toNat, value)] else []

/-- The tokens for the bits of a value that are not told by a leading token. -/
def said (set : List Flag) (value : UInt64) : List (List Char × UInt64) :=
  (present set value).map (fun f => (f.name.toList, f.bits)) ++ rest (value &&& ~~~covered set)

theorem says_said (hwords : Legible words) (hset : ∀ f ∈ set, f ∈ words) :
    ∀ p ∈ said set value, Says words p.1 p.2 := by
  intro p hp
  rcases List.mem_append.mp hp with hp | hp
  · obtain ⟨f, hf, rfl⟩ := List.mem_map.mp hp
    exact says_word hwords (hset f (List.mem_filter.mp hf).1)
  · unfold rest at hp
    split_ifs at hp with h
    · rw [List.mem_singleton.mp hp]
      exact says_hex hwords _
    · contradiction

/-- The groups of bits that have a name. -/
def groups (set : List Flag) : Set (Set ℕ) := {m | ∃ f ∈ set, m = bits f.bits}

theorem bits_covered (set : List Flag) : bits (covered set) = ⋃₀ groups set := by
  have hfold : covered set = orAll (set.map Flag.bits) := by
    rw [orAll, List.foldl_map]
    rfl
  ext i
  rw [hfold, mem_bits_orAll]
  simp [groups]

theorem bits_present (set : List Flag) (value : UInt64) :
    bits (orAll ((present set value).map Flag.bits)) =
      ⋃₀ {m ∈ groups set | m ⊆ bits value} := by
  ext i
  rw [mem_bits_orAll]
  constructor
  · rintro ⟨w, hw, hi⟩
    obtain ⟨f, hf, rfl⟩ := List.mem_map.mp hw
    obtain ⟨hmem, hkept⟩ := List.mem_filter.mp hf
    have hsub := and_eq_iff_subset.mp (of_decide_eq_true hkept).2
    exact ⟨bits f.bits, ⟨⟨f, hmem, rfl⟩, hsub⟩, hi⟩
  · rintro ⟨m, ⟨⟨f, hf, rfl⟩, hsub⟩, hi⟩
    have hne : f.bits ≠ 0 := by
      intro hzero
      simp [hzero] at hi
    have hkept : f ∈ present set value :=
      List.mem_filter.mpr ⟨hf, decide_eq_true ⟨hne, and_eq_iff_subset.mpr hsub⟩⟩
    exact ⟨f.bits, List.mem_map_of_mem hkept, hi⟩

theorem bits_rest (value : UInt64) : bits (orAll ((rest value).map Prod.snd)) = bits value := by
  by_cases hzero : value = 0 <;> simp [rest, orAll, hzero]

/-- What the tokens tell. -/
theorem bits_said (set : List Flag) (value : UInt64) :
    bits (orAll ((said set value).map Prod.snd)) = told (groups set) (bits value) := by
  have hmap : (said set value).map Prod.snd =
      (present set value).map Flag.bits ++ (rest (value &&& ~~~covered set)).map Prod.snd := by
    simp [said]
  rw [hmap, bits_orAll_append, bits_present, bits_rest, bits_and_not, bits_covered, told]

theorem intercalate_bar (token : List Char) (tokens : List (List Char)) :
    ['|'].intercalate (token :: tokens) = token ++ tokens.flatMap fun name => '|' :: name := by
  induction tokens generalizing token with
  | nil => simp
  | cons next tokens ih => simp [List.intercalate_cons_cons, ih]

theorem join_eq (lead : List Char) (masked : UInt64) :
    join lead (decodeBits set masked) masked set =
      ['|'].intercalate (lead :: (said set masked).map Prod.fst) := by
  have hrest : (rest (masked &&& ~~~covered set)).flatMap (fun p => '|' :: p.1) =
      if masked &&& ~~~covered set ≠ 0 then '|' :: hex (masked &&& ~~~covered set).toNat
      else [] := by
    unfold rest
    split_ifs <;> simp
  rw [intercalate_bar, join, ← hrest]
  simp [said, decodeBits, present, List.flatMap_map]

theorem renderSet_eq {zero : List Char} (hvalue : value ≠ 0) (hnamed : decodeBits set value ≠ []) :
    renderSet set value zero = ['|'].intercalate ((said set value).map Prod.fst) := by
  obtain ⟨lead, names, hnames⟩ := List.exists_cons_of_ne_nil hnamed
  have hmap : (said set value).map Prod.fst =
      decodeBits set value ++ (rest (value &&& ~~~covered set)).map Prod.fst := by
    simp [said, decodeBits, present]
  rw [renderSet, if_neg hvalue, hmap]
  simp only [hnames, List.cons_append, intercalate_bar, rest]
  split_ifs <;> simp_all

/-- Each name of the set is for a single bit. -/
def OneBit (set : List Flag) : Prop := ∀ f ∈ set, ∃ k : Fin 64, f.bits = ⟨BitVec.twoPow 64 k⟩

instance (set : List Flag) : Decidable (OneBit set) := by
  unfold OneBit
  infer_instance

theorem OneBit.subsingleton (h : OneBit set) : ∀ m ∈ groups set, m.Subsingleton := by
  rintro m ⟨f, hf, rfl⟩
  obtain ⟨k, hk⟩ := h f hf
  rw [hk, bits_shift k.isLt]
  exact Set.subsingleton_singleton

theorem OneBit.told_eq (h : OneBit set) (a : Set ℕ) : told (groups set) a = a :=
  told_eq_of_subsingleton h.subsingleton

theorem oneBit_PROT_FLAGS : OneBit PROT_FLAGS := by decide +kernel

theorem oneBit_MAP_FLAGS : OneBit MAP_FLAGS := by decide +kernel

theorem readBack_join (hwords : Legible words) (hset : ∀ f ∈ set, f ∈ words) {lead : Flag}
    (hlead : lead ∈ words) (masked : UInt64) :
    ∃ back, readBack words (join lead.name.toList (decodeBits set masked) masked set) =
      some back ∧ bits back = bits lead.bits ∪ told (groups set) (bits masked) := by
  have hsaid : ∀ p ∈ (lead.name.toList, lead.bits) :: said set masked, Says words p.1 p.2 := by
    intro p hp
    rcases List.mem_cons.mp hp with rfl | hp
    · exact says_word hwords hlead
    · exact says_said hwords hset p hp
  have hread := readBack_intercalate (List.cons_ne_nil _ _) hsaid
  rw [List.map_cons] at hread
  rw [join_eq, hread]
  exact ⟨_, rfl, by rw [List.map_cons, bits_orAll_cons, bits_said]⟩

theorem readBack_renderSet (hwords : Legible words) (hset : ∀ f ∈ set, f ∈ words)
    (hone : OneBit set) (zero : Flag) (hzero : zero ∈ words) (hbits : zero.bits = 0)
    (value : UInt64) : readBack words (renderSet set value zero.name.toList) = some value := by
  have hsingle (token : List Char) (v : UInt64) (h : Says words token v) :
      readBack words token = some v := by
    have hsaid : ∀ p ∈ [(token, v)], Says words p.1 p.2 := by simpa using h
    simpa [orAll] using readBack_intercalate (by simp) hsaid
  by_cases hvalue : value = 0
  · rw [renderSet, if_pos hvalue, hsingle _ _ (says_word hwords hzero), hbits, hvalue]
  by_cases hnamed : decodeBits set value = []
  · rw [renderSet, if_neg hvalue]
    simp only [hnamed, if_true]
    exact hsingle _ _ (says_hex hwords value)
  · have hne : said set value ≠ [] := by
      intro h
      have hpresent := (List.append_eq_nil_iff.mp h).1
      exact hnamed (by simpa [decodeBits, present] using hpresent)
    rw [renderSet_eq hvalue hnamed, readBack_intercalate hne (says_said hwords hset)]
    congr 1
    apply bits_injective
    rw [bits_said, hone.told_eq]

/-- The bits of the names of two bits come with their lower bit, which has a name of its own. -/
def Whole (value : UInt64) : Prop :=
  (value &&& 0o4000000 ≠ 0 → value &&& 0o10000 ≠ 0) ∧
    (value &&& 0o20000000 ≠ 0 → value &&& 0o200000 ≠ 0)

instance (value : UInt64) : Decidable (Whole value) := by
  unfold Whole
  infer_instance

theorem and_bit_ne_zero {k : ℕ} (hk : k < 64) :
    value &&& ⟨BitVec.twoPow 64 k⟩ ≠ 0 ↔ k ∈ bits value := by
  rw [Ne, ← bits_eq_empty, bits_and, bits_shift hk, Set.inter_singleton_eq_empty, not_not]

theorem whole_iff : Whole value ↔
    (20 ∈ bits value → 12 ∈ bits value) ∧ (22 ∈ bits value → 16 ∈ bits value) := by
  rw [← and_bit_ne_zero (k := 20) (by decide), ← and_bit_ne_zero (k := 12) (by decide),
    ← and_bit_ne_zero (k := 22) (by decide), ← and_bit_ne_zero (k := 16) (by decide)]
  rfl

/-- All open flags but the two of two bits. -/
def SINGLE_FLAGS : List Flag := OPEN_FLAGS.take 15

theorem oneBit_SINGLE_FLAGS : OneBit SINGLE_FLAGS := by decide +kernel

theorem bits_O_SYNC : bits 0o4010000 = {12, 20} := by
  have hor : (0o4010000 : UInt64) = ⟨BitVec.twoPow 64 12⟩ ||| ⟨BitVec.twoPow 64 20⟩ := by decide
  rw [hor, bits_or, bits_shift (by decide), bits_shift (by decide), Set.singleton_union]

theorem bits_O_TMPFILE : bits 0o20200000 = {16, 22} := by
  have hor : (0o20200000 : UInt64) = ⟨BitVec.twoPow 64 16⟩ ||| ⟨BitVec.twoPow 64 22⟩ := by decide
  rw [hor, bits_or, bits_shift (by decide), bits_shift (by decide), Set.singleton_union]

theorem groups_OPEN_FLAGS : groups OPEN_FLAGS = groups SINGLE_FLAGS ∪ {{12, 20}, {16, 22}} := by
  have hsplit : OPEN_FLAGS =
    SINGLE_FLAGS ++ [⟨"O_SYNC", 0o4010000⟩, ⟨"O_TMPFILE", 0o20200000⟩] := rfl
  ext m
  rw [hsplit]
  simp only [groups, List.mem_append, or_and_right, exists_or, Set.mem_ofPred_eq, Set.mem_union]
  simp [bits_O_SYNC, bits_O_TMPFILE]

/-- The open flags lose the upper bit of a name of two bits that comes without the lower one. -/
theorem told_OPEN_FLAGS_iff {a : Set ℕ} : told (groups OPEN_FLAGS) a = a ↔
    (20 ∈ a → 12 ∈ a) ∧ (22 ∈ a → 16 ∈ a) := by
  have hnone : ∀ f ∈ SINGLE_FLAGS, ¬ f.bits.toBitVec.getLsbD 20 ∧ ¬ f.bits.toBitVec.getLsbD 22 := by
    decide +kernel
  rw [told_eq_iff, groups_OPEN_FLAGS]
  constructor
  · intro h
    constructor
    · intro hi
      obtain ⟨m, ⟨f, hf, rfl⟩ | rfl | rfl, hsub, hmem⟩ :=
        h 20 hi ⟨{12, 20}, by simp, by simp⟩
      · exact absurd hmem (hnone f hf).1
      · exact hsub (by simp)
      · simp at hmem
    · intro hi
      obtain ⟨m, ⟨f, hf, rfl⟩ | rfl | rfl, hsub, hmem⟩ :=
        h 22 hi ⟨{16, 22}, by simp, by simp⟩
      · exact absurd hmem (hnone f hf).2
      · simp at hmem
      · exact hsub (by simp)
  · rintro ⟨hsync, htmp⟩ i hi ⟨m, hm, hmem⟩
    have hlow {k : ℕ} (hk : {k} ∈ groups SINGLE_FLAGS) (hik : i = k) :
        ∃ m ∈ groups SINGLE_FLAGS ∪ {{12, 20}, {16, 22}}, m ⊆ a ∧ i ∈ m :=
      ⟨{k}, Or.inl hk, by simpa [← hik] using hi, hik⟩
    have hDSYNC : {12} ∈ groups SINGLE_FLAGS :=
      ⟨⟨"O_DSYNC", 0o10000⟩, by simp [SINGLE_FLAGS, OPEN_FLAGS],
        (bits_shift (k := 12) (by decide)).symm⟩
    have hDIRECTORY : {16} ∈ groups SINGLE_FLAGS :=
      ⟨⟨"O_DIRECTORY", 0o200000⟩, by simp [SINGLE_FLAGS, OPEN_FLAGS],
        (bits_shift (k := 16) (by decide)).symm⟩
    rcases hm with hm | rfl | rfl
    · have hsingle := oneBit_SINGLE_FLAGS.subsingleton m hm
      exact ⟨m, Or.inl hm, fun j hj => hsingle hmem hj ▸ hi, hmem⟩
    · rcases hmem with rfl | rfl
      · exact hlow hDSYNC rfl
      · exact ⟨{12, 20}, by simp, by simp [Set.insert_subset_iff, hi, hsync hi], by simp⟩
    · rcases hmem with rfl | rfl
      · exact hlow hDIRECTORY rfl
      · exact ⟨{16, 22}, by simp, by simp [Set.insert_subset_iff, hi, htmp hi], by simp⟩

/-- A leading token for some bits and the tokens for the others together tell the value. -/
theorem readBack_lead (hwords : Legible words) (hset : ∀ f ∈ set, f ∈ words) {lead : Flag}
    (hlead : lead ∈ words) {low : UInt64} (hlow : value &&& low = lead.bits) :
    ∃ back, readBack words (join lead.name.toList (decodeBits set (value &&& ~~~low))
        (value &&& ~~~low) set) = some back ∧
      (back = value ↔ told (groups set) (bits (value &&& ~~~low)) = bits (value &&& ~~~low)) := by
  obtain ⟨back, hread, hback⟩ := readBack_join hwords hset hlead (value &&& ~~~low)
  have hsub : told (groups set) (bits (value &&& ~~~low)) ⊆ bits value \ bits low := by
    rw [← bits_and_not]
    exact told_subset
  refine ⟨back, hread, ?_⟩
  rw [← bits_injective.eq_iff, hback, ← hlow, bits_and]
  constructor
  · intro h
    apply told_subset.antisymm
    rw [bits_and_not]
    rintro i ⟨hi, hnot⟩
    rw [← h] at hi
    have htold := hi.resolve_left fun hlow => hnot hlow.2
    rwa [bits_and_not] at htold
  · intro h
    rw [h, bits_and_not, Set.inter_union_sdiff]

theorem readBack_renderOpen {syscall : String} (hcall : syscall ∈ ["open", "openat", "openat2"])
    (value : UInt64) : ∃ back,
      readBack (vocabulary syscall "flags") (renderOpen value) = some back ∧
        (back = value ↔ Whole value) := by
  have hwords := legible_vocabulary syscall "flags"
  have hvoc : vocabulary syscall "flags" = [⟨"O_RDONLY", 0⟩, ⟨"O_WRONLY", 1⟩, ⟨"O_RDWR", 2⟩,
      ⟨"O_ACCMODE", 3⟩] ++ OPEN_FLAGS := by
    rw [vocabulary, if_pos ⟨hcall, rfl⟩]
  have hmode : ∃ lead ∈ vocabulary syscall "flags", value &&& 0o3 = lead.bits ∧
      renderOpen value = join lead.name.toList (decodeBits OPEN_FLAGS (value &&& ~~~0o3))
        (value &&& ~~~0o3) OPEN_FLAGS := by
    have hle : (value &&& 0o3).toNat ≤ 3 := UInt64.le_iff_toNat_le.mp UInt64.and_le_right
    have hcases : value &&& 0o3 = 0 ∨ value &&& 0o3 = 1 ∨ value &&& 0o3 = 2 ∨
        value &&& 0o3 = 3 := by
      simp only [← UInt64.toNat_inj, UInt64.reduceToNat]
      omega
    rcases hcases with h | h | h | h
    · exact ⟨⟨"O_RDONLY", 0⟩, by simp [hvoc], h, by simp [renderOpen, h]⟩
    · exact ⟨⟨"O_WRONLY", 1⟩, by simp [hvoc], h, by simp [renderOpen, h]⟩
    · exact ⟨⟨"O_RDWR", 2⟩, by simp [hvoc], h, by simp [renderOpen, h]⟩
    · exact ⟨⟨"O_ACCMODE", 3⟩, by simp [hvoc], h, by simp [renderOpen, h]⟩
  obtain ⟨lead, hlead, hbits, htext⟩ := hmode
  obtain ⟨back, hread, hback⟩ := readBack_lead hwords
    (fun f hf => hvoc ▸ List.mem_append_right _ hf) hlead hbits
  have hhigh {i : ℕ} (hi : ¬ (0o3 : UInt64).toBitVec.getLsbD i) :
      i ∈ bits (value &&& ~~~0o3) ↔ i ∈ bits value := by
    rw [bits_and_not, Set.mem_sdiff]
    exact and_iff_left hi
  refine ⟨back, htext ▸ hread, ?_⟩
  rw [hback, told_OPEN_FLAGS_iff, whole_iff, hhigh (by decide), hhigh (by decide),
    hhigh (by decide), hhigh (by decide)]

theorem readBack_renderProt {syscall : String}
    (hcall : syscall ∈ ["mmap", "mprotect", "pkey_mprotect"]) (value : UInt64) :
    readBack (vocabulary syscall "prot") (renderSet PROT_FLAGS value "PROT_NONE".toList) =
      some value := by
  have hvoc : vocabulary syscall "prot" = ⟨"PROT_NONE", 0⟩ :: PROT_FLAGS := by
    rw [vocabulary, if_neg (by simp), if_pos ⟨hcall, rfl⟩]
  exact readBack_renderSet (legible_vocabulary _ _)
    (fun f hf => hvoc ▸ List.mem_cons_of_mem _ hf) oneBit_PROT_FLAGS ⟨"PROT_NONE", 0⟩
    (by simp [hvoc]) rfl value

theorem readBack_renderMap (value : UInt64) :
    readBack (vocabulary "mmap" "flags") (renderMap value) = some value := by
  have hwords := legible_vocabulary "mmap" "flags"
  have hvoc : vocabulary "mmap" "flags" =
      [⟨"0", 0⟩, ⟨"MAP_SHARED_VALIDATE", 3⟩] ++ MAP_FLAGS := rfl
  have hset : ∀ f ∈ MAP_FLAGS, f ∈ vocabulary "mmap" "flags" := fun f hf =>
    hvoc ▸ List.mem_append_right _ hf
  have hkind (lead : Flag) (hlead : lead ∈ vocabulary "mmap" "flags")
      (hlow : value &&& 0xf = lead.bits) : readBack (vocabulary "mmap" "flags")
        (join lead.name.toList (decodeBits MAP_FLAGS (value &&& ~~~0xf)) (value &&& ~~~0xf)
          MAP_FLAGS) = some value := by
    obtain ⟨back, hread, hback⟩ := readBack_lead hwords hset hlead hlow
    rw [hread, hback.mpr (oneBit_MAP_FLAGS.told_eq _)]
  by_cases hshared : value &&& 0xf = 0x1
  · have htext := hkind ⟨"MAP_SHARED", 1⟩ (by simp [hvoc, MAP_FLAGS]) hshared
    simpa [renderMap, hshared] using htext
  by_cases hprivate : value &&& 0xf = 0x2
  · have htext := hkind ⟨"MAP_PRIVATE", 2⟩ (by simp [hvoc, MAP_FLAGS]) hprivate
    simpa [renderMap, hprivate] using htext
  by_cases hvalidate : value &&& 0xf = 0x3
  · have htext := hkind ⟨"MAP_SHARED_VALIDATE", 3⟩ (by simp [hvoc, MAP_FLAGS]) hvalidate
    simpa [renderMap, hvalidate] using htext
  · have htext := readBack_renderSet hwords hset oneBit_MAP_FLAGS ⟨"0", 0⟩ (by simp [hvoc]) rfl
      value
    simpa [renderMap, hshared, hprivate, hvalidate] using htext

/-- What is read back of the text of a recognised argument. -/
theorem readBack_render {syscall arg : String} {text : List Char}
    (h : render syscall arg value = some text) :
    ∃ back, readBack (vocabulary syscall arg) text = some back ∧
      (back = value ↔ (syscall ∈ ["open", "openat", "openat2"] → Whole value)) := by
  unfold render at h
  split_ifs at h with hopen hprot hmap
  · obtain ⟨hcall, rfl⟩ := hopen
    obtain ⟨back, hread, hback⟩ := readBack_renderOpen hcall value
    exact ⟨back, Option.some.inj h ▸ hread, by simp [hback, hcall]⟩
  · obtain ⟨hcall, rfl⟩ := hprot
    have hnot : syscall ∉ ["open", "openat", "openat2"] := by
      intro hmem
      simp only [List.mem_cons, List.not_mem_nil, or_false] at hmem hcall
      rcases hmem with rfl | rfl | rfl <;> simp at hcall
    exact ⟨value, Option.some.inj h ▸ readBack_renderProt hcall value, by simp [hnot]⟩
  · obtain ⟨rfl, rfl⟩ := hmap
    exact ⟨value, Option.some.inj h ▸ readBack_renderMap value, by simp⟩

/-- Two values of a recognised argument are both read back, and so are told apart, exactly if in
those of open flags the upper bits of `O_SYNC` and `O_TMPFILE` come with the lower ones. -/
theorem flags_told_iff {syscall arg : String} {v w : UInt64} {textv textw : List Char}
    (hv : render syscall arg v = some textv) (hw : render syscall arg w = some textw) :
    (readBack (vocabulary syscall arg) textv = some v ∧
        readBack (vocabulary syscall arg) textw = some w ∧ (textv = textw → v = w)) ↔
      (syscall ∈ ["open", "openat", "openat2"] → Whole v ∧ Whole w) := by
  obtain ⟨backv, hreadv, hbackv⟩ := readBack_render hv
  obtain ⟨backw, hreadw, hbackw⟩ := readBack_render hw
  rw [hreadv, hreadw, Option.some_inj, Option.some_inj, hbackv, hbackw]
  constructor
  · rintro ⟨hv, hw, -⟩ hcall
    exact ⟨hv hcall, hw hcall⟩
  · intro h
    have hwholev := hbackv.mpr fun hcall => (h hcall).1
    have hwholew := hbackw.mpr fun hcall => (h hcall).2
    refine ⟨fun hcall => (h hcall).1, fun hcall => (h hcall).2, ?_⟩
    rintro rfl
    rw [← hwholev, ← hwholew]
    exact Option.some.inj (hreadv.symm.trans hreadw)

theorem flags_told_append : (readBack (vocabulary "openat" "flags")
      "O_WRONLY|O_APPEND|0x80000000".toList = some 0x80000401 ∧
    readBack (vocabulary "openat" "flags") "O_RDONLY|O_DSYNC|O_SYNC".toList = some 0o4010000 ∧
    ("O_WRONLY|O_APPEND|0x80000000".toList = "O_RDONLY|O_DSYNC|O_SYNC".toList →
      (0x80000401 : UInt64) = 0o4010000)) ↔
    ("openat" ∈ ["open", "openat", "openat2"] → Whole 0x80000401 ∧ Whole 0o4010000) :=
  flags_told_iff (by decide +kernel) (by decide +kernel)

/-- The upper bit of `O_SYNC` alone is shown as no flag at all. -/
theorem sync_bit_lost : ¬ ∀ syscall arg v text, render syscall arg v = some text →
    readBack (vocabulary syscall arg) text = some v ∧
      ∀ w, render syscall arg w = some text → w = v := by
  intro h
  have hsame := (h "openat" "flags" 0 "O_RDONLY".toList (by decide +kernel)).2 0o4000000
    (by decide +kernel)
  exact absurd hsame (by decide)

end Syren.Flags
