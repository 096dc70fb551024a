import Mathlib.Data.List.TakeWhile
import Mathlib.Tactic.Common

/-! Texts of printable characters, and the SGR sequences that colour a text. -/
namespace Layout

/-- Printable ASCII. -/
def Printable (c : Char) : Prop := ' ' ≤ c ∧ c ≤ '~'

instance (c : Char) : Decidable (Printable c) := by
  unfold Printable
  infer_instance

def Clean (text : List Char) : Prop := ∀ c ∈ text, Printable c

instance (text : List Char) : Decidable (Clean text) := List.decidableBAll Printable text

def ESC : Char := '\x1b'

/-- A character between the bracket and the final `m`. -/
def isParam (c : Char) : Bool := c.isDigit || c = ';'

/-- The SGR sequence with some parameters. -/
def sgr (params : List Char) : List Char := ESC :: '[' :: params ++ ['m']

/-- The length of the SGR sequence that a text starts with, or zero. -/
def sgrLength : List Char → ℕ
  | c :: d :: text =>
    let params := text.takeWhile isParam
    if c = ESC ∧ d = '[' ∧ text[params.length]? = some 'm' then params.length + 3 else 0
  | _ => 0

/-- A text without its SGR sequences. The first so many characters belong to one that has begun. -/
def stripSgr : ℕ → List Char → List Char
  | _, [] => []
  | n + 1, _ :: text => stripSgr n text
  | 0, c :: text =>
    match sgrLength (c :: text) with
    | 0 => c :: stripSgr 0 text
    | n + 1 => stripSgr n text

/-- The SGR sequences of a text. -/
def sgrs : ℕ → List Char → List (List Char)
  | _, [] => []
  | n + 1, _ :: text => sgrs n text
  | 0, c :: text =>
    match sgrLength (c :: text) with
    | 0 => sgrs 0 text
    | n + 1 => (c :: text).take (n + 1) :: sgrs n text

/-- Wherever it stands, one text is another with some SGR sequences put in. -/
structure Decorates (codes : List (List Char)) (colored plain : List Char) : Prop where
  strip : ∀ rest, stripSgr 0 (colored ++ rest) = plain ++ stripSgr 0 rest
  found : ∀ rest, sgrs 0 (colored ++ rest) = codes ++ sgrs 0 rest
  chars : ∀ c ∈ colored, c ∈ plain ∨ c ∈ codes.flatten

variable {s t : List Char}

@[simp] theorem clean_nil : Clean [] := by simp [Clean]

@[simp] theorem clean_cons {c : Char} : Clean (c :: s) ↔ Printable c ∧ Clean s := by simp [Clean]

@[simp] theorem clean_append : Clean (s ++ t) ↔ Clean s ∧ Clean t := by
  simp [Clean, or_imp, forall_and]

@[simp] theorem clean_replicate {c : Char} (n : ℕ) (hc : Printable c) :
    Clean (List.replicate n c) := by
  intro d hd
  rwa [List.eq_of_mem_replicate hd]

/-- A string with a UTF-8 encoding of printable ASCII bytes. -/
def Visible (s : String) : Prop := ∀ b ∈ s.toByteArray.data.toList, 0x20 ≤ b ∧ b ≤ 0x7e

instance (s : String) : Decidable (Visible s) :=
  List.decidableBAll (fun b => 0x20 ≤ b ∧ b ≤ 0x7e) s.toByteArray.data.toList

theorem printable_of_bytes {c : Char} (h : ∀ b ∈ String.utf8EncodeChar c, 0x20 ≤ b ∧ b ≤ 0x7e) :
    Printable c := by
  have hval (n : ℕ) (hn : n < 256) (hmem : UInt8.ofNat n ∈ String.utf8EncodeChar c) :
      32 ≤ n ∧ n ≤ 126 := by
    simpa [UInt8.le_iff_toNat_le, Nat.mod_eq_of_lt hn] using h _ hmem
  by_cases hone : c.toNat ≤ 0x7f
  · exact hval c.toNat (by omega) (by simp [String.utf8EncodeChar, hone])
  · -- the last byte of a longer encoding is too large
    have hlast := hval (c.toNat % 64 + 128) (by omega) (by
      simp only [String.utf8EncodeChar, Char.toNat_val, if_neg hone]
      split_ifs <;> simp)
    omega

theorem Visible.clean {s : String} (h : Visible s) : Clean s.toList := by
  intro c hc
  apply printable_of_bytes
  intro b hb
  apply h
  rw [← String.utf8Encode_toList, List.utf8Encode, List.toList_data_toByteArray]
  exact List.mem_flatMap_of_mem hc hb

theorem clean_flatMap {α : Type*} {f : α → List Char} {xs : List α} (h : ∀ x ∈ xs, Clean (f x)) :
    Clean (xs.flatMap f) := by
  intro c hc
  obtain ⟨x, hx, hcx⟩ := List.mem_flatMap.mp hc
  exact h x hx c hcx

theorem clean_intercalate {sep : List Char} (hsep : Clean sep) {texts : List (List Char)}
    (h : ∀ text ∈ texts, Clean text) : Clean (sep.intercalate texts) := by
  induction texts with
  | nil => simp
  | cons text texts ih =>
    cases texts with
    | nil => simpa using h
    | cons next texts =>
      rw [List.intercalate_cons_cons]
      simp only [clean_append]
      exact ⟨⟨h _ (by simp), hsep⟩, ih fun text ht => h text (List.mem_cons_of_mem _ ht)⟩

theorem Clean.esc_notMem (h : Clean s) : ESC ∉ s := fun hc => absurd (h _ hc) (by decide)

theorem Clean.newline_notMem (h : Clean s) : '\n' ∉ s := fun hc => absurd (h _ hc) (by decide)

theorem sgrLength_plain {c : Char} (hc : c ≠ ESC) (text : List Char) :
    sgrLength (c :: text) = 0 := by
  cases text <;> simp [sgrLength, hc]

theorem sgrLength_sgr {params : List Char} (h : ∀ c ∈ params, isParam c) (rest : List Char) :
    sgrLength (sgr params ++ rest) = params.length + 3 := by
  have hparams : (params ++ 'm' :: rest).takeWhile isParam = params := by
    rw [List.takeWhile_append_of_pos h, List.takeWhile_cons_of_neg (by decide), List.append_nil]
  simp [sgr, sgrLength, hparams]

theorem skip_append (s rest : List Char) :
    stripSgr s.length (s ++ rest) = stripSgr 0 rest ∧ sgrs s.length (s ++ rest) = sgrs 0 rest := by
  induction s with
  | nil => simp
  | cons c s ih => simpa [stripSgr, sgrs] using ih

theorem decorates_nil : Decorates [] [] [] := ⟨fun _ => rfl, fun _ => rfl, by simp⟩

theorem Decorates.append {codes codes' : List (List Char)} {s' t' : List Char}
    (h : Decorates codes s t) (h' : Decorates codes' s' t') :
    Decorates (codes ++ codes') (s ++ s') (t ++ t') where
  strip rest := by simp [List.append_assoc, h.strip, h'.strip]
  found rest := by simp [List.append_assoc, h.found, h'.found]
  chars c hc := by
    rcases List.mem_append.mp hc with hc | hc
    · exact (h.chars c hc).imp (by simp +contextual) (by simp +contextual)
    · exact (h'.chars c hc).imp (by simp +contextual) (by simp +contextual)

theorem decorates_plain (h : ESC ∉ s) : Decorates [] s s := by
  induction s with
  | nil => exact decorates_nil
  | cons c s ih =>
    rw [List.mem_cons, not_or] at h
    have hstep := sgrLength_plain (Ne.symm h.1)
    exact {
      strip := fun rest => by simpa [stripSgr, hstep] using (ih h.2).strip rest
      found := fun rest => by simpa [sgrs, hstep] using (ih h.2).found rest
      chars := fun c hc => Or.inl hc }

theorem decorates_sgr {params : List Char} (h : ∀ c ∈ params, isParam c) :
    Decorates [sgr params] (sgr params) [] := by
  have hlen := sgrLength_sgr h
  have hskip := skip_append ('[' :: params ++ ['m'])
  have hcons (rest : List Char) :
      sgr params ++ rest = ESC :: ('[' :: params ++ ['m'] ++ rest) := rfl
  have htake (rest : List Char) : (sgr params ++ rest).take (params.length + 3) = sgr params :=
    List.take_left' (by simp [sgr])
  refine ⟨fun rest => ?_, fun rest => ?_, by simp⟩
  · have hrest := hlen rest
    rw [hcons] at hrest ⊢
    simp only [stripSgr, hrest, List.nil_append]
    simpa using (hskip rest).1
  · have hrest := hlen rest
    have hcode := htake rest
    rw [hcons] at hrest hcode ⊢
    simp only [sgrs, hrest, hcode, List.singleton_append, List.cons.injEq, true_and]
    simpa using (hskip rest).2

theorem Decorates.flatMap {α : Type*} {codes : α → List (List Char)} {f g : α → List Char}
    {xs : List α} (h : ∀ x ∈ xs, Decorates (codes x) (f x) (g x)) :
    Decorates (xs.flatMap codes) (xs.flatMap f) (xs.flatMap g) := by
  induction xs with
  | nil => exact decorates_nil
  | cons x xs ih =>
    have hxs := ih fun y hy => h y (List.mem_cons_of_mem x hy)
    simpa using (h x List.mem_cons_self).append hxs

/-- Taking out the sequences gives the text, and they are the ones put in. -/
theorem Decorates.stripped {codes : List (List Char)} (h : Decorates codes s t) :
    stripSgr 0 s = t ∧ sgrs 0 s = codes := by
  have hstrip := h.strip []
  have hfound := h.found []
  simp only [stripSgr, sgrs, List.append_nil] at hstrip hfound
  exact ⟨hstrip, hfound⟩

end Layout
