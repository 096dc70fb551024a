import Mathlib.Data.List.TakeWhile
import Mathlib.Tactic.Common

/-! A call written as its name and its fields, some of which are quoted strings with escapes. It is
taken apart again, whatever the quoted strings hold. -/
namespace Layout

/-- Where a reader of a field is. -/
inductive Place where
  | bare
  | quoted
  | escaped
  deriving DecidableEq

/-- The place after one more character, unless the character ends the field. -/
def Place.next : Place → Char → Option Place
  | bare, c => if c = '"' then some quoted else if c = ',' ∨ c = ')' then none else some bare
  | quoted, c => if c = '"' then some bare else if c = '\\' then some escaped else some quoted
  | escaped, _ => some quoted

/-- The fields up to the closing parenthesis, the first of which has begun, and what follows. -/
def readFields : Place → List Char → List Char → Option (List (List Char) × List Char)
  | _, _, [] => none
  | p, field, c :: text =>
    match p.next c with
    | some q => readFields q (field ++ [c]) text
    | none =>
      if c = ')' then some ([field], text)
      else (readFields .bare [] text).map fun r => (field :: r.1, r.2)

/-- The name of a call, its fields, and what follows its closing parenthesis. All fields but the
first begin with a space. -/
def readCall (text : List Char) : Option (List Char × List (List Char) × List Char) := do
  let name := text.takeWhile (· ≠ '(')
  let inside := (text.dropWhile (· ≠ '(')).tail
  if inside.head? = some ')' then return (name, [], inside.tail)
  let (fields, rest) ← readFields .bare [] inside
  return (name, fields.head?.toList ++ fields.tail.map List.tail, rest)

/-- A text that is one field: it ends outside of quotes, and no separator is outside of them. -/
structure IsField (text : List Char) : Prop where
  nonempty : text ≠ []
  closed : text.foldlM Place.next .bare = some .bare

/-- A character that is no quote and ends no field. -/
def Bare (c : Char) : Prop := c ≠ '"' ∧ c ≠ ',' ∧ c ≠ ')'

variable {text field rest : List Char} {fields : List (List Char)} {p q : Place}

theorem next_bare {c : Char} (h : Bare c) : Place.bare.next c = some .bare := by
  obtain ⟨hquote, hcomma, hclose⟩ := h
  simp [Place.next, hquote, hcomma, hclose]

theorem advance_bare (h : ∀ c ∈ text, Bare c) :
    text.foldlM Place.next .bare = some .bare := by
  induction text with
  | nil => rfl
  | cons c text ih =>
    have hc := next_bare (h c List.mem_cons_self)
    rw [List.foldlM_cons, hc, Option.bind_eq_bind, Option.bind_some]
    exact ih fun d hd => h d (List.mem_cons_of_mem c hd)

theorem isField_bare (hne : text ≠ []) (h : ∀ c ∈ text, Bare c) : IsField text :=
  ⟨hne, advance_bare h⟩

/-- A quoted string is a field, if each of its pieces stays in the quotes. -/
theorem isField_quoted {α : Type} {piece : α → List Char} {tail : List Char} (xs : List α)
    (hpiece : ∀ x, (piece x).foldlM Place.next .quoted = some .quoted)
    (htail : ∀ c ∈ tail, Bare c) : IsField ('"' :: xs.flatMap piece ++ ['"'] ++ tail) := by
  have hbody : (xs.flatMap piece).foldlM Place.next .quoted = some .quoted := by
    induction xs with
    | nil => rfl
    | cons x xs ih =>
      rw [List.flatMap_cons, List.foldlM_append, hpiece, Option.bind_eq_bind, Option.bind_some]
      exact ih
  have hopen : ['"'].foldlM Place.next .bare = some .quoted := rfl
  have hclose : ['"'].foldlM Place.next .quoted = some .bare := rfl
  refine ⟨by simp, ?_⟩
  rw [← List.singleton_append, List.foldlM_append, List.foldlM_append, List.foldlM_append, hopen]
  simp only [Option.bind_eq_bind, Option.bind_some, hbody, hclose, advance_bare htail]

/-- The characters that leave the reader in a field are added to it. -/
theorem readFields_append (h : text.foldlM Place.next p = some q) (field rest : List Char) :
    readFields p field (text ++ rest) = readFields q (field ++ text) rest := by
  induction text generalizing p field with
  | nil =>
    cases h
    rw [List.nil_append, List.append_nil]
  | cons c text ih =>
    rw [List.foldlM_cons, Option.bind_eq_bind, Option.bind_eq_some_iff] at h
    obtain ⟨r, hr, hrest⟩ := h
    have hstep : readFields p field (c :: text ++ rest) =
        readFields r (field ++ [c]) (text ++ rest) := by
      rw [List.cons_append, readFields, hr]
    rw [hstep, ih hrest, List.append_assoc, List.singleton_append]

theorem readFields_close (field rest : List Char) :
    readFields .bare field (')' :: rest) = some ([field], rest) := rfl

theorem readFields_comma (field rest : List Char) : readFields .bare field (',' :: rest) =
    (readFields .bare [] rest).map fun r => (field :: r.1, r.2) := rfl

theorem readFields_fields {f : List Char} (hf : f.foldlM Place.next .bare = some .bare)
    (h : ∀ g ∈ fields, IsField g) (rest : List Char) :
    readFields .bare [] ([',', ' '].intercalate (f :: fields) ++ ')' :: rest) =
      some (f :: fields.map (' ' :: ·), rest) := by
  induction fields generalizing f with
  | nil =>
    rw [List.intercalate_singleton, readFields_append hf, List.nil_append, readFields_close]
    rfl
  | cons g fields ih =>
    have hg := h g List.mem_cons_self
    have hspace : (' ' :: g).foldlM Place.next .bare = some .bare := hg.closed
    have hrest := ih hspace fun x hx => h x (List.mem_cons_of_mem g hx)
    have hmove : [',', ' '].intercalate (f :: g :: fields) =
        f ++ ',' :: [',', ' '].intercalate ((' ' :: g) :: fields) := by
      cases fields <;> simp [List.intercalate_cons_cons]
    rw [hmove, List.append_assoc, readFields_append hf, List.nil_append, List.cons_append,
      readFields_comma, hrest]
    rfl

theorem head_ne_close (h : IsField text) (rest : List Char) :
    (text ++ rest).head? ≠ some ')' := by
  intro hc
  have hclosed := h.closed
  cases text with
  | nil => exact h.nonempty rfl
  | cons c text =>
    cases hc
    rw [List.foldlM_cons] at hclosed
    cases hclosed

/-- A call gives back its name, its fields and what follows it. -/
theorem readCall_call {name : List Char} (hname : '(' ∉ name) (h : ∀ f ∈ fields, IsField f)
    (rest : List Char) : readCall (name ++ '(' :: [',', ' '].intercalate fields ++ ')' :: rest) =
      some (name, fields, rest) := by
  have hall : ∀ c ∈ name, decide (c ≠ '(') = true := fun c hc =>
    decide_eq_true fun he => hname (he ▸ hc)
  have htake (s : List Char) : (name ++ '(' :: s).takeWhile (· ≠ '(') = name := by
    rw [List.takeWhile_append_of_pos hall, List.takeWhile_cons_of_neg (by simp), List.append_nil]
  have hdrop (s : List Char) : (name ++ '(' :: s).dropWhile (· ≠ '(') = '(' :: s := by
    rw [List.dropWhile_append_of_pos hall, List.dropWhile_cons_of_neg (by simp)]
  rw [List.append_assoc, List.cons_append, readCall, htake, hdrop]
  cases fields with
  | nil => rfl
  | cons f fields =>
    have hf := h f List.mem_cons_self
    have hread := readFields_fields hf.closed (fun g hg => h g (List.mem_cons_of_mem f hg)) rest
    have hhead : ([',', ' '].intercalate (f :: fields) ++ ')' :: rest).head? ≠ some ')' := by
      cases fields with
      | nil =>
        rw [List.intercalate_singleton]
        exact head_ne_close hf _
      | cons g fields =>
        rw [List.intercalate_cons_cons, List.append_assoc, List.append_assoc]
        exact head_ne_close hf _
    rw [List.tail_cons, if_neg hhead, hread]
    simp [Function.comp_def]

end Layout
