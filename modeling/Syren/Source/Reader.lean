import Syren.Source.Token

/-! Items with literal values: constants and statics whose values are numbers, strings, paths,
structures and slices. -/
namespace Source

inductive Value where
  | number (n : ℕ)
  | string (text : List Char)
  | path (names : List (List Char))
  | record (path : List (List Char)) (fields : List (List Char × Value))
  | slice (items : List Value)

/-- The rest of a path, and what comes after it. -/
def readPath : List Token → List (List Char) × List Token
  | .scope :: .word name :: rest => (name :: (readPath rest).1, (readPath rest).2)
  | rest => ([], rest)

mutual

def readValue : ℕ → List Token → Option (Value × List Token)
  | _ + 1, .number n :: rest => some (.number n, rest)
  | _ + 1, .string text :: rest => some (.string text, rest)
  | fuel + 1, .mark '&' :: .mark '[' :: rest =>
    (readItems fuel rest).map fun p => (.slice p.1, p.2)
  | fuel + 1, .word name :: rest =>
    if (readPath rest).2.head? = some (.mark '\x7b') then
      (readFields fuel (readPath rest).2.tail).map fun p =>
        (.record (name :: (readPath rest).1) p.1, p.2)
    else some (.path (name :: (readPath rest).1), (readPath rest).2)
  | _, _ => none

/-- The rest of a slice. The comma after the last item may be left out. -/
def readItems : ℕ → List Token → Option (List Value × List Token)
  | 0, _ => none
  | fuel + 1, tokens =>
    if tokens.head? = some (.mark ']') then some ([], tokens.tail)
    else do
      let (v, rest) ← readValue fuel tokens
      if rest.head? = some (.mark ',') then
        let (items, rest) ← readItems fuel rest.tail
        return (v :: items, rest)
      else if rest.head? = some (.mark ']') then return ([v], rest.tail)
      else none

/-- The rest of a structure. The comma after the last field may be left out. -/
def readFields : ℕ → List Token → Option (List (List Char × Value) × List Token)
  | fuel + 1, .word name :: .mark ':' :: tokens => do
    let (v, rest) ← readValue fuel tokens
    if rest.head? = some (.mark ',') then
      let (fields, rest) ← readFields fuel rest.tail
      return ((name, v) :: fields, rest)
    else if rest.head? = some (.mark '\x7d') then return ([(name, v)], rest.tail)
    else none
  | _ + 1, .mark '\x7d' :: rest => some ([], rest)
  | _, _ => none

end

/-- A constant or a static. -/
structure Item where
  kind : List Char
  name : List Char
  type : List Token
  value : Value

/-- An item: `pub <kind> <name>: <type> = <value>;`. -/
def readItem (fuel : ℕ) : List Token → Option (Item × List Token)
  | .word pub :: .word kind :: .word name :: .mark ':' :: rest => do
    let type := rest.takeWhile fun t => t ≠ .mark '='
    let (value, rest) ← readValue fuel (rest.drop (type.length + 1))
    if pub = "pub".toList ∧ rest.head? = some (.mark ';') then
      return (⟨kind, name, type, value⟩, rest.tail)
    else none
  | _ => none

def readModule : ℕ → List Token → Option (List Item)
  | _, [] => some []
  | 0, _ => none
  | fuel + 1, tokens => do
    let (item, rest) ← readItem fuel tokens
    return item :: (← readModule fuel rest)

/-- The items of a whole text. -/
def readText (text : List Char) : Option (List Item) := do
  let tokens ← lex text
  readModule tokens.length tokens

/-- What can follow a value: nothing that a path goes on with. -/
def Closing (rest : List Token) : Prop :=
  ∀ t ∈ rest.head?, t ≠ .scope ∧ t ≠ .mark '\x7b'

/-- The tokens are read as a value, whatever follows them. -/
def Writes (tokens : List Token) (v : Value) : Prop := ∀ fuel rest, tokens.length ≤ fuel →
  Closing rest → readValue fuel (tokens ++ rest) = some (v, rest)

/-- The tokens of a path after its first name. -/
def nested (names : List (List Char)) : List Token :=
  names.flatMap fun name => [.scope, .word name]

/-- The tokens between the brackets of a slice. -/
inductive WritesItems : List Token → List Value → Prop where
  | nil : WritesItems [] []
  | last {t : List Token} {v : Value} (h : Writes t v) : WritesItems t [v]
  | cons {t ts : List Token} {v : Value} {vs : List Value} (h : Writes t v)
      (hs : WritesItems ts vs) : WritesItems (t ++ .mark ',' :: ts) (v :: vs)

/-- The tokens between the braces of a structure. -/
inductive WritesFields : List Token → List (List Char × Value) → Prop where
  | nil : WritesFields [] []
  | last {name : List Char} {t : List Token} {v : Value} (h : Writes t v) :
      WritesFields (.word name :: .mark ':' :: t) [(name, v)]
  | cons {name : List Char} {t ts : List Token} {v : Value} {vs : List (List Char × Value)}
      (h : Writes t v) (hs : WritesFields ts vs) :
      WritesFields (.word name :: .mark ':' :: (t ++ .mark ',' :: ts)) ((name, v) :: vs)

section Lists

variable {t ts rest : List Token} {v : Value}

theorem closing_mark {c : Char} (hc : c ≠ '\x7b') : Closing (.mark c :: rest) := by
  intro t ht
  cases ht
  exact ⟨Token.noConfusion, fun he => hc (Token.mark.inj he)⟩

theorem Writes.ne_nil (h : Writes t v) : t ≠ [] := by
  rintro rfl
  have hread := h 0 [] (Nat.le_refl _) fun t ht => by cases ht
  cases hread

/-- No value begins as the end of a slice does. -/
theorem Writes.head_ne (h : Writes t v) (rest : List Token) :
    (t ++ rest).head? ≠ some (.mark ']') := by
  cases t with
  | nil => exact absurd rfl h.ne_nil
  | cons a t =>
    intro hhead
    cases hhead
    have hread := h (t.length + 1) [] (Nat.le_refl _) fun t ht => by cases ht
    simp [readValue] at hread

theorem WritesItems.read {vs : List Value} (h : WritesItems ts vs) {fuel : ℕ}
    (hfuel : ts.length < fuel) (rest : List Token) :
    readItems fuel (ts ++ .mark ']' :: rest) = some (vs, rest) := by
  obtain ⟨fuel, rfl⟩ : ∃ n, fuel = n + 1 := ⟨fuel - 1, by omega⟩
  induction h generalizing fuel with
  | nil => simp [readItems]
  | last hv =>
    rw [readItems, if_neg (hv.head_ne _), hv fuel _ (by omega) (closing_mark (by decide))]
    simp
  | @cons t ts v vs hv hs ih =>
    rw [List.length_append, List.length_cons] at hfuel
    obtain ⟨fuel, rfl⟩ : ∃ n, fuel = n + 1 := ⟨fuel - 1, by omega⟩
    rw [List.append_assoc, readItems, if_neg (hv.head_ne _), List.cons_append,
      hv _ _ (by omega) (closing_mark (by decide))]
    have hrest := ih fuel (by omega)
    simp [hrest]

theorem WritesFields.read {vs : List (List Char × Value)} (h : WritesFields ts vs) {fuel : ℕ}
    (hfuel : ts.length < fuel) (rest : List Token) :
    readFields fuel (ts ++ .mark '\x7d' :: rest) = some (vs, rest) := by
  obtain ⟨fuel, rfl⟩ : ∃ n, fuel = n + 1 := ⟨fuel - 1, by omega⟩
  induction h generalizing fuel with
  | nil => rfl
  | @last name t v hv =>
    simp only [List.length_cons] at hfuel
    have hread := hv fuel (.mark '\x7d' :: rest) (by omega) (closing_mark (by decide))
    simp [readFields, hread]
  | @cons name t ts v vs hv hs ih =>
    simp only [List.length_append, List.length_cons] at hfuel
    obtain ⟨fuel, rfl⟩ : ∃ n, fuel = n + 1 := ⟨fuel - 1, by omega⟩
    have hread := hv (fuel + 1) (.mark ',' :: (ts ++ .mark '\x7d' :: rest)) (by omega)
      (closing_mark (by decide))
    have hrest := ih fuel (by omega)
    simp [readFields, hread, hrest]

theorem readPath_nested (names : List (List Char)) (h : rest.head? ≠ some .scope) :
    readPath (nested names ++ rest) = (names, rest) := by
  induction names with
  | nil =>
    show readPath rest = _
    unfold readPath
    split
    · simp at h
    · rfl
  | cons name names ih =>
    show readPath (.scope :: .word name :: (nested names ++ rest)) = _
    rw [readPath, ih]

end Lists

section Values

section Slices

variable {α : Type} {tokens : α → List Token} {value : α → Value} {items : List α}

/-- Items with a comma after each. -/
theorem writesItems_flatMap (h : ∀ x ∈ items, Writes (tokens x) (value x)) :
    WritesItems (items.flatMap fun x => tokens x ++ [.mark ',']) (items.map value) := by
  induction items with
  | nil => exact .nil
  | cons x items ih =>
    rw [List.flatMap_cons, List.append_assoc]
    exact .cons (h x List.mem_cons_self) (ih fun y hy => h y (List.mem_cons_of_mem x hy))

/-- Items with commas between them. -/
theorem writesItems_intercalate (h : ∀ x ∈ items, Writes (tokens x) (value x)) :
    WritesItems ([.mark ','].intercalate (items.map tokens)) (items.map value) := by
  induction items with
  | nil => exact .nil
  | cons x items ih =>
    have hx := h x List.mem_cons_self
    have hrest := ih fun y hy => h y (List.mem_cons_of_mem x hy)
    cases items with
    | nil => simpa using .last hx
    | cons y items =>
      simp only [List.map_cons, List.intercalate_cons_cons] at hrest ⊢
      rw [List.append_assoc]
      exact .cons hx hrest

end Slices

theorem writes_number (n : ℕ) : Writes [.number n] (.number n) := by
  intro fuel rest hfuel _
  obtain ⟨fuel, rfl⟩ : ∃ m, fuel = m + 1 := ⟨fuel - 1, by simp at hfuel; omega⟩
  rfl

theorem writes_string (text : List Char) : Writes [.string text] (.string text) := by
  intro fuel rest hfuel _
  obtain ⟨fuel, rfl⟩ : ∃ m, fuel = m + 1 := ⟨fuel - 1, by simp at hfuel; omega⟩
  rfl

theorem writes_path (name : List Char) (names : List (List Char)) :
    Writes (.word name :: nested names) (.path (name :: names)) := by
  intro fuel rest hfuel hrest
  obtain ⟨fuel, rfl⟩ : ∃ m, fuel = m + 1 := ⟨fuel - 1, by simp at hfuel; omega⟩
  have hpath := readPath_nested names fun hs : rest.head? = _ => (hrest _ hs).1 rfl
  have hbrace : rest.head? ≠ some (.mark '\x7b') := fun hs => (hrest _ hs).2 rfl
  rw [List.cons_append, readValue, hpath, if_neg hbrace]

theorem writes_record (name : List Char) (names : List (List Char)) {ts : List Token}
    {fields : List (List Char × Value)} (h : WritesFields ts fields) :
    Writes (.word name :: (nested names ++ .mark '\x7b' :: (ts ++ [.mark '\x7d'])))
      (.record (name :: names) fields) := by
  intro fuel rest hfuel _
  simp only [List.length_cons, List.length_append, List.length_nil] at hfuel
  obtain ⟨fuel, rfl⟩ : ∃ m, fuel = m + 1 := ⟨fuel - 1, by omega⟩
  have hbrace : (Token.mark '\x7b' :: (ts ++ .mark '\x7d' :: rest)).head? ≠ some .scope := by simp
  have hpath := readPath_nested names hbrace
  have hread := h.read (show ts.length < fuel by omega) rest
  simp [readValue, hpath, hread]

theorem writes_slice {ts : List Token} {items : List Value} (h : WritesItems ts items) :
    Writes (.mark '&' :: .mark '[' :: (ts ++ [.mark ']'])) (.slice items) := by
  intro fuel rest hfuel _
  simp only [List.length_cons, List.length_append, List.length_nil] at hfuel
  obtain ⟨fuel, rfl⟩ : ∃ m, fuel = m + 1 := ⟨fuel - 1, by omega⟩
  have hread := h.read (show ts.length < fuel by omega) rest
  simp [readValue, hread]

end Values

/-- The tokens of an item, given those of its value. -/
def itemTokens (kind name : List Char) (type value : List Token) : List Token :=
  .word "pub".toList :: .word kind :: .word name :: .mark ':' ::
    (type ++ .mark '=' :: (value ++ [.mark ';']))

theorem readItem_itemTokens (kind name : List Char) {type value : List Token} {v : Value}
    (htype : .mark '=' ∉ type) (h : Writes value v) {fuel : ℕ} (hfuel : value.length ≤ fuel)
    (rest : List Token) :
    readItem fuel (itemTokens kind name type value ++ rest) =
      some (⟨kind, name, type, v⟩, rest) := by
  have hread := h fuel (.mark ';' :: rest) hfuel (closing_mark (by decide))
  have htake : (type ++ .mark '=' :: (value ++ .mark ';' :: rest)).takeWhile
      (fun t => t ≠ .mark '=') = type := by
    rw [List.takeWhile_append_of_pos]
    · simp
    · intro t ht
      have hne : t ≠ .mark '=' := fun he => htype (he ▸ ht)
      simpa using hne
  simp only [itemTokens, List.cons_append, List.append_assoc, List.nil_append, readItem]
  rw [htake]
  simp [hread]

theorem readModule_itemTokens {kind name : List Char} {type value rest : List Token} {v : Value}
    {items : List Item} (htype : .mark '=' ∉ type) (h : Writes value v) {fuel : ℕ}
    (hfuel : value.length ≤ fuel) (hrest : readModule fuel rest = some items) :
    readModule (fuel + 1) (itemTokens kind name type value ++ rest) =
      some (⟨kind, name, type, v⟩ :: items) := by
  have hitem := readItem_itemTokens kind name htype h hfuel rest
  have hne : itemTokens kind name type value ++ rest ≠ [] := List.cons_ne_nil _ _
  rw [readModule]
  · simp [hitem, hrest]
  · exact hne

end Source
