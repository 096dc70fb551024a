import Syren.Layout.Digits

/-! The tokens of source texts in the notation of Rust, as far as items with literal values need
them. A text is read one character at a time. -/
namespace Source
open Layout

inductive Token where
  | word (name : List Char)
  | number (n : ℕ)
  | string (text : List Char)
  /-- Two colons. -/
  | scope
  | mark (c : Char)
  deriving DecidableEq

/-- What has been read of a token that is not over. -/
inductive Place where
  | between
  | slash
  | comment
  | colon
  | word (name : List Char)
  | number (n : ℕ)
  | string (text : List Char)
  /-- In a string, after a backslash. -/
  | escape (text : List Char)
  /-- In a string, after `\u`. -/
  | brace (text : List Char)
  | unicode (text : List Char) (n : ℕ)
  deriving DecidableEq

/-- Where a text is read, and the tokens before, the last one first. -/
structure Lexer where
  place : Place
  tokens : List Token
  deriving DecidableEq

def isWordPart (c : Char) : Bool := c.isAlphanum || c = '_'

/-- The character of a short escape. -/
def shortEscape (c : Char) : Option Char :=
  if c = '"' ∨ c = '\\' ∨ c = '\'' then some c
  else if c = 'n' then some '\n'
  else if c = 'r' then some '\r'
  else if c = 't' then some '\t'
  else if c = '0' then some '\x00'
  else none

namespace Lexer

/-- A character that no token goes on with. -/
def start (tokens : List Token) (c : Char) : Lexer :=
  if c.isWhitespace then ⟨.between, tokens⟩
  else if c = '/' then ⟨.slash, tokens⟩
  else if c = ':' then ⟨.colon, tokens⟩
  else if c = '"' then ⟨.string [], tokens⟩
  else if c.isDigit then ⟨.number (c.toNat - '0'.toNat), tokens⟩
  else if isWordPart c then ⟨.word [c], tokens⟩
  else ⟨.between, .mark c :: tokens⟩

def next (lexer : Lexer) (c : Char) : Option Lexer :=
  match lexer.place with
  | .between => some (start lexer.tokens c)
  | .slash => if c = '/' then some ⟨.comment, lexer.tokens⟩ else none
  | .comment => some ⟨if c = '\n' then .between else .comment, lexer.tokens⟩
  | .colon =>
    some (if c = ':' then ⟨.between, .scope :: lexer.tokens⟩
      else start (.mark ':' :: lexer.tokens) c)
  | .word name =>
    some (if isWordPart c then ⟨.word (name ++ [c]), lexer.tokens⟩
      else start (.word name :: lexer.tokens) c)
  | .number n =>
    if c.isDigit then some ⟨.number (n * 10 + (c.toNat - '0'.toNat)), lexer.tokens⟩
    else if isWordPart c then none
    else some (start (.number n :: lexer.tokens) c)
  | .string text =>
    if c = '"' then some ⟨.between, .string text :: lexer.tokens⟩
    else if c = '\\' then some ⟨.escape text, lexer.tokens⟩
    else if c = '\r' then none
    else some ⟨.string (text ++ [c]), lexer.tokens⟩
  | .escape text =>
    if c = 'u' then some ⟨.brace text, lexer.tokens⟩
    else (shortEscape c).map fun e => ⟨.string (text ++ [e]), lexer.tokens⟩
  | .brace text => if c = '\x7b' then some ⟨.unicode text 0, lexer.tokens⟩ else none
  | .unicode text n =>
    if c = '\x7d' then
      if n.isValidChar then some ⟨.string (text ++ [Char.ofNat n]), lexer.tokens⟩ else none
    else (hexValue c).map fun d => ⟨.unicode text (n * 16 + d), lexer.tokens⟩

def finish (lexer : Lexer) : Option (List Token) :=
  match lexer.place with
  | .between | .comment => some lexer.tokens.reverse
  | .word name => some (.word name :: lexer.tokens).reverse
  | .number n => some (.number n :: lexer.tokens).reverse
  | .colon => some (.mark ':' :: lexer.tokens).reverse
  | _ => none

end Lexer

/-- A text is read from between two tokens to between two tokens, as these tokens. -/
def Reads (text : List Char) (tokens : List Token) : Prop :=
  ∀ before, text.foldlM Lexer.next ⟨.between, before⟩ = some ⟨.between, tokens.reverse ++ before⟩

def lex (text : List Char) : Option (List Token) :=
  (text.foldlM Lexer.next ⟨.between, []⟩).bind Lexer.finish

namespace Lexer

/-- The same place after more tokens. -/
def after (lexer : Lexer) (before : List Token) : Lexer := ⟨lexer.place, lexer.tokens ++ before⟩

theorem start_after (tokens before : List Token) (c : Char) :
    start (tokens ++ before) c = (start tokens c).after before := by
  unfold start after
  split_ifs <;> rfl

theorem start_after_cons (t : Token) (tokens before : List Token) (c : Char) :
    start (t :: (tokens ++ before)) c = (start (t :: tokens) c).after before :=
  start_after (t :: tokens) before c

theorem next_after (lexer : Lexer) (before : List Token) (c : Char) :
    (lexer.after before).next c = (lexer.next c).map fun l => l.after before := by
  obtain ⟨place, tokens⟩ := lexer
  cases place with
  | between => exact congrArg some (start_after tokens before c)
  | comment => rfl
  | colon | word =>
    simp only [next, after, start_after_cons]
    split_ifs <;> rfl
  | number | string | unicode =>
    simp only [next, after, start_after_cons]
    split_ifs <;> simp [Function.comp_def]
  | slash | brace =>
    simp only [next, after]
    split_ifs <;> rfl
  | escape =>
    simp only [next, after]
    split_ifs <;> simp [Function.comp_def]

theorem foldlM_after (lexer : Lexer) (before : List Token) (text : List Char) :
    text.foldlM next (lexer.after before) =
      (text.foldlM next lexer).map fun l => l.after before := by
  induction text generalizing lexer with
  | nil => rfl
  | cons c text ih =>
    rw [List.foldlM_cons, List.foldlM_cons, next_after]
    cases lexer.next c with
    | none => rfl
    | some l => exact ih l

end Lexer

theorem reads_iff {text : List Char} {tokens : List Token} : Reads text tokens ↔
    text.foldlM Lexer.next ⟨.between, []⟩ = some ⟨.between, tokens.reverse⟩ := by
  constructor
  · intro h
    rw [h [], List.append_nil]
  · intro h before
    have hafter := Lexer.foldlM_after ⟨.between, []⟩ before text
    rw [h] at hafter
    exact hafter

instance (text : List Char) (tokens : List Token) : Decidable (Reads text tokens) :=
  decidable_of_iff _ reads_iff.symm

theorem Reads.nil : Reads [] [] := fun _ => rfl

theorem Reads.append {s t : List Char} {a b : List Token} (hs : Reads s a) (ht : Reads t b) :
    Reads (s ++ t) (a ++ b) := by
  intro before
  rw [List.foldlM_append, hs before, Option.bind_eq_bind, Option.bind_some, ht,
    List.reverse_append, List.append_assoc]

theorem Reads.flatMap {α : Type} {text : α → List Char} {tokens : α → List Token} {items : List α}
    (h : ∀ x ∈ items, Reads (text x) (tokens x)) :
    Reads (items.flatMap text) (items.flatMap tokens) := by
  induction items with
  | nil => exact Reads.nil
  | cons x items ih =>
    exact (h x List.mem_cons_self).append (ih fun y hy => h y (List.mem_cons_of_mem x hy))

theorem Reads.intercalate {α : Type} {text : α → List Char} {tokens : α → List Token}
    {sep : List Char} {mark : List Token} (hsep : Reads sep mark) {items : List α}
    (h : ∀ x ∈ items, Reads (text x) (tokens x)) :
    Reads (sep.intercalate (items.map text)) (mark.intercalate (items.map tokens)) := by
  induction items with
  | nil => exact Reads.nil
  | cons x items ih =>
    have hx := h x List.mem_cons_self
    have hrest := ih fun y hy => h y (List.mem_cons_of_mem x hy)
    cases items with
    | nil => simpa using hx
    | cons y items =>
      simp only [List.map_cons, List.intercalate_cons_cons] at hrest ⊢
      exact (hx.append hsep).append hrest

theorem Reads.lex {text : List Char} {tokens : List Token} (h : Reads text tokens) :
    lex text = some tokens := by
  rw [Source.lex, h [], Option.bind_some, Lexer.finish, List.append_nil, List.reverse_reverse]

theorem start_digit {c : Char} (hc : c.isDigit = true) (tokens : List Token) :
    Lexer.start tokens c = ⟨.number (c.toNat - '0'.toNat), tokens⟩ := by
  have hne {d : Char} (hd : d.isDigit = false) : c ≠ d := by
    rintro rfl
    exact absurd (hc.symm.trans hd) (by decide)
  have hwhite : c.isWhitespace = false := by
    simp [Char.isWhitespace, hne (show ' '.isDigit = false from rfl),
      hne (show '\t'.isDigit = false from rfl), hne (show '\r'.isDigit = false from rfl),
      hne (show '\n'.isDigit = false from rfl)]
  simp [Lexer.start, hwhite, hne (show '/'.isDigit = false from rfl),
    hne (show ':'.isDigit = false from rfl), hne (show '"'.isDigit = false from rfl), hc]

theorem next_digit {c : Char} (hc : c.isDigit = true) (n : ℕ) (before : List Token) :
    Lexer.next ⟨.number n, before⟩ c = some ⟨.number (n * 10 + (c.toNat - '0'.toNat)), before⟩ := by
  simp [Lexer.next, hc]

theorem foldlM_number (n : ℕ) (before : List Token) :
    (Nat.toDigits 10 n).foldlM Lexer.next ⟨.between, before⟩ = some ⟨.number n, before⟩ := by
  have hdigit : ∀ d : Fin 10, (Nat.digitChar d).isDigit = true ∧
      (Nat.digitChar d).toNat - '0'.toNat = d := by decide
  have hnext : ∀ k d, d < 10 → Lexer.next ⟨.number k, before⟩ d.digitChar =
      some ⟨.number (k * 10 + d), before⟩ := by
    intro k d hd
    obtain ⟨hd', hvalue⟩ := hdigit ⟨d, hd⟩
    rw [next_digit hd', hvalue]
  have hread := foldlM_toDigits (by decide) hnext n
  cases hdigits : Nat.toDigits 10 n with
  | nil => exact absurd hdigits Nat.toDigits_ne_nil
  | cons d rest =>
    have hd : d.isDigit = true := Nat.isDigit_of_mem_toDigits (b := 10) (n := n) (by decide)
      (by decide) (hdigits ▸ List.mem_cons_self)
    have hfirst : Lexer.next ⟨.between, before⟩ d = Lexer.next ⟨.number 0, before⟩ d := by
      rw [next_digit hd, Nat.zero_mul, Nat.zero_add, ← start_digit hd]
      rfl
    rw [← hread, hdigits, List.foldlM_cons, List.foldlM_cons, hfirst]

/-- A decimal number, up to what a word cannot have. -/
theorem reads_number (n : ℕ) {c : Char} {text : List Char} {tokens : List Token}
    (hc : isWordPart c = false) (h : Reads (c :: text) tokens) :
    Reads (Nat.toDigits 10 n ++ c :: text) (.number n :: tokens) := by
  intro before
  have hdigit : c.isDigit = false := by
    simp only [isWordPart, Char.isAlphanum, Bool.or_eq_false_iff] at hc
    exact hc.1.2
  have hnext : Lexer.next ⟨.number n, before⟩ c =
      Lexer.next ⟨.between, .number n :: before⟩ c := by
    simp [Lexer.next, hdigit, hc]
  have hrest := h (.number n :: before)
  rw [List.foldlM_cons, ← hnext, ← List.foldlM_cons] at hrest
  rw [List.foldlM_append, foldlM_number, Option.bind_eq_bind, Option.bind_some, hrest]
  simp

/-- A name that does not begin with a digit. -/
def IsWord (name : List Char) : Prop :=
  name.all isWordPart = true ∧ ∃ c ∈ name.head?, c.isDigit = false

instance (name : List Char) : Decidable (IsWord name) :=
  decidable_of_iff (name.all isWordPart = true ∧ name.head?.any (!·.isDigit) = true)
    (by simp [IsWord, Option.any_eq_true])

theorem start_wordPart {c : Char} (hc : isWordPart c = true) (hdigit : c.isDigit = false)
    (tokens : List Token) : Lexer.start tokens c = ⟨.word [c], tokens⟩ := by
  have hne {d : Char} (hd : isWordPart d = false) : c ≠ d := by
    rintro rfl
    exact absurd (hc.symm.trans hd) (by decide)
  have hwhite : c.isWhitespace = false := by
    simp [Char.isWhitespace, hne (show isWordPart ' ' = false from rfl),
      hne (show isWordPart '\t' = false from rfl), hne (show isWordPart '\r' = false from rfl),
      hne (show isWordPart '\n' = false from rfl)]
  simp [Lexer.start, hwhite, hne (show isWordPart '/' = false from rfl),
    hne (show isWordPart ':' = false from rfl), hne (show isWordPart '"' = false from rfl), hdigit,
    hc]

theorem foldlM_word {name : List Char} (h : name.all isWordPart = true) (read : List Char)
    (before : List Token) : name.foldlM Lexer.next ⟨.word read, before⟩ =
      some ⟨.word (read ++ name), before⟩ := by
  induction name generalizing read with
  | nil => simp
  | cons c name ih =>
    obtain ⟨hc, hname⟩ := Bool.and_eq_true_iff.mp h
    have hnext : Lexer.next ⟨.word read, before⟩ c = some ⟨.word (read ++ [c]), before⟩ := by
      simp [Lexer.next, hc]
    rw [List.foldlM_cons, hnext, Option.bind_eq_bind, Option.bind_some, ih hname,
      List.append_assoc]
    rfl

/-- A name, up to what a word cannot have. -/
theorem reads_word {name : List Char} (hname : IsWord name) {c : Char} {text : List Char}
    {tokens : List Token} (hc : isWordPart c = false) (h : Reads (c :: text) tokens) :
    Reads (name ++ c :: text) (.word name :: tokens) := by
  intro before
  obtain ⟨hall, d, hd, hdigit⟩ := hname
  obtain ⟨name, rfl⟩ := List.head?_eq_some_iff.mp hd
  obtain ⟨hpart, hrest⟩ := Bool.and_eq_true_iff.mp hall
  have hfirst : Lexer.next ⟨.between, before⟩ d = some ⟨.word [d], before⟩ :=
    congrArg some (start_wordPart hpart hdigit before)
  have hnext : Lexer.next ⟨.word (d :: name), before⟩ c =
      Lexer.next ⟨.between, .word (d :: name) :: before⟩ c := by
    simp [Lexer.next, hc]
  have hafter := h (.word (d :: name) :: before)
  rw [List.foldlM_cons, ← hnext, ← List.foldlM_cons] at hafter
  rw [List.cons_append, List.foldlM_cons, hfirst, Option.bind_eq_bind, Option.bind_some,
    List.foldlM_append, foldlM_word hrest, Option.bind_eq_bind, Option.bind_some,
    List.singleton_append, hafter]
  simp

/-- The reader understands each escape in a string. -/
def Escapes (escape : Char → List Char) : Prop := ∀ c text before,
  (escape c).foldlM Lexer.next ⟨.string text, before⟩ = some ⟨.string (text ++ [c]), before⟩

theorem Escapes.foldlM {escape : Char → List Char} (h : Escapes escape) (text read : List Char)
    (before : List Token) : (text.flatMap escape).foldlM Lexer.next ⟨.string read, before⟩ =
      some ⟨.string (read ++ text), before⟩ := by
  induction text generalizing read with
  | nil => simp
  | cons c text ih =>
    rw [List.flatMap_cons, List.foldlM_append, h c read before, Option.bind_eq_bind,
      Option.bind_some, ih, List.append_assoc]
    rfl

theorem reads_string {escape : Char → List Char} (h : Escapes escape) (text : List Char) :
    Reads ('"' :: text.flatMap escape ++ ['"']) [.string text] := by
  intro before
  have hopen : Lexer.next ⟨.between, before⟩ '"' = some ⟨.string [], before⟩ := rfl
  rw [List.cons_append, List.foldlM_cons, hopen, Option.bind_eq_bind, Option.bind_some,
    List.foldlM_append, h.foldlM, Option.bind_eq_bind, Option.bind_some, List.nil_append]
  rfl

end Source
