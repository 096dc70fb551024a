import Syren.Cli.Filter
import Syren.Folding.EarlyStop
import Syren.Gen.Lookup

/-! What `-e` expressions mean: which of them are accepted, and which numbers the filter allows. -/
namespace Syren.Filter
open Folding Text

variable {table : List SyscallInfo} {exprs : List (List Char)}

def IsAll (token : List Char) : Prop := eqIgnoreAsciiCase token "all".toList = true

instance (token : List Char) : Decidable (IsAll token) := by
  unfold IsAll
  infer_instance

/-- The token is `all`, a category or the name of a syscall. -/
def Known (table : List SyscallInfo) (token : List Char) : Prop :=
  IsAll token ∨ (Category.parse (bare token)).isSome ∨ (syscallByName table token).isSome

/-- The tokens of an expression with a supported qualifier. -/
def tokensOf (spec : List Char) : List (List Char) :=
  match setOf spec with
  | .ok set => tokens set
  | .error _ => []

def HasAll (exprs : List (List Char)) : Prop := ∃ spec ∈ exprs, ∃ token ∈ tokensOf spec, IsAll token

/-- The qualifier is not supported, or a token is unknown. -/
def BadSpec (table : List SyscallInfo) (spec : List Char) : Prop :=
  (∃ message, setOf spec = .error message) ∨ ∃ token ∈ tokensOf spec, ¬ Known table token

def Bad (table : List SyscallInfo) (exprs : List (List Char)) : Prop :=
  ∃ spec ∈ exprs, BadSpec table spec

/-- The numbers that a token is to stand for: the name of a syscall stands for that syscall alone,
and only what is not such a name may be a category. -/
def Denotes (table : List SyscallInfo) (token : List Char) (n : UInt32) : Prop :=
  (∃ info, syscallByName table token = some info ∧ info.number = n) ∨
  (syscallByName table token = none ∧ ∃ category, Category.parse (bare token) = some category ∧
    ∃ s ∈ table, s.category = category ∧ s.number = n)

def Named (table : List SyscallInfo) (exprs : List (List Char)) (n : UInt32) : Prop :=
  ∃ spec ∈ exprs, ∃ token ∈ tokensOf spec, Denotes table token n

instance (token : List Char) : Decidable (Known table token) := by
  unfold Known
  infer_instance

/-- The numbers that the code takes a token for: it looks for a category first. -/
def Reads (table : List SyscallInfo) (token : List Char) (n : UInt32) : Prop :=
  (∃ category, Category.parse (bare token) = some category ∧
    ∃ s ∈ table, s.category = category ∧ s.number = n) ∨
  (Category.parse (bare token) = none ∧
    ∃ info, syscallByName table token = some info ∧ info.number = n)

/-- What stops the loops at a token. -/
def tokenStop (table : List SyscallInfo) (token : List Char) : Option Stop :=
  if IsAll token then some (.ok .All)
  else if Known table token then none
  else some (.error ("unknown syscall or category in `-e`: `".toList ++ token ++ "`".toList))

def specStop (table : List SyscallInfo) (spec : List Char) : Option Stop :=
  match setOf spec with
  | .ok set => (tokens set).findSome? (tokenStop table)
  | .error message => some (.error message)

def tokenNumbers (table : List SyscallInfo) (token : List Char) : Finset UInt32 :=
  match Category.parse (bare token) with
  | some category => ((inCategory table category).map (·.number)).toFinset
  | none => match syscallByName table token with
    | some info => {info.number}
    | none => ∅

def collect (table : List SyscallInfo) (numbers : Finset UInt32) (spec : List Char) :
    Finset UInt32 :=
  (tokensOf spec).foldl (fun s token => s ∪ tokenNumbers table token) numbers

theorem mem_tokenNumbers {token : List Char} {n : UInt32} :
    n ∈ tokenNumbers table token ↔ Reads table token n := by
  unfold tokenNumbers Reads
  cases Category.parse (bare token) with
  | some category => simp [inCategory, and_assoc, and_left_comm, eq_comm]
  | none => cases syscallByName table token <;> simp [eq_comm]

theorem addToken_eq (numbers : Finset UInt32) (token : List Char) :
    addToken table numbers token =
      (tokenStop table token).elim (.ok (numbers ∪ tokenNumbers table token)) .error := by
  by_cases hall : IsAll token
  · have hcond : eqIgnoreAsciiCase token "all".toList = true := hall
    rw [addToken, if_pos hcond, tokenStop, if_pos hall]
    rfl
  · have hcond : ¬ eqIgnoreAsciiCase token "all".toList = true := hall
    rw [addToken, if_neg hcond, tokenStop, if_neg hall, tokenNumbers]
    cases hcat : Category.parse (bare token) with
    | some category =>
      have hknown : Known table token := .inr (.inl (by rw [hcat]; rfl))
      rw [if_pos hknown]
      rfl
    | none =>
      cases hname : syscallByName table token with
      | some info =>
        have hknown : Known table token := .inr (.inr (by rw [hname]; rfl))
        rw [if_pos hknown]
        exact congrArg Except.ok (Finset.union_comm {info.number} numbers)
      | none =>
        have hknown : ¬ Known table token := by
          rintro (h | h | h)
          · exact hall h
          · rw [hcat] at h
            cases h
          · rw [hname] at h
            cases h
        rw [if_neg hknown]
        rfl

theorem addSpec_eq (numbers : Finset UInt32) (spec : List Char) : addSpec table numbers spec =
    (specStop table spec).elim (.ok (collect table numbers spec)) .error := by
  unfold addSpec specStop collect tokensOf
  cases setOf spec with
  | ok set => exact foldlM_stop addToken_eq _ _
  | error message => rfl

theorem fromExprs_eq (h : exprs ≠ []) : fromExprs table exprs =
    (exprs.findSome? (specStop table)).elim
      (.ok (.Numbers (exprs.foldl (collect table) ∅))) id := by
  rw [fromExprs, if_neg h, foldlM_stop addSpec_eq]
  cases exprs.findSome? (specStop table) <;> rfl

/-- The numbers collected are those that some token is taken for. -/
theorem mem_collected {n : UInt32} : n ∈ exprs.foldl (collect table) ∅ ↔
    ∃ spec ∈ exprs, ∃ token ∈ tokensOf spec, Reads table token n := by
  rw [mem_foldl (P := fun spec => ∃ token ∈ tokensOf spec, Reads table token n)]
  · simp
  · intro s spec
    rw [collect, mem_foldl (P := fun token => Reads table token n)]
    intro s token
    rw [Finset.mem_union, mem_tokenNumbers]

theorem tokenStop_eq_none {token : List Char} :
    tokenStop table token = none ↔ ¬ IsAll token ∧ Known table token := by
  unfold tokenStop
  split_ifs with hall hknown
  · simp [hall]
  · simp [hall, hknown]
  · simp [hknown]

theorem tokenStop_ok {token : List Char} {f : Filter}
    (h : tokenStop table token = some (.ok f)) : f = .All ∧ IsAll token := by
  unfold tokenStop at h
  split_ifs at h with hall
  · cases h
    exact ⟨rfl, hall⟩
  · cases h

theorem tokenStop_error {token message : List Char}
    (h : tokenStop table token = some (.error message)) : ¬ Known table token := by
  unfold tokenStop at h
  split_ifs at h with hall hknown
  · cases h
  · exact hknown

variable {spec : List Char}

theorem specStop_eq_none : specStop table spec = none ↔
    ¬ BadSpec table spec ∧ ∀ token ∈ tokensOf spec, ¬ IsAll token := by
  unfold specStop BadSpec tokensOf
  cases setOf spec with
  | ok set =>
    simp only [List.findSome?_eq_none_iff, tokenStop_eq_none, reduceCtorEq, exists_false, false_or,
      not_exists, not_and, not_not]
    exact ⟨fun h => ⟨fun t ht => (h t ht).2, fun t ht => (h t ht).1⟩,
      fun h t ht => ⟨h.2 t ht, h.1 t ht⟩⟩
  | error message => simp

theorem specStop_ok {f : Filter} (h : specStop table spec = some (.ok f)) :
    f = .All ∧ ∃ token ∈ tokensOf spec, IsAll token := by
  unfold specStop at h
  unfold tokensOf
  cases hset : setOf spec with
  | ok set =>
    rw [hset] at h
    obtain ⟨token, ht, hstop⟩ := List.exists_of_findSome?_eq_some h
    obtain ⟨hf, hall⟩ := tokenStop_ok hstop
    exact ⟨hf, token, ht, hall⟩
  | error message =>
    rw [hset] at h
    cases h

theorem specStop_error {message : List Char} (h : specStop table spec = some (.error message)) :
    BadSpec table spec := by
  unfold specStop at h
  unfold BadSpec tokensOf
  cases hset : setOf spec with
  | ok set =>
    rw [hset] at h
    obtain ⟨token, ht, hstop⟩ := List.exists_of_findSome?_eq_some h
    exact .inr ⟨token, ht, tokenStop_error hstop⟩
  | error message => exact .inl ⟨message, rfl⟩

/-- What the expressions give: everything, an error, or the numbers that the tokens are taken
for. -/
inductive Given (table : List SyscallInfo) (exprs : List (List Char)) : Prop where
  | all (h : fromExprs table exprs = .ok .All) (hall : exprs = [] ∨ HasAll exprs)
  | error (message : List Char) (h : fromExprs table exprs = .error message)
      (hbad : Bad table exprs)
  | numbers (h : fromExprs table exprs = .ok (.Numbers (exprs.foldl (collect table) ∅)))
      (hne : exprs ≠ []) (hbad : ¬ Bad table exprs) (hall : ¬ HasAll exprs)

theorem given (table : List SyscallInfo) (exprs : List (List Char)) : Given table exprs := by
  by_cases hne : exprs = []
  · subst hne
    exact .all rfl (.inl rfl)
  · have hexprs : fromExprs table exprs = _ := fromExprs_eq hne
    cases hstop : exprs.findSome? (specStop table) with
    | none =>
      rw [hstop] at hexprs
      have hnone := List.findSome?_eq_none_iff.mp hstop
      refine .numbers hexprs hne ?_ ?_
      · rintro ⟨spec, hs, hbad⟩
        exact (specStop_eq_none.mp (hnone spec hs)).1 hbad
      · rintro ⟨spec, hs, token, ht, hall⟩
        exact (specStop_eq_none.mp (hnone spec hs)).2 token ht hall
    | some stop =>
      rw [hstop] at hexprs
      obtain ⟨spec, hs, hspec⟩ := List.exists_of_findSome?_eq_some hstop
      cases stop with
      | ok f =>
        obtain ⟨rfl, hall⟩ := specStop_ok hspec
        exact .all hexprs (.inr ⟨spec, hs, hall⟩)
      | error message => exact .error message hexprs ⟨spec, hs, specStop_error hspec⟩

theorem tryU32_eq_some {nr : UInt64} {n : UInt32} : tryU32 nr = some n ↔ n.toNat = nr.toNat := by
  unfold tryU32
  have hlt := n.toNat_lt
  split_ifs with h
  · rw [Option.some_inj, ← UInt32.toNat_inj, UInt64.toNat_toUInt32]
    omega
  · simp only [false_iff]
    omega

theorem allows_numbers {set : Finset UInt32} {nr : UInt64} :
    (Filter.Numbers set).allows nr = true ↔ ∃ n ∈ set, n.toNat = nr.toNat := by
  simp only [allows, Option.any_eq_true, decide_eq_true_eq, tryU32_eq_some]
  exact exists_congr fun n => and_comm

/-- The filter allows what the tokens name, and everything where there is no expression or one
asks for all. -/
def MeansTokens (table : List SyscallInfo) (exprs : List (List Char)) : Prop :=
  ∀ f, fromExprs table exprs = .ok f → ∀ nr : UInt64, f.allows nr = true ↔
    exprs = [] ∨ HasAll exprs ∨ ∃ n, n.toNat = nr.toNat ∧ Named table exprs n

/-- A token that is the name of a syscall and of a category makes no difference: whatever is in the
category is named anyway, and the syscall of that name is in the reading of some token. -/
def Covered (table : List SyscallInfo) (exprs : List (List Char)) (token : List Char) : Prop :=
  ∀ info category, syscallByName table token = some info →
    Category.parse (bare token) = some category →
    (∀ s ∈ table, s.category = category → Named table exprs s.number) ∧
    ∃ spec ∈ exprs, ∃ t ∈ tokensOf spec, Reads table t info.number

theorem syscallByName_some {token : List Char} {info : SyscallInfo}
    (h : syscallByName table token = some info) : info ∈ table ∧ info.name = String.ofList token :=
  ⟨List.mem_of_find?_eq_some h, by simpa using List.find?_some h⟩

/-- In a table in order, as the shipped one is, the syscall that an ambiguous token names is read
exactly from the tokens that stand for its category. -/
theorem reads_iff_category (hinc : Increasing table) {token t : List Char} {info : SyscallInfo}
    (hname : syscallByName table token = some info)
    (hcat : (Category.parse (bare token)).isSome) :
    Reads table t info.number ↔ Category.parse (bare t) = some info.category := by
  obtain ⟨hmem, hown⟩ := syscallByName_some hname
  have hsame {s : SyscallInfo} (hs : s ∈ table) (hn : s.number = info.number) : s = info := by
    have hfound := syscallByNumber_of_mem hinc hs
    rw [hn, syscallByNumber_of_mem hinc hmem] at hfound
    exact (Option.some.inj hfound).symm
  constructor
  · rintro (⟨category, hparse, s, hs, rfl, hn⟩ | ⟨hnone, s, hs, hn⟩)
    · rw [hparse, hsame hs hn]
    · obtain ⟨hrow, hsname⟩ := syscallByName_some hs
      have hnames : String.ofList t = String.ofList token := by
        rw [← hsname, hsame hrow hn, hown]
      rw [String.ofList_injective hnames] at hnone
      rw [hnone] at hcat
      cases hcat
  · exact fun hparse => .inl ⟨info.category, hparse, info, hmem, rfl, rfl⟩

/-- With the shipped table a token is covered where every syscall of its category is named by a
token, and a token stands for the category of the syscall that it names. -/
theorem covered_iff_tokens {token : List Char} : Covered SYSCALLS exprs token ↔
    ∀ info category, syscallByName SYSCALLS token = some info →
      Category.parse (bare token) = some category →
        (∀ s ∈ SYSCALLS, s.category = category → Named SYSCALLS exprs s.number) ∧
          ∃ spec ∈ exprs, ∃ t ∈ tokensOf spec, Category.parse (bare t) = some info.category := by
  refine forall₄_congr fun info category hname hcat => and_congr_right fun _ => ?_
  simp only [reads_iff_category increasing_SYSCALLS hname (hcat ▸ rfl)]

/-- The two readings of a token differ only where it names a syscall and a category. -/
theorem denotes_or_reads (table : List SyscallInfo) (token : List Char) :
    (∀ n, Denotes table token n ↔ Reads table token n) ∨
    ∃ info category, syscallByName table token = some info ∧
      Category.parse (bare token) = some category := by
  unfold Denotes Reads
  cases hname : syscallByName table token with
  | none => exact .inl fun n => by cases Category.parse (bare token) <;> simp
  | some info =>
    cases hcat : Category.parse (bare token) with
    | none => exact .inl fun n => by simp
    | some category => exact .inr ⟨info, category, rfl, rfl⟩

theorem named_iff_read (h : ∀ spec ∈ exprs, ∀ token ∈ tokensOf spec, Covered table exprs token)
    (n : UInt32) : Named table exprs n ↔
      ∃ spec ∈ exprs, ∃ token ∈ tokensOf spec, Reads table token n := by
  constructor
  · rintro ⟨spec, hs, token, ht, hden⟩
    obtain heq | ⟨info, category, hname, hcat⟩ := denotes_or_reads table token
    · exact ⟨spec, hs, token, ht, (heq n).mp hden⟩
    · obtain ⟨info', hname', rfl⟩ | ⟨hnone, -⟩ := hden
      · exact (h spec hs token ht info' category hname' hcat).2
      · cases hname.symm.trans hnone
  · rintro ⟨spec, hs, token, ht, hread⟩
    obtain heq | ⟨info, category, hname, hcat⟩ := denotes_or_reads table token
    · exact ⟨spec, hs, token, ht, (heq n).mpr hread⟩
    · obtain ⟨category', hcat', s, hrow, rfl, rfl⟩ | ⟨hnone, -⟩ := hread
      · exact (h spec hs token ht info _ hname hcat').1 s hrow rfl
      · cases hcat.symm.trans hnone

/-- The expressions mean what their tokens name exactly where every ambiguous token is covered, they
are rejected, or one asks for all. -/
theorem meansTokens_iff : MeansTokens table exprs ↔ HasAll exprs ∨ Bad table exprs ∨
    ∀ spec ∈ exprs, ∀ token ∈ tokensOf spec, Covered table exprs token := by
  have hself (n : UInt32) : n.toUInt64.toNat = n.toNat := UInt32.toNat_toUInt64 n
  cases given table exprs with
  | all h hall =>
    have hmeans : MeansTokens table exprs := by
      intro f hf nr
      cases h.symm.trans hf
      exact ⟨fun _ => hall.imp_right .inl, fun _ => rfl⟩
    refine ⟨fun _ => ?_, fun _ => hmeans⟩
    rcases hall with rfl | hall
    · exact .inr (.inr nofun)
    · exact .inl hall
  | error message h hbad =>
    refine ⟨fun _ => .inr (.inl hbad), fun _ f hf => ?_⟩
    cases h.symm.trans hf
  | numbers h hne hbad hall =>
    constructor
    · intro hmeans
      have hiff (n : UInt32) : Named table exprs n ↔
          ∃ spec ∈ exprs, ∃ token ∈ tokensOf spec, Reads table token n := by
        have hn := hmeans _ h n.toUInt64
        rw [allows_numbers, hself] at hn
        simp only [hne, hall, false_or, mem_collected, UInt32.toNat_inj, exists_eq_right,
          exists_eq_left] at hn
        exact hn.symm
      refine .inr (.inr fun spec hs token ht info category hname hcat => ⟨fun s hrow hc => ?_, ?_⟩)
      · exact (hiff s.number).mpr ⟨spec, hs, token, ht, .inl ⟨category, hcat, s, hrow, hc, rfl⟩⟩
      · exact (hiff info.number).mp ⟨spec, hs, token, ht, .inl ⟨info, hname, rfl⟩⟩
    · rintro (hyes | hyes | hcov)
      · exact absurd hyes hall
      · exact absurd hyes hbad
      · intro f hf nr
        cases h.symm.trans hf
        rw [allows_numbers]
        simp only [hne, hall, false_or, mem_collected, named_iff_read hcov]
        exact exists_congr fun n => and_comm

theorem tokensOf_time : tokensOf "time".toList = ["time".toList] := by decide +kernel

theorem syscallByName_time :
    syscallByName SYSCALLS "time".toList = some (Gen.row (201, "time")) := by
  decide +kernel

/-- Asking for the syscall `time` also reports `nanosleep`. -/
theorem time_names_more : ¬ ∀ exprs, MeansTokens SYSCALLS exprs := by
  intro h
  have hmem {spec : List Char} (hs : spec ∈ ["time".toList]) : spec = "time".toList :=
    List.mem_singleton.mp hs
  have hknown : Known SYSCALLS "time".toList := by
    refine .inr (.inr ?_)
    rw [syscallByName_time]
    rfl
  have hnot : ¬ IsAll "time".toList := by decide +kernel
  have hok : setOf "time".toList = .ok "time".toList := by decide +kernel
  obtain ⟨spec, hs, token, ht, hall⟩ | ⟨spec, hs, hbad⟩ | hcov :=
    meansTokens_iff.mp (h ["time".toList])
  · rw [hmem hs, tokensOf_time] at ht
    rw [hmem ht] at hall
    exact hnot hall
  · rw [hmem hs] at hbad
    obtain ⟨message, hm⟩ | ⟨token, ht, hunknown⟩ := hbad
    · cases hok.symm.trans hm
    · rw [tokensOf_time] at ht
      rw [hmem ht] at hunknown
      exact hunknown hknown
  · have hin : "time".toList ∈ tokensOf "time".toList := by
      rw [tokensOf_time]
      exact List.mem_singleton_self _
    have hcat : Category.parse (bare "time".toList) = some .Time := by decide +kernel
    have hrow : Gen.row (35, "nanosleep") ∈ SYSCALLS := List.mem_map_of_mem (by decide +kernel)
    have htime : (Gen.row (35, "nanosleep")).category = .Time := by decide +kernel
    obtain ⟨spec, hs, token, ht, hden⟩ := (hcov _ (List.mem_singleton_self _) _ hin _ _
      syscallByName_time hcat).1 _ hrow htime
    rw [hmem hs, tokensOf_time] at ht
    rw [hmem ht] at hden
    obtain ⟨info, hinfo, hnum⟩ | ⟨hnone, -⟩ := hden
    · cases syscallByName_time.symm.trans hinfo
      exact absurd hnum (by decide)
    · cases syscallByName_time.symm.trans hnone

end Syren.Filter
